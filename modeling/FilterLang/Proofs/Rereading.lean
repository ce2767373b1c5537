import FilterLang.Proofs.BareText

/-! What a definition is read as: `Legible.parse_eq_reread`. A relation or a connective is put at
the end of the text that it follows, and `extend` says where in the tree that is. The tree that is
read is put together by `extend`, step by step, from the tree that was written. -/

namespace FilterLang

/-- An operator with its right operand. -/
inductive Tail
  | comparison (op : Comparison) (right : Filter)
  | membership (among : List Filter)
  | connection (op : Connective) (right : Filter)

namespace Tail

def apply : Tail → Filter → Filter
  | comparison op right, left => .comparison op left right
  | membership among, left => .membership left among
  | connection op right, left => .connection op left right

/-- What the tail adds to a bare text. -/
def text : Tail → String
  | comparison op right => " " ++ op.spelling ++ " " ++ right.bareText
  | membership among => " " ++ Relation.membership.spelling ++ " " ++
      Filter.parenthesized (Filter.commaSeparated (Filter.definitions among))
  | connection op right => " " ++ op.spelling ++ " " ++ right.bareText

/-- A left operand that the tail takes as a whole makes a readable tree with it. -/
def Fits (t : Tail) : Prop :=
  ∀ left : Filter, left.Readable → left.leads = true → (t.apply left).Readable

theorem bareText_apply (t : Tail) (q : Filter) : (t.apply q).bareText = q.bareText ++ t.text := by
  cases t <;> simp only [apply, text, Filter.bareText, String.append_assoc]

theorem isExpression_apply (t : Tail) (q : Filter) : (t.apply q).isExpression = q.isField := by
  cases t <;> rfl

end Tail

namespace Filter

/-- The tree with a tail after its text: where something in it is not finished, the tail goes on
with that. -/
def extend (t : Tail) : Filter → Filter
  | negation q => if q.isFinished then t.apply (negation q) else negation (extend t q)
  | comparison op left (negation q) =>
    if q.isFinished then t.apply (comparison op left (negation q))
    else comparison op left (negation (extend t q))
  | connection op left right =>
    if right.isFinished then t.apply (connection op left right)
    else connection op left (extend t right)
  | q => t.apply q

/-- A connection with a right operand that may be a chain: its first expression is the operand, and
what follows that comes after the connection. -/
def join (op : Connective) (left : Filter) : Filter → Filter
  | comparison c l r =>
    if l.isField then extend (.connection op (comparison c l r)) left
    else extend (.comparison c r) (join op left l)
  | membership l among =>
    if l.isField then extend (.connection op (membership l among)) left
    else extend (.membership among) (join op left l)
  | connection c l r =>
    if l.isField then extend (.connection op (connection c l r)) left
    else extend (.connection c r) (join op left l)
  | q => extend (.connection op q) left

theorem bareText_extend (t : Tail) (q : Filter) :
    (extend t q).bareText = q.bareText ++ t.text := by
  fun_induction extend t q with
  -- where the tail goes on inside, the text before the inner tree stays in front
  | case2 q _ ih | case4 op left q _ ih | case6 op left right _ ih =>
    simp only [bareText, ih, String.append_assoc]
  | _ => exact t.bareText_apply _

/-- A tail keeps a tree readable. Inside of a negation or right of a connective the tree must be one
expression with the tail as well, which it is if the tail goes on inside or comes after a field. -/
theorem Readable.extend {t : Tail} (ht : t.Fits) {q : Filter} (h : q.Readable) :
    (q.extend t).Readable ∧
      (q.isFinished = false → q.isExpression = true → (q.extend t).isExpression = true) := by
  induction h with
  | name hquote hnumber => exact ⟨ht _ (.name hquote hnumber) rfl, fun _ _ => t.isExpression_apply _⟩
  | number hnumber => exact ⟨ht _ (.number hnumber) rfl, fun _ _ => t.isExpression_apply _⟩
  | group h => exact ⟨ht _ (.group h) rfl, fun _ _ => t.isExpression_apply _⟩
  | @negation q h hexpr ih =>
    rw [Filter.extend]
    split_ifs with hfinished
    · exact ⟨ht _ (.negation h hexpr) hfinished, fun _ _ => t.isExpression_apply _⟩
    · exact ⟨.negation ih.1 (ih.2 (by simpa using hfinished) hexpr), fun _ _ => rfl⟩
  | comparison h hleads hquote =>
    exact ⟨ht _ (.comparison h hleads hquote) rfl, fun hopen => by cases hopen⟩
  | @negatedComparison op left q h hleads hq hexpr _ ih =>
    rw [Filter.extend]
    split_ifs with hfinished
    · exact ⟨ht _ (.negatedComparison h hleads hq hexpr) hfinished,
        fun hopen => absurd hfinished (by simpa [isFinished] using hopen)⟩
    · have hexpr' := ih.2 (by simpa using hfinished) hexpr
      exact ⟨.negatedComparison h hleads ih.1 hexpr', fun _ hleft => hleft⟩
  | membership h hleads hquote =>
    exact ⟨ht _ (.membership h hleads hquote) rfl, fun hopen => by cases hopen⟩
  | @connection op left right h hleads hright hexpr _ ih =>
    rw [Filter.extend]
    split_ifs with hfinished
    · exact ⟨ht _ (.connection h hleads hright hexpr) hfinished,
        fun hopen => absurd hfinished (by simpa [isFinished] using hopen)⟩
    · have hexpr' := ih.2 (by simpa using hfinished) hexpr
      exact ⟨.connection h hleads ih.1 hexpr', fun _ hleft => hleft⟩

theorem fits_comparison {op : Comparison} {text : String} (h : Quotable text) :
    (Tail.comparison op (value text)).Fits :=
  fun _ hleft hleads => .comparison hleft hleads h

theorem fits_negatedComparison (op : Comparison) {q : Filter} (h : q.Readable)
    (hexpr : q.isExpression = true) : (Tail.comparison op (negation q)).Fits :=
  fun _ hleft hleads => .negatedComparison hleft hleads h hexpr

theorem fits_membership {texts : List String} (h : ∀ text ∈ texts, Quotable text) :
    (Tail.membership [values texts]).Fits :=
  fun _ hleft hleads => .membership hleft hleads h

theorem fits_connection {op : Connective} {right : Filter} (h : right.Readable)
    (hexpr : right.isExpression = true) : (Tail.connection op right).Fits :=
  fun _ hleft hleads => .connection hleft hleads h hexpr

/-- A readable tree is a field, or a tail with such a tree on its left. -/
@[elab_as_elim]
theorem Readable.chain_induction {P : Filter → Prop}
    (field : ∀ q : Filter, q.Readable → q.isField = true → P q)
    (tail : ∀ (t : Tail) (l : Filter), t.Fits → l.Readable → l.leads = true → P l → P (t.apply l))
    {q : Filter} (h : q.Readable) : P q := by
  induction h with
  | name hquote hnumber => exact field _ (.name hquote hnumber) rfl
  | number hnumber => exact field _ (.number hnumber) rfl
  | group h => exact field _ (.group h) rfl
  | negation h hexpr => exact field _ (.negation h hexpr) rfl
  | @comparison op _ _ h hleads hquote ih =>
    exact tail (.comparison op _) _ (fits_comparison hquote) h hleads ih
  | @negatedComparison op _ _ h hleads hq hexpr ih =>
    exact tail (.comparison op _) _ (fits_negatedComparison op hq hexpr) h hleads ih
  | membership h hleads hquote ih => exact tail (.membership _) _ (fits_membership hquote) h hleads ih
  | @connection op _ _ h hleads hright hexpr ih =>
    exact tail (.connection op _) _ (fits_connection hright hexpr) h hleads ih

theorem Readable.isField_or_eq_apply {q : Filter} (h : q.Readable) : q.isField = true ∨
    ∃ (t : Tail) (l : Filter), q = t.apply l ∧ l.Readable ∧ l.leads = true := by
  refine h.chain_induction (fun q _ hfield => ?_) fun t l _ hl hleads _ => ?_
  · exact .inl hfield
  · exact .inr ⟨t, l, rfl, hl, hleads⟩

theorem join_of_isExpression (op : Connective) (left : Filter) {q : Filter}
    (h : q.isExpression = true) : join op left q = extend (.connection op q) left := by
  cases q with
  | comparison | membership | connection => exact if_pos h
  | _ => rfl

theorem join_apply (op : Connective) (left : Filter) (t : Tail) {l : Filter}
    (h : l.isField = false) : join op left (t.apply l) = extend t (join op left l) := by
  cases t <;> exact if_neg (by simp [h])

theorem isExpression_of_isField {q : Filter} (h : q.isField = true) : q.isExpression = true := by
  cases q <;> first | rfl | cases h

theorem bareText_join (op : Connective) (left right : Filter) :
    (join op left right).bareText =
      left.bareText ++ " " ++ op.spelling ++ " " ++ right.bareText := by
  fun_induction join op left right with
  | case2 c l r _ ih | case4 l among _ ih | case6 c l r _ ih =>
    simp only [bareText_extend, Tail.text, bareText, ih, String.append_assoc]
  | _ => simp only [bareText_extend, Tail.text, String.append_assoc]

theorem Readable.join {op : Connective} {left right : Filter} (hleft : left.Readable)
    (h : right.Readable) : (left.join op right).Readable := by
  have single {q : Filter} (h : q.Readable) (hexpr : q.isExpression = true) :
      (left.join op q).Readable := by
    rw [join_of_isExpression op left hexpr]
    exact (hleft.extend (fits_connection h hexpr)).1
  -- the induction goes down the chain to its first expression, which is the right operand
  refine h.chain_induction (fun q hq hfield => single hq (isExpression_of_isField hfield)) ?_
  intro t l ht hl hleads ih
  cases hfield : l.isField with
  | true => exact single (ht l hl hleads) ((t.isExpression_apply l).trans hfield)
  | false =>
    rw [join_apply op left t hfield]
    exact (ih.extend ht).1

/-- A single value right of `IN` is written in parentheses, and read as a list. -/
def listed : List Filter → List Filter
  | [value text] => [values [text]]
  | among => among

/-- The tree that the definition is read as. -/
def reread : Filter → Filter
  | name text => fieldLeaf text
  | value text => value text
  | values [text] => value text
  | values texts => values texts
  | group inner => group inner.reread
  | negation operand => negation (operand.reread.groupIf !operand.isGroup)
  | comparison op left right => extend (.comparison op right.reread) left.reread
  | membership field among => extend (.membership (listed among)) field.reread
  | connection op left right =>
    join op (left.reread.groupIf left.leftNeedsGroup) (right.reread.groupIf right.rightNeedsGroup)

/-- The trees whose definition gives the parser an operand wherever it looks for one: a list right of
a comparison holds one value, and no negation stands right of `IN`. -/
inductive Legible : Filter → Prop
  | name {text} : Quotable text → Legible (name text)
  | number {text} : LexesAsNumber text → Legible (value text)
  | group {q} : Legible q → Legible (group q)
  | negation {q} : Legible q → Legible (negation q)
  | comparison {op left text} : Legible left → Quotable text →
      Legible (comparison op left (value text))
  | listedComparison {op left text} : Legible left → Quotable text →
      Legible (comparison op left (values [text]))
  | negatedComparison {op left q} : Legible left → Legible q →
      Legible (comparison op left (negation q))
  | bareMembership {field text} : Legible field → Quotable text →
      Legible (membership field [value text])
  | membership {field texts} : Legible field → (∀ text ∈ texts, Quotable text) →
      Legible (membership field [values texts])
  | connection {op left right} : Legible left → Legible right →
      Legible (connection op left right)

theorem readable_fieldLeaf {text : String} (h : Quotable text) : (fieldLeaf text).Readable := by
  rw [fieldLeaf]
  split_ifs with hnumber
  · exact .number hnumber
  · exact .name h hnumber

theorem bareText_fieldLeaf (text : String) : (fieldLeaf text).bareText = atom text :=
  fieldLeaf_ind (P := (·.bareText = atom text)) rfl rfl

theorem Readable.groupIf {q : Filter} (h : q.Readable) (b : Bool) : (q.groupIf b).Readable := by
  cases b with
  | false => exact h
  | true => exact .group h

theorem bareText_groupIf (b : Bool) (q : Filter) :
    (q.groupIf b).bareText = if b then parenthesized q.bareText else q.bareText := by
  cases b <;> rfl

theorem isExpression_reread_groupIf (q : Filter) :
    (q.reread.groupIf !q.isGroup).isExpression = true := by
  cases q <;> rfl

theorem Legible.readable_reread {q : Filter} (h : q.Legible) : q.reread.Readable := by
  induction h with
  | name hquote => exact readable_fieldLeaf hquote
  | number hnumber => exact .number hnumber
  | group _ ih => exact .group ih
  | negation _ ih =>
    exact .negation (ih.groupIf _) (isExpression_reread_groupIf _)
  | comparison _ hquote ih | listedComparison _ hquote ih =>
    exact (ih.extend (fits_comparison hquote)).1
  | @negatedComparison op _ q _ _ ihl ihq =>
    have hfits := fits_negatedComparison op (ihq.groupIf _) (isExpression_reread_groupIf q)
    exact (ihl.extend hfits).1
  | bareMembership _ hquote ih =>
    exact (ih.extend (fits_membership (by simpa using hquote))).1
  | membership _ hquote ih =>
    exact (ih.extend (fits_membership hquote)).1
  | connection _ _ ihl ihr => exact (ihl.groupIf _).join (ihr.groupIf _)

theorem bareText_negation_reread {q : Filter} (h : q.reread.bareText = q.definition) :
    (negation q).reread.bareText = (negation q).definition := by
  simp only [reread, bareText, definition, bareText_groupIf, h]
  cases q.isGroup <;> rfl

theorem Legible.bareText_reread {q : Filter} (h : q.Legible) :
    q.reread.bareText = q.definition := by
  induction h with
  | name => exact bareText_fieldLeaf _
  | number => rfl
  | group _ ih => simp only [reread, bareText, definition, ih]
  | negation _ ih => exact bareText_negation_reread ih
  | comparison _ _ ih | listedComparison _ _ ih =>
    simp only [reread, bareText_extend, Tail.text, bareText, definition, List.map, commaSeparated,
      ih, String.append_assoc]
  | negatedComparison _ _ ihl ihq =>
    rw [reread, bareText_extend, Tail.text, bareText_negation_reread ihq, ihl]
    simp only [definition, String.append_assoc]
  | bareMembership _ _ ih | membership _ _ ih =>
    simp only [reread, bareText_extend, Tail.text, listed, definitions, definition, List.map,
      commaSeparated, ih, String.append_assoc]
  | connection _ _ ihl ihr =>
    simp only [reread, bareText_join, bareText_groupIf, definition, ihl, ihr]

/-- The definition of a legible tree is read as this tree. -/
theorem Legible.parse_eq_reread {q : Filter} (h : q.Legible) :
    ∃ ts, Lexes 0 q.definition.toList ts ∧ ∀ c : Config, c.numbers = .verbatim →
      ts.length ≤ c.maxDepth → parse c q.definition = .ok (some q.reread) := by
  rw [← h.bareText_reread]
  exact h.readable_reread.parse_bareText

end Filter

end FilterLang
