import FilterLang.Proofs.RoundTrip
import FilterLang.Proofs.Shape

/-! Trees that are read back from a text without further groups: `Readable.parse_bareText`. The
grammar has no precedence, so an operator takes what comes before it for its left operand unless
something in there is not finished: after `a = NOT (b)` it goes on with the operand of the negation.
A tree is readable if each of its operators stands where the text puts it. -/

namespace FilterLang

namespace Filter

/-- Whether the text ends in a finished comparison, so that an operator after it goes on with the
chain and with nothing inside. -/
def isFinished : Filter → Bool
  | comparison _ _ (negation q) => q.isFinished
  | comparison _ _ _ | membership _ _ => true
  | connection _ _ right => right.isFinished
  | _ => false

/-- Whether an operator after the text takes the whole of it for its left operand. -/
def leads : Filter → Bool
  | name _ | value _ | values _ | group _ => true
  | negation q => q.isFinished
  | q => q.isFinished

def isField : Filter → Bool
  | name _ | value _ | values _ | group _ | negation _ => true
  | _ => false

/-- Whether the tree is one expression: a field, or one with an operator after it. -/
def isExpression : Filter → Bool
  | comparison _ left _ | membership left _ | connection _ left _ => left.isField
  | _ => true

/-- The text with no groups but those of the tree. -/
def bareText : Filter → String
  | name text | value text => atom text
  | values texts => commaSeparated (texts.map atom)
  | group inner => parenthesized inner.bareText
  | negation operand => Operator.negation.spelling ++ " " ++ operand.bareText
  | comparison op left right => left.bareText ++ " " ++ op.spelling ++ " " ++ right.bareText
  | membership field among =>
    field.bareText ++ " " ++ Relation.membership.spelling ++ " " ++
      parenthesized (commaSeparated (definitions among))
  | connection op left right => left.bareText ++ " " ++ op.spelling ++ " " ++ right.bareText

/-- The trees that are read back from their bare text. -/
inductive Readable : Filter → Prop
  | name {text} : Quotable text → ¬ LexesAsNumber text → Readable (name text)
  | number {text} : LexesAsNumber text → Readable (value text)
  | group {q} : Readable q → Readable (group q)
  | negation {q} : Readable q → q.isExpression = true → Readable (negation q)
  | comparison {op left text} : Readable left → left.leads = true → Quotable text →
      Readable (comparison op left (value text))
  | negatedComparison {op left q} : Readable left → left.leads = true → Readable q →
      q.isExpression = true → Readable (comparison op left (negation q))
  | membership {field texts} : Readable field → field.leads = true →
      (∀ text ∈ texts, Quotable text) → Readable (membership field [values texts])
  | connection {op left right} : Readable left → left.leads = true → Readable right →
      right.isExpression = true → Readable (connection op left right)

theorem isField_or_isFinished {q : Filter} (h : q.leads = true) :
    q.isField = true ∨ q.isFinished = true := by
  cases q with
  | name | value | values | group | negation => exact .inl rfl
  | comparison | membership | connection => exact .inr h

end Filter

/-- The tokens are read as the tree, in each place that its bare text can stand in. -/
structure ReadsAlone (q : Filter) (ts : List Token) : Prop where
  field : q.isField = true → ∀ rest, Closes rest ∨ q.leads = true →
    Derivable .verbatim .primary (ts ++ rest) q rest
  expression : q.isExpression = true → ∀ rest, Closes rest ∨ q.isFinished = true →
    Derivable .verbatim .expression (ts ++ rest) q rest
  chain : ∀ rest, Closes rest ∨ q.isFinished = true →
    Derivable .verbatim .chain (ts ++ rest) q rest

theorem Derivable.relationTail {numbers : NumberText} {r : Relation} {ts mid rest : List Token}
    {left right : Filter} (ho : Spelled (.relation r) ts mid)
    (h : Derivable numbers .operand mid right rest) :
    Derivable numbers (.tails left) ts (r.apply left right) rest := by
  obtain ⟨n, h⟩ := h
  exact ⟨n + 1, .relationTail ho h .noTail⟩

namespace ReadsAlone

variable {q left right : Filter} {ts os us : List Token}

theorem of_field (hq : q.isField = true)
    (h : ∀ rest, Closes rest ∨ q.leads = true → Derivable .verbatim .primary (ts ++ rest) q rest) :
    ReadsAlone q ts := by
  have hopen : q.isFinished = false := by cases q <;> simp_all [Filter.isField, Filter.isFinished]
  have hexpr (rest : List Token) (hrest : Closes rest ∨ q.isFinished = true) :
      Derivable .verbatim .expression (ts ++ rest) q rest := by
    have hclose : Closes rest := hrest.resolve_right (by simp [hopen])
    exact (h rest (.inl hclose)).alone hclose
  exact ⟨fun _ => h, fun _ => hexpr, fun rest hrest => (hexpr rest hrest).chain .noTail⟩

/-- A tree with an operator at its root, which is a field or a chain before that. -/
theorem of_operation (hq : q.isField = false) (hexpr : q.isExpression = left.isField)
    (hleft : ReadsAlone left ts) (hleads : left.leads = true)
    (h : ∀ rest, Closes rest ∨ q.isFinished = true →
      Derivable .verbatim .primary (ts ++ (us ++ rest)) left (us ++ rest) →
      Derivable .verbatim .expression (ts ++ (us ++ rest)) q rest)
    (h' : ∀ rest, Closes rest ∨ q.isFinished = true →
      Derivable .verbatim (.tails left) (us ++ rest) q rest) : ReadsAlone q (ts ++ us) := by
  have hfield (hl : left.isField = true) (rest : List Token)
      (hrest : Closes rest ∨ q.isFinished = true) :
      Derivable .verbatim .expression (ts ++ us ++ rest) q rest := by
    rw [List.append_assoc]
    exact h rest hrest (hleft.field hl _ (.inr hleads))
  constructor
  · simp [hq]
  · exact fun hl => hfield (hexpr ▸ hl)
  · intro rest hrest
    rcases Filter.isField_or_isFinished hleads with hl | hfinished
    · exact (hfield hl rest hrest).chain .noTail
    · rw [List.append_assoc]
      exact (hleft.chain _ (.inr hfinished)).chain_tails (h' rest hrest)

theorem relation (r : Relation) (hleft : ReadsAlone left ts) (hleads : left.leads = true)
    (ho : ∀ rest, Spelled (.relation r) (os ++ (us ++ rest)) (us ++ rest))
    (hright : ∀ rest, Closes rest ∨ (r.apply left right).isFinished = true →
      Derivable .verbatim .operand (us ++ rest) right rest) :
    ReadsAlone (r.apply left right) (ts ++ (os ++ us)) := by
  refine of_operation (by cases r <;> rfl) (by cases r <;> rfl) hleft hleads ?_ ?_
  · intro rest hrest hl
    rw [List.append_assoc] at hl ⊢
    exact hl.relation (ho rest) (hright rest hrest)
  · intro rest hrest
    rw [List.append_assoc]
    exact .relationTail (ho rest) (hright rest hrest)

theorem connection (op : Connective) (hleft : ReadsAlone left ts) (hleads : left.leads = true)
    (ho : ∀ rest, Spelled (.connective op) (os ++ rest) rest) (hright : ReadsAlone right us)
    (hexpr : right.isExpression = true) :
    ReadsAlone (.connection op left right) (ts ++ (os ++ us)) := by
  refine of_operation rfl rfl hleft hleads ?_ ?_
  · intro rest hrest hl
    rw [List.append_assoc] at hl ⊢
    exact hl.connection (ho _) (hright.expression hexpr rest hrest)
  · intro rest hrest
    rw [List.append_assoc]
    exact .connectionTail (ho _) (hright.expression hexpr rest hrest)

theorem negation (ho : ∀ rest, Spelled .negation (os ++ rest) rest) (h : ReadsAlone q ts)
    (hq : q.isExpression = true) : ReadsAlone (.negation q) (os ++ ts) := by
  refine of_field rfl fun rest hrest => ?_
  rw [List.append_assoc]
  exact (h.expression hq rest hrest).negation (ho _)

theorem group {t u : Token} (ht : t.kind = .openParen) (h : ReadsAlone q ts)
    (hu : u.kind = .closeParen) : ReadsAlone (.group q) (t :: ts ++ [u]) := by
  refine of_field rfl fun rest _ => ?_
  have hchain := h.chain (u :: rest) (.inl (closes_cons.mpr hu))
  simpa using hchain.group ht hu

end ReadsAlone

namespace Filter

theorem fieldLeaf_of_number {text : String} (h : LexesAsNumber text) :
    fieldLeaf text = value text := if_pos h

theorem fieldLeaf_of_not_number {text : String} (h : ¬ LexesAsNumber text) :
    fieldLeaf text = name text := if_neg h

theorem exists_lexes_field {text : String} (h : Quotable text) (k : Nat) :
    ∃ ts, Lexes k (atom text).toList ts ∧ ∀ rest,
      Derivable .verbatim .primary (ts ++ rest) (fieldLeaf text) rest := by
  obtain ⟨t, hlex, -, hfield⟩ := exists_lexes_leaf h k
  exact ⟨[t], hlex, fun rest => ⟨0, .field hfield⟩⟩

/-- Wherever the bare text of a readable tree stands, its tokens are read as the tree. -/
theorem Readable.readsAlone {q : Filter} (h : q.Readable) (k : Nat) :
    ∃ ts, Lexes k q.bareText.toList ts ∧ ReadsAlone q ts := by
  induction h generalizing k with
  | name hquote hnumber =>
    obtain ⟨ts, hlex, hts⟩ := exists_lexes_field hquote k
    rw [fieldLeaf_of_not_number hnumber] at hts
    exact ⟨ts, hlex, .of_field rfl fun rest _ => hts rest⟩
  | number hnumber =>
    obtain ⟨ts, hlex, hts⟩ := exists_lexes_field (quotable_of_isWordChar hnumber.isWordChar) k
    rw [fieldLeaf_of_number hnumber] at hts
    exact ⟨ts, hlex, .of_field rfl fun rest _ => hts rest⟩
  | group _ ih =>
    obtain ⟨ts, hlex, hts⟩ := ih (k + 1)
    obtain ⟨t, u, ht, hu, hwhole⟩ := hlex.parenthesized
    exact ⟨_, by simpa [bareText, parenthesized] using hwhole, hts.group ht hu⟩
  | negation _ hexpr ih =>
    obtain ⟨os, hos, ho⟩ := exists_lexes_spelling .negation k
    obtain ⟨ts, hlex, hts⟩ := ih _
    refine ⟨_, ?_, hts.negation (fun rest => ho rest (.of_word rfl rest)) hexpr⟩
    simpa [bareText] using hos.spaced hlex
  | @comparison op left text _ hleads hquote ih =>
    obtain ⟨ts, hlex, hts⟩ := ih k
    obtain ⟨os, us, hwhole, ho, t, rfl, ht⟩ :=
      exists_lexes_infix hlex (.relation (.comparison op)) (exists_lexes_atom hquote)
    refine ⟨ts ++ (os ++ [t]), ?_, hts.relation (.comparison op) hleads
      (fun rest => ho _ (.of_standsFor ht rest)) fun rest _ => ⟨0, .value ht.value⟩⟩
    simpa [bareText, Operator.spelling, Relation.spelling] using hwhole
  | @negatedComparison op left q _ hleads _ hexpr ihl ihq =>
    obtain ⟨ts, hlex, hts⟩ := ihl k
    have hnegated (k : Nat) : ∃ us, Lexes k (Filter.negation q).bareText.toList us ∧
        ∃ ns vs, us = ns ++ vs ∧ (∀ rest, Spelled .negation (ns ++ rest) rest) ∧
          ReadsAlone q vs := by
      obtain ⟨ns, hns, hn⟩ := exists_lexes_spelling .negation k
      obtain ⟨vs, hvs, hq⟩ := ihq (k + utf8Length Operator.negation.spelling.toList + 1)
      exact ⟨ns ++ vs, by simpa [bareText] using hns.spaced hvs, ns, vs, rfl,
        fun rest => hn rest (.of_word rfl rest), hq⟩
    obtain ⟨os, us, hwhole, ho, ns, vs, rfl, hn, hq⟩ :=
      exists_lexes_infix hlex (.relation (.comparison op)) hnegated
    refine ⟨ts ++ (os ++ (ns ++ vs)), ?_,
      hts.relation (.comparison op) hleads (fun rest => ho _ ?_) fun rest hrest => ?_⟩
    · simpa [bareText, Operator.spelling, Relation.spelling] using hwhole
    · obtain ⟨u, hu, hword⟩ := ParseState.eq_word_of_spelled_negation (hn (vs ++ rest))
      rw [List.append_assoc, hu]
      exact fun _ => by simp [hword]
    · obtain ⟨n, hn'⟩ := hq.expression hexpr rest hrest
      rw [List.append_assoc]
      exact ⟨n + 1, .negatedOperand (hn _) hn'⟩
  | membership _ hleads hquote ih =>
    obtain ⟨ts, hlex, hts⟩ := ih k
    obtain ⟨os, us, hwhole, ho, hus⟩ := exists_lexes_infix hlex (.relation .membership)
      (exists_lexes_list hquote)
    refine ⟨_, ?_, hts.relation .membership hleads (fun rest => ho _ (.of_word rfl _))
      fun rest _ => hus rest⟩
    simpa [bareText, definition, definitions, commaSeparated, Operator.spelling] using hwhole
  | @connection op left right _ hleads _ hexpr ihl ihr =>
    obtain ⟨ts, hlex, hts⟩ := ihl k
    obtain ⟨os, us, hwhole, ho, hus⟩ := exists_lexes_infix hlex (.connective op) ihr
    refine ⟨_, ?_, hts.connection op hleads (fun rest => ho rest (.of_word rfl rest)) hus hexpr⟩
    simpa [bareText, Operator.spelling] using hwhole

theorem Readable.parse_bareText {q : Filter} (h : q.Readable) :
    ∃ ts, Lexes 0 q.bareText.toList ts ∧ ∀ c : Config, c.numbers = .verbatim →
      ts.length ≤ c.maxDepth → parse c q.bareText = .ok (some q) := by
  obtain ⟨ts, hlex, hts⟩ := h.readsAlone 0
  refine ⟨ts, hlex, fun c hc hdepth => parse_eq_ok_some_iff.mpr ⟨ts, hlex, ?_⟩⟩
  obtain ⟨n, hn⟩ := hts.chain [] (.inl closes_nil)
  rw [List.append_nil] at hn
  rw [hc]
  exact hn.of_length_le (by simp only [List.length_nil]; omega)

end Filter

end FilterLang
