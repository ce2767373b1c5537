import FilterLang.Filter.Build
import FilterLang.Proofs.Rereading

/-! A filter without negations is written with the parentheses that it was read with:
`parse_definition_of_unnegated`. A chain goes on only after a finished comparison, and a right operand
starts with a primary, so no operand needs a group. The definition then nests like the text that was
read, but for a single value right of `IN`, which is written as a list and nests one level more. -/

namespace FilterLang

namespace Filter

/-- There is no negation, and no comparison with a list. -/
def Unnegated (q : Filter) : Prop :=
  ∀ x, IsNode x q → (∀ y, x ≠ negation y) ∧ ∀ op left texts, x ≠ comparison op left (values texts)

theorem unnegated_of_operands {q : Filter}
    (hroot : (∀ y, q ≠ negation y) ∧ ∀ op left texts, q ≠ comparison op left (values texts))
    (h : ∀ y ∈ q.operands, y.Unnegated) : q.Unnegated := by
  intro x hx
  cases hx with
  | root => exact hroot
  | child hx hy => exact h _ hy x hx

/-- Right of each `IN` stands a list. -/
def ListsMembers (q : Filter) : Prop :=
  ∀ field among, IsNode (membership field among) q → ∃ texts, among = [values texts]

/-- The tree as its definition tells it: a number is a value anywhere, and a list stands right
of `IN`. -/
def respelled : Filter → Filter
  | name text => fieldLeaf text
  | group inner => group inner.respelled
  | negation operand => negation operand.respelled
  | comparison op left right => comparison op left.respelled right.respelled
  | membership field among => membership field.respelled (listed among)
  | connection op left right => connection op left.respelled right.respelled
  | q => q

theorem isPrimary_respelled (q : Filter) : q.respelled.isPrimary = q.isPrimary := by
  cases q with
  | name => exact fieldLeaf_ind (P := (·.isPrimary = true)) rfl rfl
  | _ => rfl

theorem isGroup_respelled (q : Filter) : q.respelled.isGroup = q.isGroup := by
  cases q with
  | name => exact fieldLeaf_ind (P := (·.isGroup = false)) rfl rfl
  | _ => rfl

theorem rightNeedsGroup_respelled (q : Filter) :
    q.respelled.rightNeedsGroup = q.rightNeedsGroup := by
  cases q with
  | name => exact fieldLeaf_ind (P := (·.rightNeedsGroup = false)) rfl rfl
  | connection op left right => rw [respelled, rightNeedsGroup, rightNeedsGroup, isPrimary_respelled]
  | _ => rfl

theorem endsWithComparison_respelled : ∀ q : Filter,
    q.respelled.endsWithComparison = q.endsWithComparison
  | name _ => fieldLeaf_ind (P := (·.endsWithComparison = false)) rfl rfl
  | connection op left right => by
    rw [respelled, endsWithComparison, endsWithComparison, rightNeedsGroup_respelled,
      endsWithComparison_respelled right]
  | value _ | values _ | group _ | negation _ | comparison _ _ _ | membership _ _ => rfl

theorem leftNeedsGroup_respelled (q : Filter) : q.respelled.leftNeedsGroup = q.leftNeedsGroup := by
  cases q with
  | name => exact fieldLeaf_ind (P := (·.leftNeedsGroup = false)) rfl rfl
  | connection op left right =>
    exact congrArg Bool.not (endsWithComparison_respelled (connection op left right))
  | _ => rfl

theorem definitions_listed (among : List Filter) : definitions (listed among) = definitions among := by
  unfold listed
  split <;> rfl

theorem definition_respelled : ∀ q : Filter, q.respelled.definition = q.definition
  | name text => fieldLeaf_ind (P := (·.definition = atom text)) rfl rfl
  | group inner => by rw [respelled, definition, definition, definition_respelled inner]
  | negation operand => by
    rw [respelled, definition, definition, isGroup_respelled, definition_respelled operand]
  | comparison op left right => by
    rw [respelled, definition, definition, definition_respelled left, definition_respelled right]
  | membership field among => by
    rw [respelled, definition, definition, definition_respelled field, definitions_listed]
  | connection op left right => by
    rw [respelled, definition, definition, leftNeedsGroup_respelled, rightNeedsGroup_respelled,
      definition_respelled left, definition_respelled right]
  | value _ | values _ => rfl

/-- What is asked of a node, so that `b` levels more are enough. -/
structure Fits (b : Nat) (x : Filter) : Prop where
  ne_negation (y) : x ≠ negation y
  ne_listed (op left texts) : x ≠ comparison op left (values texts)
  lists (field among) : b = 0 → x = membership field among → ∃ texts, among = [values texts]

def FitsAll (b : Nat) (q : Filter) : Prop := ∀ x, IsNode x q → Fits b x

theorem FitsAll.operand {b : Nat} {q y : Filter} (h : FitsAll b q) (hy : y ∈ q.operands) :
    FitsAll b y := fun x hx => h x (hx.child hy)

theorem FitsAll.root {b : Nat} {q : Filter} (h : FitsAll b q) : Fits b q := h q .root

/-- The text of a right operand. -/
def rightText : Relation → Filter → String
  | .comparison _, right => right.definition
  | .membership, right => parenthesized right.definition

def respelledRight : Relation → Filter → Filter
  | .comparison _, right => right.respelled
  | .membership, value text => values [text]
  | .membership, right => right

theorem definition_apply (r : Relation) (left right : Filter) :
    (r.apply left right).definition = left.definition ++ " " ++ (Operator.relation r).spelling ++
      " " ++ rightText r right := by
  cases r <;> rfl

theorem respelled_apply (r : Relation) (left right : Filter) :
    (r.apply left right).respelled = r.apply left.respelled (respelledRight r right) := by
  cases r with
  | comparison op => rfl
  | membership => cases right <;> rfl

theorem endsWithComparison_apply (r : Relation) (left right : Filter) :
    (r.apply left right).endsWithComparison = true := by
  cases r <;> rfl

theorem definition_connection {op : Connective} {left right : Filter}
    (hl : left.leftNeedsGroup = false) (hr : right.rightNeedsGroup = false) :
    (connection op left right).definition =
      left.definition ++ " " ++ (Operator.connective op).spelling ++ " " ++ right.definition := by
  rw [definition, hl, hr]
  rfl

end Filter

/-- Wherever the text stands, its tokens are the phrase, before a rest of some kind. -/
def TextReads (p : Phrase) (n : Nat) (text : String) (q : Filter) (C : List Token → Prop) : Prop :=
  ∀ k, ∃ ts, Lexes k text.toList ts ∧ ∀ rest, C rest → Derives .verbatim p n (ts ++ rest) q rest

/-- The text is read as the right operand of the relation. -/
def RightReads (r : Relation) (n : Nat) (text : String) (right : Filter) : Prop :=
  ∀ k, ∃ ts, Lexes k text.toList ts ∧ ∀ rest, (Operator.relation r).EndsBefore (ts ++ rest) ∧
    Derives .verbatim .operand n (ts ++ rest) right rest

/-- The text of a chain so far is read as the start of one, before some tails. -/
def Begins (m n : Nat) (text : String) (left : Filter) (C : List Token → Prop) : Prop :=
  ∀ k, ∃ ts, Lexes k text.toList ts ∧ ∀ mid q rest, C mid →
    Derives .verbatim (.tails left) n mid q rest → Derives .verbatim .chain m (ts ++ mid) q rest

theorem Spelled.not_closes {o : Operator} {ts rest : List Token} (h : Spelled o ts rest) :
    ¬ Closes ts := by
  cases h with
  | word _ ht => simp [closes_cons, ht]
  | symbols _ _ hrun =>
    obtain ⟨t, ts, ch, _, rfl, -, ht⟩ := hrun.exists_cons
    simp [closes_cons, ht]

section

variable {m n : Nat} {text rtext : String} {left right q : Filter} {C C' : List Token → Prop}

theorem TextReads.connection {op : Connective}
    (hl : TextReads .primary (n + 1) text left fun _ => True)
    (hr : TextReads .expression n rtext right C) :
    TextReads .expression (n + 1) (text ++ " " ++ (Operator.connective op).spelling ++ " " ++ rtext)
      (.connection op left right) C := by
  intro k
  obtain ⟨ts, hlex, hts⟩ := hl k
  obtain ⟨os, us, hwhole, ho, hus⟩ := exists_lexes_infix hlex (.connective op) hr
  refine ⟨_, by simpa using hwhole, fun rest hrest => ?_⟩
  rw [List.append_assoc, List.append_assoc]
  exact .connection (hts _ trivial) (ho _ (.of_word rfl _)) (hus rest hrest)

theorem TextReads.relation {r : Relation}
    (hl : TextReads .primary n text left fun _ => True) (hr : RightReads r n rtext right) :
    TextReads .expression n (text ++ " " ++ (Operator.relation r).spelling ++ " " ++ rtext)
      (r.apply left right) C := by
  intro k
  obtain ⟨ts, hlex, hts⟩ := hl k
  obtain ⟨os, us, hwhole, ho, hus⟩ := exists_lexes_infix hlex (.relation r) hr
  refine ⟨_, by simpa using hwhole, fun rest _ => ?_⟩
  rw [List.append_assoc, List.append_assoc]
  exact .relation (hts _ trivial) (ho _ (hus rest).1) (hus rest).2

theorem TextReads.alone (h : TextReads .primary n text q fun _ => True)
    (hC : ∀ rest, C rest → Closes rest) : TextReads .expression n text q C := by
  intro k
  obtain ⟨ts, hlex, hts⟩ := h k
  exact ⟨ts, hlex, fun rest hrest => .alone (hts rest trivial) (hC rest hrest)⟩

theorem TextReads.group (h : TextReads .chain n text q C) (hC : ∀ rest, Closes rest → C rest) :
    TextReads .primary (n + 1) (Filter.parenthesized text) (.group q) fun _ => True := by
  intro k
  obtain ⟨ts, hlex, hts⟩ := h (k + 1)
  obtain ⟨t, u, ht, hu, hwhole⟩ := hlex.parenthesized
  refine ⟨_, by simpa [Filter.parenthesized] using hwhole, fun rest _ => ?_⟩
  have hchain := hts (u :: rest) (hC _ (closes_cons.mpr hu))
  simpa using Derives.group ht hchain hu

theorem TextReads.begins (h : TextReads .expression n text q C) : Begins n n text q C := by
  intro k
  obtain ⟨ts, hlex, hts⟩ := h k
  exact ⟨ts, hlex, fun mid q' rest hmid htails => .chain (hts mid hmid) htails⟩

theorem Begins.textReads (h : Begins m n text q C) : TextReads .chain m text q C := by
  intro k
  obtain ⟨ts, hlex, hts⟩ := h k
  exact ⟨ts, hlex, fun rest hrest => hts rest q rest hrest .noTail⟩

theorem Begins.connectionTail {op : Connective} (hl : Begins m (n + 2) text left C)
    (hC : ∀ mid, ¬ Closes mid → C mid) (hr : TextReads .expression n rtext right C') :
    Begins m (n + 1) (text ++ " " ++ (Operator.connective op).spelling ++ " " ++ rtext)
      (.connection op left right) C' := by
  intro k
  obtain ⟨ts, hlex, hts⟩ := hl k
  obtain ⟨os, us, hwhole, ho, hus⟩ := exists_lexes_infix hlex (.connective op) hr
  refine ⟨_, by simpa using hwhole, fun mid q rest hmid htails => ?_⟩
  have hspelled := ho (us ++ mid) (.of_word rfl _)
  rw [List.append_assoc, List.append_assoc]
  exact hts _ _ _ (hC _ hspelled.not_closes) (.connectionTail hspelled (hus mid hmid) htails)

theorem Begins.relationTail {r : Relation} (hl : Begins m (n + 1) text left C)
    (hC : ∀ mid, ¬ Closes mid → C mid) (hr : RightReads r n rtext right) :
    Begins m n (text ++ " " ++ (Operator.relation r).spelling ++ " " ++ rtext)
      (r.apply left right) C' := by
  intro k
  obtain ⟨ts, hlex, hts⟩ := hl k
  obtain ⟨os, us, hwhole, ho, hus⟩ := exists_lexes_infix hlex (.relation r) hr
  refine ⟨_, by simpa using hwhole, fun mid q rest _ htails => ?_⟩
  have hspelled := ho (us ++ mid) (hus mid).1
  rw [List.append_assoc, List.append_assoc]
  exact hts _ _ _ (hC _ hspelled.not_closes) (.relationTail hspelled (hus mid).2 htails)

end

theorem rightReads_value {text : String} (h : Quotable text) (op : Comparison) (n : Nat) :
    RightReads (.comparison op) n (Filter.atom text) (.value text) := by
  intro k
  obtain ⟨_, hlex, t, rfl, ht⟩ := exists_lexes_atom h k
  exact ⟨[t], hlex, fun rest => ⟨.of_standsFor ht rest, .value ht.value⟩⟩

theorem rightReads_values {texts : List String} (h : ∀ text ∈ texts, Quotable text) {n : Nat}
    (hn : 1 ≤ n) : RightReads .membership n
      (Filter.parenthesized (Filter.commaSeparated (texts.map Filter.atom))) (.values texts) := by
  intro k
  obtain ⟨ts, hlex, hts⟩ := exists_lexes_values h k
  exact ⟨ts, hlex, fun rest => ⟨.of_word rfl _, (hts rest).mono hn⟩⟩

theorem textReads_leaf {text : String} (h : Quotable text) (n : Nat) :
    TextReads .primary n (Filter.atom text) (Filter.fieldLeaf text) fun _ => True := by
  intro k
  obtain ⟨t, hlex, -, ht⟩ := exists_lexes_leaf h k
  exact ⟨[t], hlex, fun rest _ => .field ht⟩

/-- A token in the place of a field is a leaf, and its text is read as the leaf that it is
respelled as. -/
theorem textReads_of_field? {k : TokenKind} {q : Filter} (hk : k.Scanned)
    (h : k.field? .verbatim = some q) (n : Nat) : q.isPrimary = true ∧
      TextReads .primary n q.definition q.respelled fun _ => True := by
  cases k with
  | word text =>
    simp only [TokenKind.field?, TokenKind.leaf?] at h
    split_ifs at h
    cases h
    exact ⟨rfl, textReads_leaf hk n⟩
  | quoted d text =>
    cases h
    exact ⟨rfl, textReads_leaf hk n⟩
  | number text x =>
    cases h
    have hread := textReads_leaf (quotable_of_isWordChar hk.isWordChar) n
    rw [Filter.fieldLeaf_of_number hk] at hread
    exact ⟨rfl, hread⟩
  | openParen | closeParen | comma | symbol | endOfInput => cases h

open FilterLang.Filter

/-- What the derivation of a phrase says about the definition of its tree, where `b` levels more may
be needed. -/
def Phrase.Rewrites (b : Nat) : Phrase → Nat → List Token → Filter → List Token → Prop
  | chain, n, _, q, rest => FitsAll b q →
      TextReads .chain (n + b) q.definition q.respelled fun rest' => Closes rest → Closes rest'
  | tails left, n, ts, q, rest => FitsAll b q → FitsAll b left ∧ ∀ m,
      Begins m (n + b) left.definition left.respelled (fun mid => Closes ts → Closes mid) →
      (¬ Closes ts → left.endsWithComparison = true) →
      TextReads .chain m q.definition q.respelled fun rest' => Closes rest → Closes rest'
  | expression, n, _, q, rest => FitsAll b q → q.rightNeedsGroup = false ∧
      (¬ Closes rest → q.endsWithComparison = true) ∧
      TextReads .expression (n + b) q.definition q.respelled fun rest' =>
        Closes rest → Closes rest'
  | primary, n, _, q, _ => FitsAll b q → q.isPrimary = true ∧
      TextReads .primary (n + b) q.definition q.respelled fun _ => True
  | operand, n, _, q, _ => ∀ (r : Relation) (left : Filter), FitsAll b (r.apply left q) →
      RightReads r (n + b) (rightText r q) (respelledRight r q)

theorem mem_operands_left (r : Relation) (left right : Filter) :
    left ∈ (r.apply left right).operands := by
  cases r <;> simp [Relation.apply, operands]

theorem mem_operands_right (r : Relation) (left right : Filter) :
    right ∈ (r.apply left right).operands := by
  cases r <;> simp [Relation.apply, operands]

/-- A list nests one level, so a single value right of `IN` needs one more than it did. -/
theorem rightReads_of_data {b n : Nat} {r : Relation} {left right : Filter} (hdata : right.Data)
    (h : Fits b (r.apply left right)) (hn : ∀ texts, right = values texts → 1 ≤ n) :
    RightReads r (n + b) (rightText r right) (respelledRight r right) := by
  cases r with
  | comparison op =>
    cases hdata with
    | value hquote => exact rightReads_value hquote op _
    | values => exact absurd rfl (h.ne_listed _ _ _)
  | membership =>
    cases hdata with
    | @value text hquote =>
      have hb : b ≠ 0 := fun hb => by
        obtain ⟨texts, htexts⟩ := h.lists _ _ hb rfl
        cases htexts
      have hquote' : ∀ text' ∈ [text], Quotable text' := by simpa using hquote
      exact rightReads_values hquote' (by omega)
    | values hquote => exact rightReads_values hquote (Nat.le_add_right_of_le (hn _ rfl))

theorem Derives.rewrites {b : Nat} {p : Phrase} {n : Nat} {ts rest : List Token} {q : Filter}
    (h : Derives .verbatim p n ts q rest) (hts : ∀ t ∈ ts, t.kind.Scanned) :
    p.Rewrites b n ts q rest := by
  induction h with
  | chain hleft _ ih ih' =>
    intro hq
    obtain ⟨hfits, htails⟩ := ih' (scanned_of_suffix hts hleft.suffix) hq
    obtain ⟨-, hends, hread⟩ := ih hts hfits
    exact htails _ hread.begins hends
  | noTail => exact fun hq => ⟨hq, fun m hbegins _ => hbegins.textReads⟩
  | @connectionTail n op ts mid mid' rest left right q ho hright _ ih ih' =>
    intro hq
    have hmid := scanned_of_suffix hts ho.suffix
    obtain ⟨hfits, htails⟩ := ih' (scanned_of_suffix hmid hright.suffix) hq
    obtain ⟨hneeds, hends, hread⟩ := ih hmid (hfits.operand (by simp [operands]))
    refine ⟨hfits.operand (by simp [operands]), fun m hbegins hleft => htails m ?_ ?_⟩
    · have hneeds' := leftNeedsGroup_eq_false (.inr (hleft ho.not_closes))
      rw [Nat.add_right_comm] at hbegins ⊢
      rw [definition_connection hneeds' hneeds]
      exact hbegins.connectionTail (fun _ _ hclose => absurd hclose ho.not_closes) hread
    · intro hmid'
      simp [endsWithComparison, hneeds, hends hmid']
  | @relationTail n r ts mid mid' rest left right q ho hright _ ih ih' =>
    intro hq
    have hmid := scanned_of_suffix hts ho.suffix
    obtain ⟨hfits, htails⟩ := ih' (scanned_of_suffix hmid hright.suffix) hq
    refine ⟨hfits.operand (mem_operands_left r left right), fun m hbegins _ => htails m ?_
      fun _ => endsWithComparison_apply r left right⟩
    rw [Nat.add_right_comm] at hbegins
    rw [definition_apply, respelled_apply]
    exact hbegins.relationTail (fun _ _ hclose => absurd hclose ho.not_closes) (ih hmid r left hfits)
  | negationTail ho _ ih =>
    intro hq
    exact absurd rfl ((ih (scanned_of_suffix hts ho.suffix) hq).1.root.ne_negation _)
  | @connection n op ts mid mid' rest left right hleft ho hright ih ih' =>
    intro hq
    obtain ⟨hprimary, hread⟩ := ih hts (hq.operand (by simp [operands]))
    obtain ⟨hneeds, hends, hread'⟩ :=
      ih' (scanned_of_suffix hts (ho.suffix.trans hleft.suffix)) (hq.operand (by simp [operands]))
    refine ⟨by simp [rightNeedsGroup, hprimary], fun hrest => ?_, ?_⟩
    · simp [endsWithComparison, hneeds, hends hrest]
    · rw [definition_connection (leftNeedsGroup_eq_false (.inl hprimary)) hneeds]
      rw [Nat.add_right_comm] at hread ⊢
      exact hread.connection hread'
  | @relation n r ts mid mid' rest left right hleft ho hright ih ih' =>
    intro hq
    obtain ⟨-, hread⟩ := ih hts (hq.operand (mem_operands_left r left right))
    have hread' := ih' (scanned_of_suffix hts (ho.suffix.trans hleft.suffix)) r left hq
    refine ⟨by cases r <;> rfl, fun _ => endsWithComparison_apply r left right, ?_⟩
    rw [definition_apply, respelled_apply]
    exact hread.relation hread'
  | negationAfter _ _ ih => exact fun hq => absurd rfl (hq.root.ne_negation _)
  | @alone n ts rest q _ hclose ih =>
    intro hq
    obtain ⟨hprimary, hread⟩ := ih hts hq
    refine ⟨?_, fun hrest => absurd hclose hrest, hread.alone fun _ hrest => hrest hclose⟩
    cases q <;> first | rfl | cases hprimary
  | group ht _ hu ih =>
    intro hq
    have hread := ih (scanned_of_suffix hts (List.suffix_cons _ _)) (hq.operand (by simp [operands]))
    refine ⟨rfl, ?_⟩
    rw [Nat.add_right_comm]
    exact hread.group fun _ hrest _ => hrest
  | negation ho _ ih => exact fun hq => absurd rfl (hq.root.ne_negation _)
  | field ht => exact fun _ => textReads_of_field? (hts _ (by simp)) ht _
  | list _ _ _ =>
    refine fun r left hq => rightReads_of_data (.values fun text htext => ?_) hq.root (by simp)
    obtain ⟨e, he, htext⟩ := List.mem_filterMap.mp htext
    exact quotable_of_element? (hts e (by simp [he])) htext
  | negatedOperand ho _ ih =>
    intro r left hq
    exact absurd rfl ((hq.operand (mem_operands_right r left _)).root.ne_negation _)
  | value ht =>
    intro r left hq
    have hdata := data_of_value? (hts _ (by simp)) ht
    obtain ⟨text, htext⟩ := TokenKind.eq_of_leaf? ht
    refine rightReads_of_data hdata hq.root fun texts htexts => ?_
    rcases htext with rfl | rfl <;> cases htexts

/-- The definition of a tree that was read is read with `b` levels more. -/
theorem parse_respelled {c c' : Config} {f : String} {q : Filter} {b : Nat}
    (hc : c.numbers = .verbatim) (h : Filter.parse c f = .ok (some q)) (hq : FitsAll b q)
    (hc' : c'.numbers = .verbatim) (hdepth : c'.maxDepth = c.maxDepth + b) :
    Filter.parse c' q.definition = .ok (some q.respelled) := by
  obtain ⟨ts, hlex, hder⟩ := parse_eq_ok_some_iff.mp h
  rw [hc] at hder
  obtain ⟨us, hus, hread⟩ := hder.rewrites hlex.scanned hq 0
  have hwhole := hread [] id
  rw [List.append_nil, ← hdepth] at hwhole
  exact parse_eq_ok_some_iff.mpr ⟨us, hus, hc' ▸ hwhole⟩

/-- Without negations, and comparisons with lists, the definition of a tree that was read is read as
the tree that it spells, one level more being enough; where lists stand right of each `IN`, no more
are needed. That tree has the same definition. -/
theorem parse_definition_of_unnegated {c : Config} {f : String} {q : Filter}
    (hc : c.numbers = .verbatim) (h : Filter.parse c f = .ok (some q)) (hq : q.Unnegated) :
    Filter.parse { c with maxDepth := c.maxDepth + 1 } q.definition = .ok (some q.respelled) ∧
      q.respelled.definition = q.definition ∧
      (q.ListsMembers → Filter.parse c q.definition = .ok (some q.respelled)) := by
  have hfits {b : Nat} (hlists : b = 0 → q.ListsMembers) : FitsAll b q := fun x hx =>
    ⟨(hq x hx).1, (hq x hx).2, fun field among hb hxq => hlists hb field among (hxq ▸ hx)⟩
  refine ⟨?_, definition_respelled q, fun hlists => ?_⟩
  · exact parse_respelled hc h (hfits (b := 1) (by simp)) hc rfl
  · exact parse_respelled hc h (hfits (b := 0) fun _ => hlists) hc rfl

/-- A name that reads as a number comes back as one, and the value in parentheses. -/
theorem parse_definition_of_unnegated_membership :
    let c : Config := { maxDepth := 0 }
    let q : Filter := .membership (.name "5") [.value "1"]
    Filter.parse c "'5' IN 1" = .ok (some q) ∧ q.Unnegated ∧ q.definition = "5 IN (1)" ∧
      Filter.parse { c with maxDepth := 1 } q.definition =
        .ok (some (.membership (.value "5") [.values ["1"]])) := by
  intro c q
  have hparse : Filter.parse c "'5' IN 1" = .ok (some q) := by rfl
  have leaf {q : Filter} (hroot : (∀ y, q ≠ negation y) ∧
      ∀ op left texts, q ≠ comparison op left (values texts)) (h : q.operands = []) :
      q.Unnegated := unnegated_of_operands hroot (by simp [h])
  have hq : q.Unnegated := unnegated_of_operands ⟨nofun, nofun⟩ (List.forall_mem_cons.mpr
    ⟨leaf ⟨nofun, nofun⟩ rfl, List.forall_mem_singleton.mpr (leaf ⟨nofun, nofun⟩ rfl)⟩)
  have hnumber : LexesAsNumber "5" := lexesAsNumber_iff.mpr ⟨List.all_eq_true.mp (by decide), by rfl⟩
  have hrespelled : q.respelled = .membership (.value "5") [.values ["1"]] := by
    simp only [q, respelled, fieldLeaf_of_number hnumber, listed]
  exact ⟨hparse, hq, by rfl, hrespelled ▸ (parse_definition_of_unnegated rfl hparse hq).1⟩

end FilterLang
