import FilterLang.Proofs.Rereading
import Mathlib.Tactic.Tauto

/-! Which trees the parser leaves with a definition that no tree is read from:
`hasLegibleOperands_of_parse`. Without parentheses a list right of a comparison is read as its first
element, so there must be just one; and what is in the parentheses after `IN` is a list, so it cannot
be a negation. Whether a tree is legible can be told from the lexemes of its definition, so another
tree with the same definition is legible just if this one is. -/

namespace FilterLang

theorem Operator.spelling_inj {o o' : Operator} : o.spelling = o'.spelling ↔ o = o' := by
  refine ⟨fun h => ?_, congrArg _⟩
  have hlookup := Operator.lookup_spelling o
  rw [h, Operator.lookup_spelling] at hlookup
  exact (Option.some.inj hlookup).symm

namespace Lexeme

/-- What holds right of each relation. -/
def RightOfRelations (P : Relation → List Lexeme → Prop) : List Lexeme → Prop
  | [] => True
  | l :: ls => (∀ r : Relation, l = operator (Operator.relation r).spelling → P r ls) ∧
      RightOfRelations P ls

/-- A parenthesis opens right of `IN`, and of no comparison. -/
def Bracketed (r : Relation) (ls : List Lexeme) : Prop :=
  ls.head? = some openParen ↔ r = .membership

/-- A comparison is with one value or with a negation, and there is no negation in the parentheses
after `IN`. -/
def Operable : Relation → List Lexeme → Prop
  | .comparison _, atom _ :: ls => ls.head? ≠ some comma
  | .comparison _, ls => ls.head? = some (operator Operator.negation.spelling)
  | .membership, ls => ls.tail.head? ≠ some (operator Operator.negation.spelling)

/-- Some lexemes that may come after those of a tree. -/
def Follow (ls : List Lexeme) : Prop :=
  ∀ l ∈ ls.head?, l = closeParen ∨ ∃ o : Operator, o ≠ .negation ∧ l = operator o.spelling

variable {P : Relation → List Lexeme → Prop}

theorem rightOfRelations_operator {o : Operator} {ls : List Lexeme} :
    RightOfRelations P (operator o.spelling :: ls) ↔
      (∀ r, o = .relation r → P r ls) ∧ RightOfRelations P ls := by
  simp only [RightOfRelations, operator.injEq, Operator.spelling_inj]

theorem rightOfRelations_relation {r : Relation} {ls : List Lexeme} :
    RightOfRelations P (operator (Operator.relation r).spelling :: ls) ↔
      P r ls ∧ RightOfRelations P ls := by
  simp [rightOfRelations_operator]

theorem rightOfRelations_cons {l : Lexeme} {ls : List Lexeme} (h : ∀ s, l ≠ operator s) :
    RightOfRelations P (l :: ls) ↔ RightOfRelations P ls := by
  simp [RightOfRelations, h]

theorem rightOfRelations_append {ls ms : List Lexeme} (h : ∀ l ∈ ls, ∀ s, l ≠ operator s) :
    RightOfRelations P (ls ++ ms) ↔ RightOfRelations P ms := by
  induction ls with
  | nil => rfl
  | cons l ls ih =>
    rw [List.cons_append, rightOfRelations_cons (h l (by simp)),
      ih fun m hm => h m (by simp [hm])]

theorem rightOfRelations_connective {op : Connective} {ls : List Lexeme} :
    RightOfRelations P (operator op.spelling :: ls) ↔ RightOfRelations P ls :=
  (rightOfRelations_operator (o := .connective op)).trans (by simp)

theorem follow_operator {o : Operator} (h : o ≠ .negation) (ls : List Lexeme) :
    Follow (operator o.spelling :: ls) := by
  simpa [Follow] using ⟨o, h, rfl⟩

theorem follow_connective (op : Connective) (ls : List Lexeme) :
    Follow (operator op.spelling :: ls) := follow_operator (o := .connective op) (by simp) ls

theorem follow_closeParen (ls : List Lexeme) : Follow (closeParen :: ls) := by
  simp [Follow]

theorem Follow.head?_ne {ls : List Lexeme} (h : Follow ls) {l : Lexeme} (hl : l ≠ closeParen)
    (ho : ∀ o : Operator, o ≠ .negation → l ≠ operator o.spelling) : ls.head? ≠ some l := by
  intro hhead
  rcases h l hhead with h | ⟨o, hne, h⟩
  · exact hl h
  · exact ho o hne h

theorem Follow.operable_comparison {ls : List Lexeme} (h : Follow ls) (op : Comparison) :
    ¬ Operable (.comparison op) ls := by
  have hatom (text : String) : ls.head? ≠ some (atom text) := h.head?_ne (by simp) (by simp)
  have hnot : ls.head? ≠ some (operator Operator.negation.spelling) :=
    h.head?_ne (by simp) fun o ho heq => ho (Operator.spelling_inj.mp (operator.inj heq)).symm
  unfold Operable
  split
  · next _ text _ _ => exact absurd rfl (hatom text)
  · exact hnot
  · contradiction

end Lexeme

open Lexeme

namespace Filter

/-- A list of values holds just one of them. -/
def holdsOne : Filter → Bool
  | values texts => texts.length == 1
  | _ => true

def isNegation : Filter → Bool
  | negation _ => true
  | _ => false

/-- No comparison is with a list of no values or of two and more, and no negation stands right of
`IN`. -/
def hasLegibleOperands : Filter → Bool
  | group inner => inner.hasLegibleOperands
  | negation operand => operand.hasLegibleOperands
  | comparison _ left right => left.hasLegibleOperands && right.holdsOne && right.hasLegibleOperands
  | membership field among => field.hasLegibleOperands && among.all (!·.isNegation)
  | connection _ left right => left.hasLegibleOperands && right.hasLegibleOperands
  | _ => true

theorem Grammatical.legible {q : Filter} (h : q.Grammatical) (hq : q.hasLegibleOperands = true) :
    q.Legible := by
  induction h with
  | name hquote => exact .name hquote
  | number hnumber => exact .number hnumber
  | group _ ih => exact .group (ih hq)
  | negation _ ih => exact .negation (ih hq)
  | relation r _ hdata ih =>
    cases r with
    | comparison op =>
      simp only [Relation.apply, hasLegibleOperands, Bool.and_eq_true] at hq
      cases hdata with
      | value hquote => exact .comparison (ih hq.1.1) hquote
      | @values texts hquote =>
        obtain ⟨text, rfl⟩ := List.length_eq_one_iff.mp (beq_iff_eq.mp hq.1.2)
        exact .listedComparison (ih hq.1.1) (hquote text (by simp))
    | membership =>
      simp only [Relation.apply, hasLegibleOperands, Bool.and_eq_true] at hq
      cases hdata with
      | value hquote => exact .bareMembership (ih hq.1) hquote
      | values hquote => exact .membership (ih hq.1) hquote
  | negatedRelation r _ _ ihl ihq =>
    cases r with
    | comparison op =>
      simp only [Relation.apply, hasLegibleOperands, Bool.and_eq_true] at hq
      exact .negatedComparison (ihl hq.1.1) (ihq hq.2)
    | membership => simp [Relation.apply, hasLegibleOperands, isNegation] at hq
  | connection op _ _ ihl ihr =>
    simp only [hasLegibleOperands, Bool.and_eq_true] at hq
    exact .connection (ihl hq.1) (ihr hq.2)

theorem lexemes_apply (r : Relation) (left right : Filter) :
    (r.apply left right).lexemes = left.lexemes ++ .operator (Operator.relation r).spelling ::
      parenthesizedIf (r = .membership) right.lexemes := by
  cases r <;> rfl

theorem ne_operator_of_mem_commaSeparated {texts : List String} {l : Lexeme}
    (h : l ∈ Lexeme.commaSeparated (texts.map ([.atom ·]))) (s : String) : l ≠ .operator s := by
  induction texts with
  | nil => simp [Lexeme.commaSeparated] at h
  | cons text texts ih =>
    cases texts with
    | nil => simp_all [Lexeme.commaSeparated]
    | cons text' texts =>
      simp only [List.map_cons, Lexeme.commaSeparated, List.cons_append, List.nil_append,
        List.mem_cons] at h
      rcases h with rfl | rfl | h
      · simp
      · simp
      · exact ih h

theorem Data.ne_operator {q : Filter} (h : q.Data) : ∀ l ∈ q.lexemes, ∀ s, l ≠ .operator s := by
  cases h with
  | value => simp [Filter.lexemes]
  | values => exact fun l hl => ne_operator_of_mem_commaSeparated hl

/-- `F` puts together for a tree what `P` says right of the relations in its definition. -/
structure Gathers (P : Relation → List Lexeme → Prop) (F : Filter → Prop) : Prop where
  name (text) : F (name text)
  number (text) : F (value text)
  group (q) : F (group q) ↔ F q
  negation (q) : F (negation q) ↔ F q
  relation {left right rest} (r : Relation) : right.Data → Follow rest →
    (F (r.apply left right) ↔
      F left ∧ P r (parenthesizedIf (r = .membership) right.lexemes ++ rest))
  negatedRelation {left q rest} (r : Relation) :
    (F (r.apply left (.negation q)) ↔
      F left ∧ F q ∧ P r (parenthesizedIf (r = .membership) (Filter.negation q).lexemes ++ rest))
  connection (op left right) : F (connection op left right) ↔ F left ∧ F right

section

variable {P : Relation → List Lexeme → Prop} {F : Filter → Prop}

theorem rightOfRelations_parenthesizedIf {ls : List Lexeme} {A : Prop} (b : Bool)
    (h : ∀ {rest}, Follow rest → (RightOfRelations P (ls ++ rest) ↔ A ∧ RightOfRelations P rest))
    {rest : List Lexeme} (hrest : Follow rest) :
    RightOfRelations P (parenthesizedIf b ls ++ rest) ↔ A ∧ RightOfRelations P rest := by
  cases b with
  | false => exact h hrest
  | true =>
    have hclose := h (follow_closeParen rest)
    rw [rightOfRelations_cons (by simp)] at hclose
    simpa [parenthesizedIf, Lexeme.parenthesized, rightOfRelations_cons] using hclose

theorem rightOfRelations_negation {q : Filter} {A : Prop}
    (h : ∀ {rest}, Follow rest →
      (RightOfRelations P (q.lexemes ++ rest) ↔ A ∧ RightOfRelations P rest))
    {rest : List Lexeme} (hrest : Follow rest) :
    RightOfRelations P ((negation q).lexemes ++ rest) ↔ A ∧ RightOfRelations P rest := by
  rw [Filter.lexemes, List.cons_append, rightOfRelations_operator,
    rightOfRelations_parenthesizedIf _ h hrest]
  simp

theorem rightOfRelations_apply {r : Relation} {left right : Filter} {A B : Prop}
    (hl : ∀ {rest}, Follow rest →
      (RightOfRelations P (left.lexemes ++ rest) ↔ A ∧ RightOfRelations P rest))
    (hr : ∀ {rest}, Follow rest →
      (RightOfRelations P (right.lexemes ++ rest) ↔ B ∧ RightOfRelations P rest))
    {rest : List Lexeme} (hrest : Follow rest) :
    RightOfRelations P ((r.apply left right).lexemes ++ rest) ↔
      (A ∧ B ∧ P r (parenthesizedIf (r = .membership) right.lexemes ++ rest)) ∧
        RightOfRelations P rest := by
  rw [lexemes_apply, List.append_assoc, List.cons_append,
    hl (follow_operator (o := .relation r) (by simp) _), rightOfRelations_relation,
    rightOfRelations_parenthesizedIf _ hr hrest]
  tauto

/-- What holds right of the relations in a definition is a matter of the tree. -/
theorem Grammatical.rightOfRelations_iff (hF : Gathers P F) {q : Filter} (h : q.Grammatical)
    {rest : List Lexeme} (hrest : Follow rest) :
    RightOfRelations P (q.lexemes ++ rest) ↔ F q ∧ RightOfRelations P rest := by
  induction h generalizing rest with
  | name =>
    rw [Filter.lexemes, List.singleton_append, rightOfRelations_cons (by simp)]
    exact (and_iff_right (hF.name _)).symm
  | number =>
    rw [Filter.lexemes, List.singleton_append, rightOfRelations_cons (by simp)]
    exact (and_iff_right (hF.number _)).symm
  | group _ ih =>
    rw [hF.group]
    exact rightOfRelations_parenthesizedIf true ih hrest
  | negation _ ih =>
    rw [hF.negation]
    exact rightOfRelations_negation ih hrest
  | @relation left right r _ hdata ih =>
    have hright {rest : List Lexeme} (_ : Follow rest) :
        RightOfRelations P (right.lexemes ++ rest) ↔ True ∧ RightOfRelations P rest := by
      rw [rightOfRelations_append hdata.ne_operator, true_and]
    rw [rightOfRelations_apply ih hright hrest, hF.relation r hdata hrest, true_and]
  | negatedRelation r _ _ ihl ihq =>
    rw [rightOfRelations_apply ihl (rightOfRelations_negation ihq) hrest, hF.negatedRelation r]
  | connection op _ _ ihl ihr =>
    rw [Filter.lexemes, List.append_assoc, List.cons_append,
      rightOfRelations_parenthesizedIf _ ihl (follow_connective op _), rightOfRelations_connective,
      rightOfRelations_parenthesizedIf _ ihr hrest, hF.connection, and_assoc]

end

theorem gathers_bracketed : Gathers Bracketed fun _ => True where
  name _ := trivial
  number _ := trivial
  group _ := Iff.rfl
  negation _ := Iff.rfl
  connection _ _ _ := (and_self_iff).symm
  relation {left right rest} r hdata hrest := by
    have hopen : rest.head? ≠ some .openParen := hrest.head?_ne (by simp) (by simp)
    cases r with
    | comparison op =>
      cases hdata with
      | value => simp [Bracketed, parenthesizedIf, Filter.lexemes]
      | @values texts _ =>
        rcases texts with _ | ⟨text, _ | ⟨text', texts⟩⟩ <;>
          simp [Bracketed, parenthesizedIf, Filter.lexemes, Lexeme.commaSeparated, hopen]
    | membership => simp [Bracketed, parenthesizedIf, Lexeme.parenthesized]
  negatedRelation r := by
    cases r <;> simp [Bracketed, parenthesizedIf, Lexeme.parenthesized, Filter.lexemes]

theorem gathers_operable : Gathers Operable fun q => q.hasLegibleOperands = true where
  name _ := rfl
  number _ := rfl
  group _ := Iff.rfl
  negation _ := Iff.rfl
  connection _ _ _ := by simp [hasLegibleOperands]
  relation {left right rest} r hdata hrest := by
    have hcomma : rest.head? ≠ some .comma := hrest.head?_ne (by simp) (by simp)
    cases r with
    | comparison op =>
      cases hdata with
      | value =>
        simp [Relation.apply, hasLegibleOperands, holdsOne, Operable, parenthesizedIf,
          Filter.lexemes, hcomma]
      | @values texts _ =>
        rcases texts with _ | ⟨text, _ | ⟨text', texts⟩⟩
        · simp [Relation.apply, hasLegibleOperands, holdsOne, parenthesizedIf,
            Filter.lexemes, Lexeme.commaSeparated, hrest.operable_comparison]
        · simp [Relation.apply, hasLegibleOperands, holdsOne, Operable, parenthesizedIf,
            Filter.lexemes, Lexeme.commaSeparated, hcomma]
        · simp [Relation.apply, hasLegibleOperands, holdsOne, Operable, parenthesizedIf,
            Filter.lexemes, Lexeme.commaSeparated]
    | membership =>
      have hnot : right.isNegation = false := by cases hdata <;> rfl
      have hop : Operable .membership (parenthesizedIf true right.lexemes ++ rest) := by
        have hne := hdata.ne_operator
        cases hls : right.lexemes with
        | nil => simp [Operable, parenthesizedIf, Lexeme.parenthesized]
        | cons l ls =>
          have hl : l ≠ .operator Operator.negation.spelling := hne l (by simp [hls]) _
          simpa [Operable, parenthesizedIf, Lexeme.parenthesized] using hl
      simpa [Relation.apply, hasLegibleOperands, hnot] using fun _ => hop
  negatedRelation r := by
    cases r <;> simp [Relation.apply, hasLegibleOperands, holdsOne, isNegation, Operable,
      parenthesizedIf, Lexeme.parenthesized, Filter.lexemes]

end Filter

/-- What a phrase makes of a legible tree before it, where parentheses open right of `IN` only. -/
def Phrase.KeepsLegible : Phrase → List Token → Filter → Prop
  | tails left, _, q => left.hasLegibleOperands = true → q.hasLegibleOperands = true
  | operand, ts, q => ∀ (r : Relation) (left : Filter), left.hasLegibleOperands = true →
      Bracketed r (lexemes ts) → (r.apply left q).hasLegibleOperands = true
  | _, _, q => q.hasLegibleOperands = true

theorem Spelled.rightOfRelations {P : Relation → List Lexeme → Prop} {o : Operator}
    {ts rest : List Token} (h : Spelled o ts rest) (hts : RightOfRelations P (lexemes ts)) :
    (∀ r, o = .relation r → P r (lexemes rest)) ∧ RightOfRelations P (lexemes rest) := by
  rw [h.lexemes_eq] at hts
  exact rightOfRelations_operator.mp hts

theorem rightOfRelations_of_cons {P : Relation → List Lexeme → Prop} {t : Token} {ts : List Token}
    (ht : ∀ ch, t.kind ≠ .symbol ch) (h : RightOfRelations P (lexemes (t :: ts))) :
    RightOfRelations P (lexemes ts) := by
  rw [lexemes_cons ht] at h
  exact h.2

theorem TokenKind.ne_symbol_of_leaf? {numbers : NumberText} {make : String → Filter} {k : TokenKind}
    {q : Filter} (h : k.leaf? numbers make = some q) (ch : Char) : k ≠ .symbol ch := by
  rintro rfl
  cases h

/-- Elements of a list are no symbols. -/
theorem rightOfRelations_of_list {P : Relation → List Lexeme → Prop} {numbers : NumberText}
    {ts rest : List Token}
    (hts : ∀ e ∈ ts, e.kind = .comma ∨ (e.kind.element? numbers).isSome)
    (h : RightOfRelations P (lexemes (ts ++ rest))) : RightOfRelations P (lexemes rest) := by
  induction ts with
  | nil => exact h
  | cons e ts ih =>
    refine ih (fun e' he' => hts e' (by simp [he'])) (rightOfRelations_of_cons (fun ch hch => ?_) h)
    simpa [hch, TokenKind.element?] using hts e (by simp)

theorem Derives.keepsLegible {numbers : NumberText} {p : Phrase} {n : Nat} {ts rest : List Token}
    {q : Filter} (h : Derives numbers p n ts q rest)
    (hts : RightOfRelations Bracketed (lexemes ts)) :
    p.KeepsLegible ts q ∧ RightOfRelations Bracketed (lexemes rest) := by
  induction h with
  | chain _ _ ih ih' =>
    obtain ⟨hleft, hmid⟩ := ih hts
    obtain ⟨hq, hrest⟩ := ih' hmid
    exact ⟨hq hleft, hrest⟩
  | noTail => exact ⟨id, hts⟩
  | connectionTail ho _ _ ih ih' =>
    obtain ⟨hright, hmid⟩ := ih (ho.rightOfRelations hts).2
    obtain ⟨hq, hrest⟩ := ih' hmid
    exact ⟨fun hleft => hq (by simp_all [Phrase.KeepsLegible, Filter.hasLegibleOperands]), hrest⟩
  | relationTail ho _ _ ih ih' =>
    obtain ⟨hr, hmid⟩ := ho.rightOfRelations hts
    obtain ⟨hright, hmid'⟩ := ih hmid
    obtain ⟨hq, hrest⟩ := ih' hmid'
    exact ⟨fun hleft => hq (hright _ _ hleft (hr _ rfl)), hrest⟩
  | negationTail ho _ ih =>
    obtain ⟨hq, hrest⟩ := ih (ho.rightOfRelations hts).2
    exact ⟨hq, hrest⟩
  | connection _ ho _ ih ih' =>
    obtain ⟨hleft, hmid⟩ := ih hts
    obtain ⟨hright, hrest⟩ := ih' (ho.rightOfRelations hmid).2
    exact ⟨by simp_all [Phrase.KeepsLegible, Filter.hasLegibleOperands], hrest⟩
  | relation _ ho _ ih ih' =>
    obtain ⟨hleft, hmid⟩ := ih hts
    obtain ⟨hr, hmid'⟩ := ho.rightOfRelations hmid
    obtain ⟨hright, hrest⟩ := ih' hmid'
    exact ⟨hright _ _ hleft (hr _ rfl), hrest⟩
  | negationAfter _ ho ih =>
    obtain ⟨hq, hmid⟩ := ih hts
    exact ⟨hq, (ho.rightOfRelations hmid).2⟩
  | alone _ _ ih => exact ih hts
  | group ht _ hu ih =>
    obtain ⟨hq, hmid⟩ := ih (rightOfRelations_of_cons (by simp [ht]) hts)
    exact ⟨hq, rightOfRelations_of_cons (by simp [hu]) hmid⟩
  | negation ho _ ih =>
    obtain ⟨hq, hrest⟩ := ih (ho.rightOfRelations hts).2
    exact ⟨hq, hrest⟩
  | field ht =>
    refine ⟨?_, rightOfRelations_of_cons (TokenKind.ne_symbol_of_leaf? ht) hts⟩
    obtain ⟨text, rfl | rfl⟩ := TokenKind.eq_of_leaf? ht <;> rfl
  | list ht hlist hu =>
    have hinside := rightOfRelations_of_cons (by simp [ht]) hts
    refine ⟨fun r left hleft hr => ?_,
      rightOfRelations_of_cons (by simp [hu]) (rightOfRelations_of_list hlist hinside)⟩
    rw [List.cons_append, lexemes_cons (by simp [ht]), ht] at hr
    obtain rfl := hr.mp rfl
    simp [Relation.apply, Filter.hasLegibleOperands, Filter.isNegation, hleft]
  | negatedOperand ho _ ih =>
    obtain ⟨hq, hrest⟩ := ih (ho.rightOfRelations hts).2
    refine ⟨fun r left hleft hr => ?_, hrest⟩
    rw [ho.lexemes_eq] at hr
    cases r with
    | comparison op =>
      have hq : Filter.hasLegibleOperands _ = true := hq
      simp [Relation.apply, Filter.hasLegibleOperands, Filter.holdsOne, hleft, hq]
    | membership => cases hr.mpr rfl
  | value ht =>
    refine ⟨fun r left hleft _ => ?_, rightOfRelations_of_cons (TokenKind.ne_symbol_of_leaf? ht) hts⟩
    obtain ⟨text, hq⟩ := TokenKind.eq_of_leaf? ht
    obtain rfl : _ = Filter.value text := hq.elim id id
    cases r <;> simp [Relation.apply, Filter.hasLegibleOperands, Filter.holdsOne, Filter.isNegation,
      hleft]

namespace Filter

theorem Grammatical.lexemes_eq {q : Filter} (h : q.Grammatical) {k : Nat} {ts : List Token}
    (hts : Lexes k q.definition.toList ts) : FilterLang.lexemes ts = q.lexemes := by
  obtain ⟨groups, hlex, hgroups⟩ := h.writable.spells k
  rw [hts.unique hlex, hgroups.read]

theorem Grammatical.operable_iff {q : Filter} (h : q.Grammatical) :
    RightOfRelations Operable q.lexemes ↔ q.hasLegibleOperands = true := by
  have hiff := h.rightOfRelations_iff gathers_operable (by simp [Follow] : Follow [])
  simpa [RightOfRelations] using hiff

theorem Grammatical.bracketed {q : Filter} (h : q.Grammatical) :
    RightOfRelations Bracketed q.lexemes := by
  have hiff := h.rightOfRelations_iff gathers_bracketed (by simp [Follow] : Follow [])
  simpa [RightOfRelations] using hiff

/-- Trees with one definition are legible or not together. -/
theorem Grammatical.hasLegibleOperands_congr {q q' : Filter} (h : q.Grammatical)
    (h' : q'.Grammatical) (heq : q.definition = q'.definition) :
    q.hasLegibleOperands = q'.hasLegibleOperands := by
  obtain ⟨groups, hlex, hgroups⟩ := h.writable.spells 0
  rw [heq] at hlex
  rw [Bool.eq_iff_iff, ← h.operable_iff, ← h'.operable_iff, ← hgroups.read, h'.lexemes_eq hlex]

end Filter

theorem hasLegibleOperands_of_parse_definition {c : Config} {q : Filter}
    (hc : c.numbers = .verbatim) (h : Filter.parse c q.definition = .ok (some q)) :
    q.hasLegibleOperands = true := by
  have hq := grammatical_of_parse hc h
  obtain ⟨ts, hlex, hder⟩ := parse_eq_ok_some_iff.mp h
  have hts : RightOfRelations Bracketed (lexemes ts) := by
    rw [hq.lexemes_eq hlex]
    exact hq.bracketed
  exact (hder.keepsLegible hts).1

/-- The operands of a tree are legible if a tree with its definition is read from it. -/
theorem hasLegibleOperands_of_parse {c : Config} {p q : Filter} (hc : c.numbers = .verbatim)
    (hq : q.Grammatical) (h : Filter.parse c q.definition = .ok (some p))
    (heq : p.definition = q.definition) : q.hasLegibleOperands = true := by
  have hp := grammatical_of_parse hc h
  rw [← heq] at h
  rw [← hp.hasLegibleOperands_congr hq heq]
  exact hasLegibleOperands_of_parse_definition hc h

end FilterLang
