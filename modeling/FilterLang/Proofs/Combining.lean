import FilterLang.Filter.Build
import FilterLang.Proofs.Fixpoint
import Mathlib.Tactic.ByContra

/-! When two filters that are read back from their own definitions are read back from the definition
of their combination: `parse_combination_iff`. No group is put around a left operand that ends in a
comparison with a negation, nor around a right operand that starts with a negation, so there
the connective, or the operators after it, find another place in the tree. -/

namespace FilterLang

namespace Filter

/-- The number of operators in the tree, but for those right of `IN`. -/
def operators : Filter → Nat
  | group inner => inner.operators
  | negation operand => operand.operators + 1
  | comparison _ left right => left.operators + right.operators + 1
  | membership field _ => field.operators + 1
  | connection _ left right => left.operators + right.operators + 1
  | _ => 0

/-- How many operators are left of the connective at the root. -/
def leftOperators? : Filter → Option Nat
  | connection _ left _ => some left.operators
  | _ => none

theorem operators_ungrouped : ∀ q : Filter, q.ungrouped.operators = q.operators
  | name _ | value _ | values _ => rfl
  | group inner => operators_ungrouped inner
  | negation operand => by rw [ungrouped, operators, operators, operators_ungrouped operand]
  | comparison op left right => by
    rw [ungrouped, operators, operators, operators_ungrouped left, operators_ungrouped right]
  | membership field among => by rw [ungrouped, operators, operators, operators_ungrouped field]
  | connection op left right => by
    rw [ungrouped, operators, operators, operators_ungrouped left, operators_ungrouped right]

theorem leftOperators?_ungrouped {q : Filter} (h : q.isGroup = false) :
    q.ungrouped.leftOperators? = q.leftOperators? := by
  cases q with
  | group => cases h
  | connection op left right => rw [ungrouped, leftOperators?, leftOperators?, operators_ungrouped]
  | _ => rfl

end Filter

def Tail.operators : Tail → Nat
  | comparison _ right | connection _ right => right.operators + 1
  | membership _ => 1

theorem Tail.operators_apply (t : Tail) (q : Filter) :
    (t.apply q).operators = q.operators + t.operators := by
  cases t <;> simp only [apply, operators, Filter.operators, Nat.add_assoc]

namespace Filter

theorem operators_extend (t : Tail) (q : Filter) :
    (extend t q).operators = q.operators + t.operators := by
  fun_induction extend t q with
  | case2 q _ ih | case4 op left q _ ih | case6 op left right _ ih =>
    simp only [operators, ih]
    omega
  | _ => exact t.operators_apply _

theorem operators_join (op : Connective) (left right : Filter) :
    (join op left right).operators = left.operators + right.operators + 1 := by
  fun_induction join op left right with
  | case2 c l r _ ih | case4 l among _ ih | case6 c l r _ ih =>
    simp only [operators_extend, Tail.operators, operators, ih]
    omega
  | _ =>
    simp only [operators_extend, Tail.operators]
    omega

/-- A tail takes the whole tree for its left operand, or the operator at the root stays there. -/
theorem extend_eq_apply_or (t : Tail) (q : Filter) : extend t q = t.apply q ∨
    q.isFinished = false ∧ (extend t q).leftOperators? = q.leftOperators? := by
  cases q with
  | negation operand =>
    rw [extend]
    split_ifs
    · exact .inl rfl
    · exact .inr ⟨rfl, rfl⟩
  | comparison op left right =>
    cases right with
    | negation operand =>
      rw [extend]
      split_ifs with hfinished
      · exact .inl rfl
      · exact .inr ⟨by simpa [isFinished] using hfinished, rfl⟩
    | _ => exact .inl rfl
  | connection op left right =>
    rw [extend]
    split_ifs with hfinished
    · exact .inl rfl
    · exact .inr ⟨by simpa [isFinished] using hfinished, rfl⟩
  | _ => exact .inl rfl

theorem extend_of_isFinished (t : Tail) {q : Filter} (h : q.isFinished = true) :
    extend t q = t.apply q :=
  (extend_eq_apply_or t q).resolve_right fun h' => by simp [h] at h'

theorem leftOperators?_apply {t : Tail} {q : Filter} {n : Nat}
    (h : (t.apply q).leftOperators? = some n) : q.operators = n := by
  cases t with
  | connection => exact Option.some.inj h
  | _ => cases h

/-- A tail that goes on with a negation leaves less on the left than there was. -/
theorem leftOperators?_extend_of_trailsNegation (t : Tail) {q : Filter}
    (hneg : q.negatesGroups = true) (htrails : q.trailsNegation = true) :
    (extend t q).leftOperators? ≠ some q.operators := by
  cases q with
  | negation operand =>
    simp only [negatesGroups, Bool.and_eq_true] at hneg
    simp [extend, isFinished_of_isGroup hneg.1, leftOperators?]
  | comparison op left right =>
    cases right with
    | negation operand =>
      simp only [negatesGroups, Bool.and_eq_true] at hneg
      simp [extend, isFinished_of_isGroup hneg.2.1, leftOperators?]
    | _ => cases htrails
  | connection op left right =>
    simp only [negatesGroups, Bool.and_eq_true] at hneg
    have hopen : right.isFinished = false := by
      by_contra hfinished
      rw [trailsNegation, trailsNegation_of_isFinished right (by simpa using hfinished) hneg.2]
        at htrails
      cases htrails
    simp only [extend, hopen, Bool.false_eq_true, if_false, leftOperators?, operators, ne_eq,
      Option.some.injEq]
    omega
  | _ => cases htrails

theorem leftOperators?_join_of_trailsNegation (op : Connective) {left : Filter}
    (hneg : left.negatesGroups = true) (htrails : left.trailsNegation = true) (right : Filter) :
    (join op left right).leftOperators? ≠ some left.operators := by
  have step {t : Tail} {q : Filter} (ih : (join op left q).leftOperators? ≠ some left.operators) :
      (extend t (join op left q)).leftOperators? ≠ some left.operators := by
    intro h
    rcases extend_eq_apply_or t (join op left q) with heq | ⟨-, heq⟩
    · rw [heq] at h
      have hcount := leftOperators?_apply h
      rw [operators_join] at hcount
      omega
    · exact ih (heq ▸ h)
  fun_induction join op left right with
  -- each tail of a chain to the right is one step
  | case2 _ _ _ _ ih | case4 _ _ _ ih | case6 _ _ _ _ ih => exact step ih
  | _ => exact leftOperators?_extend_of_trailsNegation _ hneg htrails

/-- A connective before a chain is in the left operand of the last tail. -/
theorem leftOperators?_join_of_chain (op : Connective) {left right : Filter}
    (htrails : left.trailsNegation = false) (h : right.Readable) (hneg : right.negatesGroups = true)
    (hchain : right.isExpression = false) :
    (join op left right).leftOperators? ≠ some left.operators := by
  rcases h.isField_or_eq_apply with hfield | ⟨t, l, rfl, hl, hleads⟩
  · simp [isExpression_of_isField hfield] at hchain
  rw [Tail.negatesGroups_apply, Bool.and_eq_true] at hneg
  rw [Tail.isExpression_apply] at hchain
  have hfinished : (join op left l).isFinished = true := by
    rw [(hl.joins op left).isFinished htrails hneg.1]
    exact (isField_or_isFinished hleads).resolve_left (by simp [hchain])
  rw [join_apply op left t hchain, extend_of_isFinished t hfinished]
  intro hcount
  have hoperators := leftOperators?_apply hcount
  rw [operators_join] at hoperators
  omega

theorem isFinished_of_endsWithComparison : ∀ q : Filter, q.endsWithComparison = true →
    q.trailsNegation = false → q.isFinished = true
  | comparison op left right, _, htrails => by
    cases right with
    | negation => cases htrails
    | _ => rfl
  | membership _ _, _, _ => rfl
  | connection op left right, hends, htrails => by
    simp only [endsWithComparison, Bool.and_eq_true] at hends
    exact isFinished_of_endsWithComparison right hends.2 htrails
  | name _, h, _ | value _, h, _ | values _, h, _ | group _, h, _ | negation _, h, _ => by cases h

theorem extend_of_leftNeedsGroup_eq_false (t : Tail) {q : Filter} (h : q.leftNeedsGroup = false)
    (htrails : q.trailsNegation = false) : extend t q = t.apply q := by
  cases q with
  | negation => cases h
  | comparison op left right =>
    cases right with
    | negation => cases htrails
    | _ => rfl
  | connection op left right =>
    rw [leftNeedsGroup, Bool.not_eq_false'] at h
    exact extend_of_isFinished t (isFinished_of_endsWithComparison _ h htrails)
  | _ => rfl

theorem leftNeedsGroup_groupIf_self (q : Filter) :
    (q.groupIf q.leftNeedsGroup).leftNeedsGroup = false := by
  cases h : q.leftNeedsGroup with
  | true => rfl
  | false => exact h

theorem isGroup_join (op : Connective) (left right : Filter) :
    (join op left right).isGroup = false := by
  fun_cases join op left right <;> exact isGroup_extend _ _

/-- A connective finds its place just if it goes on with no negation and comes before an
expression. -/
theorem ungrouped_join_iff (op : Connective) {left right : Filter}
    (hneeds : left.leftNeedsGroup = false) (hneg : left.negatesGroups = true)
    (h : right.Readable) (hneg' : right.negatesGroups = true) :
    (join op left right).ungrouped = (connection op left right).ungrouped ↔
      left.trailsNegation = false ∧ right.isExpression = true := by
  constructor
  · intro heq
    have hcount : (join op left right).leftOperators? = some left.operators := by
      rw [← leftOperators?_ungrouped (isGroup_join op left right), heq]
      exact leftOperators?_ungrouped rfl
    have htrails : left.trailsNegation = false := by
      by_contra htrails
      exact leftOperators?_join_of_trailsNegation op hneg (by simpa using htrails) right hcount
    refine ⟨htrails, ?_⟩
    by_contra hchain
    exact leftOperators?_join_of_chain op htrails h hneg' (by simpa using hchain) hcount
  · rintro ⟨htrails, hexpr⟩
    rw [join_of_isExpression op left hexpr, extend_of_leftNeedsGroup_eq_false _ hneeds htrails]
    rfl

theorem isExpression_groupIf (b : Bool) (q : Filter) :
    (q.groupIf b).isExpression = (b || q.isExpression) := by
  cases b <;> rfl

end Filter

/-- More levels make no difference to a text that is read. -/
theorem parse_eq_of_maxDepth_le {c c' : Config} {text : String} {q : Filter}
    (hnumbers : c'.numbers = c.numbers) (hle : c.maxDepth ≤ c'.maxDepth)
    (h : Filter.parse c text = .ok (some q)) : Filter.parse c' text = .ok (some q) := by
  obtain ⟨ts, hlex, hq⟩ := parse_eq_ok_some_iff.mp h
  rw [← hnumbers] at hq
  exact parse_eq_ok_some_iff.mpr ⟨ts, hlex, hq.mono hle⟩

namespace Filter

/-- What is known of a tree that is read from its own definition. -/
structure ReadFromItself (q : Filter) : Prop where
  legible : q.Legible
  reread_eq : q.reread = q

theorem readFromItself_of_parse {c : Config} {q : Filter} (hc : c.numbers = .verbatim)
    (h : parse c q.definition = .ok (some q)) : ReadFromItself q := by
  have hlegible := (grammatical_of_parse hc h).legible (hasLegibleOperands_of_parse_definition hc h)
  obtain ⟨ts, -, hparse⟩ := hlegible.parse_eq_reread
  let c' : Config := { c with maxDepth := c.maxDepth + ts.length }
  have hreread : parse c' q.definition = .ok (some q.reread) :=
    hparse c' hc (Nat.le_add_left _ _)
  have hself : parse c' q.definition = .ok (some q) :=
    parse_eq_of_maxDepth_le (c := c) rfl (Nat.le_add_right _ _) h
  rw [hreread] at hself
  exact ⟨hlegible, by simpa using hself⟩

namespace ReadFromItself

variable {q : Filter}

theorem readable (h : ReadFromItself q) : q.Readable := h.reread_eq ▸ h.legible.readable_reread

theorem enclosesNegations (h : ReadFromItself q) : q.enclosesNegations = true :=
  h.legible.definition_reread_iff.mp (by rw [h.reread_eq])

theorem negatesGroups (h : ReadFromItself q) : q.negatesGroups = true := by
  rw [← h.enclosesNegations, ← h.legible.rereadsNegations.negatesGroups, h.reread_eq]

theorem trailsNegation (h : ReadFromItself q) : q.trailsNegation = q.endsInNegation := by
  rw [← h.legible.rereadsNegations.trailsNegation h.enclosesNegations, h.reread_eq]

end ReadFromItself

end Filter

/-- The combination of two trees that are read from their own definitions is read from its own, up
to groups, just if the left definition ends in no negation and the right one is a single expression;
either tree is fine if it is put in parentheses. -/
theorem parse_combination_iff {c₁ c₂ : Config} {left right : Filter} (op : Connective)
    (hc₁ : c₁.numbers = .verbatim) (hc₂ : c₂.numbers = .verbatim)
    (hleft : Filter.parse c₁ left.definition = .ok (some left))
    (hright : Filter.parse c₂ right.definition = .ok (some right)) :
    ∃ toks, Token.ofText (Filter.connection op left right).definition = .ok toks ∧
      ∀ c : Config, c.numbers = .verbatim → toks.dropLast.length ≤ c.maxDepth →
        ∃ p, Filter.parse c (Filter.connection op left right).definition = .ok (some p) ∧
          (p.ungrouped = (Filter.connection op left right).ungrouped ↔
            (left.leftNeedsGroup = true ∨ left.endsInNegation = false) ∧
              (right.rightNeedsGroup = true ∨ right.isExpression = true)) := by
  have hl := Filter.readFromItself_of_parse hc₁ hleft
  have hr := Filter.readFromItself_of_parse hc₂ hright
  have hlegible : (Filter.connection op left right).Legible := .connection hl.legible hr.legible
  obtain ⟨ts, hlex, hparse⟩ := hlegible.parse_eq_reread
  refine ⟨_, Token.ofText_of_lexes hlex, fun c hc hdepth => ?_⟩
  refine ⟨_, hparse c hc (by simpa using hdepth), ?_⟩
  have hungrouped : (Filter.connection op left right).ungrouped =
      (Filter.connection op (left.groupIf left.leftNeedsGroup)
        (right.groupIf right.rightNeedsGroup)).ungrouped := by
    simp only [Filter.ungrouped, Filter.ungrouped_groupIf]
  rw [hungrouped, Filter.reread, hl.reread_eq, hr.reread_eq,
    Filter.ungrouped_join_iff op (Filter.leftNeedsGroup_groupIf_self left)
      (by rw [Filter.negatesGroups_groupIf, hl.negatesGroups]) (hr.readable.groupIf _)
      (by rw [Filter.negatesGroups_groupIf, hr.negatesGroups]),
    Filter.trailsNegation_groupIf, hl.trailsNegation, Filter.isExpression_groupIf]
  cases left.leftNeedsGroup <;> simp

/-- The connective goes on with the negation in the left filter. -/
theorem parse_combination_iff_negation :
    let left : Filter := .comparison .equal (.name "a") (.negation (.group (.name "b")))
    Filter.parse {} left.definition = .ok (some left) ∧
      (left.and (.name "c")).definition = "a = NOT (b) AND c" ∧
      ∃ p, Filter.parse {} (left.and (.name "c")).definition = .ok (some p) ∧
        p.ungrouped ≠ (left.and (.name "c")).ungrouped := by
  intro left
  have hleft : Filter.parse {} left.definition = .ok (some left) := by
    have hdef : left.definition = "a = NOT (b)" := by rfl
    rw [hdef]
    rfl
  have hright : Filter.parse {} (Filter.name "c").definition = .ok (some (.name "c")) := by rfl
  have hdef : (left.and (.name "c")).definition = "a = NOT (b) AND c" := by rfl
  obtain ⟨toks, htoks, hparse⟩ := parse_combination_iff .and rfl rfl hleft hright
  have hlength : (Token.ofText "a = NOT (b) AND c").map (·.dropLast.length) = .ok 8 := by rfl
  rw [← hdef, Filter.and, htoks] at hlength
  have hdepth : toks.dropLast.length = 8 := by simpa [Except.map] using hlength
  obtain ⟨p, hp, hiff⟩ := hparse {} rfl (by simp [hdepth])
  have hends : left.leftNeedsGroup = false ∧ left.endsInNegation = true := by decide
  refine ⟨hleft, hdef, p, hp, fun heq => ?_⟩
  simpa [hends] using (hiff.mp heq).1

end FilterLang
