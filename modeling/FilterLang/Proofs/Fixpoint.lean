import FilterLang.Proofs.Legibility

/-! When the definition of a parsed tree is a fixpoint of reading and writing:
`definition_fixpoint_iff`. Where the text of a negation comes left of an operator, the operator goes
on with the operand of the negation when it is read. That operand is a group no longer, so its own
definition has one more. -/

namespace FilterLang

namespace Filter

def addedGroups : Filter → Nat
  | group inner => inner.addedGroups
  | negation operand => operand.addedGroups + (!operand.isGroup).toNat
  | comparison _ left right => left.addedGroups + right.addedGroups
  | membership field _ => field.addedGroups
  | connection _ left right => left.addedGroups + left.leftNeedsGroup.toNat +
      (right.addedGroups + right.rightNeedsGroup.toNat)
  | _ => 0

theorem length_parenthesized_ite (b : Bool) (text : String) :
    (if b then parenthesized text else text).length = text.length + 2 * b.toNat := by
  have hopen : "(".length = 1 := rfl
  have hclose : ")".length = 1 := rfl
  cases b with
  | false => rfl
  | true =>
    simp only [if_true, parenthesized, String.length_append, Bool.toNat_true]
    omega

theorem definition_negation (q : Filter) :
    (negation q).definition = Operator.negation.spelling ++ " " ++
      (if !q.isGroup then parenthesized q.definition else q.definition) := by
  rw [definition]
  cases q.isGroup <;> rfl

theorem length_definition : ∀ q : Filter,
    q.definition.length = q.bareText.length + 2 * q.addedGroups
  | name _ | value _ | values _ => rfl
  | group inner => by
    simp only [definition, bareText, addedGroups, parenthesized, String.length_append,
      length_definition inner]
    omega
  | negation operand => by
    simp only [definition_negation, bareText, addedGroups, length_parenthesized_ite,
      String.length_append, length_definition operand]
    omega
  | comparison op left right => by
    simp only [definition, bareText, addedGroups, String.length_append, length_definition left,
      length_definition right]
    omega
  | membership field among => by
    simp only [definition, bareText, addedGroups, String.length_append, length_definition field]
    omega
  | connection op left right => by
    simp only [definition, bareText, addedGroups, length_parenthesized_ite, String.length_append,
      length_definition left, length_definition right]
    omega

theorem definition_eq_bareText : ∀ q : Filter, q.addedGroups = 0 → q.definition = q.bareText
  | name _, _ | value _, _ | values _, _ => rfl
  | group inner, h => by rw [definition, bareText, definition_eq_bareText inner h]
  | negation operand, h => by
    obtain ⟨hadded, hgroup⟩ : operand.addedGroups = 0 ∧ operand.isGroup = true := by
      simpa [addedGroups] using h
    rw [definition, if_pos hgroup, bareText, definition_eq_bareText operand hadded]
  | comparison op left right, h => by
    obtain ⟨hl, hr⟩ : left.addedGroups = 0 ∧ right.addedGroups = 0 := by
      simpa [addedGroups] using h
    rw [definition, bareText, definition_eq_bareText left hl, definition_eq_bareText right hr]
  | membership field among, h => by
    rw [definition, bareText, definition_eq_bareText field h]
  | connection op left right, h => by
    obtain ⟨⟨hl, hneeds⟩, hr, hneeds'⟩ :
        (left.addedGroups = 0 ∧ left.leftNeedsGroup = false) ∧
          right.addedGroups = 0 ∧ right.rightNeedsGroup = false := by
      simpa [addedGroups] using h
    rw [definition, hneeds, hneeds', bareText, definition_eq_bareText left hl,
      definition_eq_bareText right hr]
    rfl

theorem definition_eq_bareText_iff {q : Filter} :
    q.definition = q.bareText ↔ q.addedGroups = 0 := by
  refine ⟨fun h => ?_, definition_eq_bareText q⟩
  have hlength := congrArg String.length h
  rw [length_definition] at hlength
  omega

/-- Each negation is of a group. -/
def negatesGroups : Filter → Bool
  | group inner => inner.negatesGroups
  | negation operand => operand.isGroup && operand.negatesGroups
  | comparison _ left right => left.negatesGroups && right.negatesGroups
  | membership field _ => field.negatesGroups
  | connection _ left right => left.negatesGroups && right.negatesGroups
  | _ => true

theorem negatesGroups_of_addedGroups : ∀ q : Filter, q.addedGroups = 0 → q.negatesGroups = true
  | name _, _ | value _, _ | values _, _ => rfl
  | group inner, h => negatesGroups_of_addedGroups inner h
  | negation operand, h => by
    obtain ⟨hadded, hgroup⟩ : operand.addedGroups = 0 ∧ operand.isGroup = true := by
      simpa [addedGroups] using h
    simp [negatesGroups, hgroup, negatesGroups_of_addedGroups operand hadded]
  | comparison op left right, h => by
    obtain ⟨hl, hr⟩ : left.addedGroups = 0 ∧ right.addedGroups = 0 := by
      simpa [addedGroups] using h
    simp [negatesGroups, negatesGroups_of_addedGroups left hl,
      negatesGroups_of_addedGroups right hr]
  | membership field among, h => negatesGroups_of_addedGroups field h
  | connection op left right, h => by
    obtain ⟨⟨hl, -⟩, hr, -⟩ :
        (left.addedGroups = 0 ∧ left.leftNeedsGroup = false) ∧
          right.addedGroups = 0 ∧ right.rightNeedsGroup = false := by
      simpa [addedGroups] using h
    simp [negatesGroups, negatesGroups_of_addedGroups left hl,
      negatesGroups_of_addedGroups right hr]

theorem isFinished_of_isGroup {q : Filter} (h : q.isGroup = true) : q.isFinished = false := by
  cases q <;> first | rfl | cases h

theorem isPrimary_of_leads {q : Filter} (hfield : q.isField = true) (hleads : q.leads = true)
    (h : q.negatesGroups = true) : q.isPrimary = true := by
  cases q with
  | name | value | values | group => rfl
  | negation operand =>
    simp only [negatesGroups, Bool.and_eq_true] at h
    simp [leads, isFinished_of_isGroup h.1] at hleads
  | comparison | membership | connection => cases hfield

theorem Readable.rightNeedsGroup_eq_false {q : Filter} (h : q.Readable)
    (hexpr : q.isExpression = true) (hneg : q.negatesGroups = true) :
    q.rightNeedsGroup = false := by
  cases h with
  | connection _ hleads _ _ =>
    simp only [negatesGroups, Bool.and_eq_true] at hneg
    simp [rightNeedsGroup, isPrimary_of_leads hexpr hleads hneg.1]
  | _ => rfl

theorem Readable.endsWithComparison {q : Filter} (h : q.Readable) (hneg : q.negatesGroups = true)
    (hfinished : q.isFinished = true) : q.endsWithComparison = true := by
  induction h with
  | name | number | group | negation => cases hfinished
  | comparison | negatedComparison | membership => rfl
  | connection _ _ hright hexpr _ ih =>
    simp only [negatesGroups, Bool.and_eq_true] at hneg
    simp [Filter.endsWithComparison, hright.rightNeedsGroup_eq_false hexpr hneg.2,
      ih hneg.2 hfinished]

theorem Readable.leftNeedsGroup_eq_false {q : Filter} (h : q.Readable)
    (hleads : q.leads = true) (hneg : q.negatesGroups = true) : q.leftNeedsGroup = false := by
  rcases isField_or_isFinished hleads with hfield | hfinished
  · exact Filter.leftNeedsGroup_eq_false (.inl (isPrimary_of_leads hfield hleads hneg))
  · exact Filter.leftNeedsGroup_eq_false (.inr (h.endsWithComparison hneg hfinished))

theorem Readable.addedGroups_eq_zero {q : Filter} (h : q.Readable)
    (hneg : q.negatesGroups = true) : q.addedGroups = 0 := by
  induction h with
  | name | number => rfl
  | group _ ih => exact ih hneg
  | negation _ _ ih =>
    simp only [negatesGroups, Bool.and_eq_true] at hneg
    simp [addedGroups, hneg.1, ih hneg.2]
  | comparison _ _ _ ih =>
    simp only [negatesGroups, Bool.and_eq_true] at hneg
    simp [addedGroups, ih hneg.1]
  | negatedComparison _ _ _ _ ihl ihq =>
    simp only [negatesGroups, Bool.and_eq_true] at hneg
    simp [addedGroups, ihl hneg.1, hneg.2.1, ihq hneg.2.2]
  | membership _ _ _ ih => exact ih hneg
  | connection h hleads hright hexpr ihl ihr =>
    simp only [negatesGroups, Bool.and_eq_true] at hneg
    simp [addedGroups, ihl hneg.1, ihr hneg.2, h.leftNeedsGroup_eq_false hleads hneg.1,
      hright.rightNeedsGroup_eq_false hexpr hneg.2]

theorem Readable.definition_eq_bareText_iff {q : Filter} (h : q.Readable) :
    q.definition = q.bareText ↔ q.negatesGroups = true :=
  Filter.definition_eq_bareText_iff.trans
    ⟨negatesGroups_of_addedGroups q, h.addedGroups_eq_zero⟩

/-- In a tree whose negations are of groups, a tail goes on with one of them. A group is not
finished, so the tail makes that group a part of a larger operand. -/
def trailsNegation : Filter → Bool
  | negation _ => true
  | comparison _ _ right => right.isNegation
  | connection _ _ right => right.trailsNegation
  | _ => false

/-- The definition ends in the text of a negation. -/
def endsInNegation : Filter → Bool
  | negation _ => true
  | comparison _ _ right => right.isNegation
  | connection _ _ right => !right.rightNeedsGroup && right.endsInNegation
  | _ => false

/-- No operator follows the text of a negation, except outside of parentheses around it. -/
def enclosesNegations : Filter → Bool
  | group inner => inner.enclosesNegations
  | negation operand => operand.enclosesNegations
  | comparison _ left right =>
    left.enclosesNegations && !left.endsInNegation && right.enclosesNegations
  | membership field _ => field.enclosesNegations && !field.endsInNegation
  | connection _ left right =>
    left.enclosesNegations && (left.leftNeedsGroup || !left.endsInNegation) &&
      right.enclosesNegations
  | _ => true

end Filter

namespace Tail

def negatesGroups : Tail → Bool
  | comparison _ right | connection _ right => right.negatesGroups
  | membership _ => true

def trailsNegation : Tail → Bool
  | comparison _ right => right.isNegation
  | membership _ => false
  | connection _ right => right.trailsNegation

theorem negatesGroups_apply (t : Tail) (q : Filter) :
    (t.apply q).negatesGroups = (q.negatesGroups && t.negatesGroups) := by
  cases t <;> simp [apply, negatesGroups, Filter.negatesGroups]

theorem trailsNegation_apply (t : Tail) (q : Filter) :
    (t.apply q).trailsNegation = t.trailsNegation := by
  cases t <;> rfl

end Tail

namespace Filter

theorem isGroup_extend (t : Tail) (q : Filter) : (extend t q).isGroup = false := by
  have happly (q : Filter) : (t.apply q).isGroup = false := by cases t <;> rfl
  fun_cases extend t q <;> first | rfl | exact happly _

theorem trailsNegation_of_isFinished : ∀ q : Filter, q.isFinished = true → q.negatesGroups = true →
    q.trailsNegation = false
  | name _, h, _ | value _, h, _ | values _, h, _ | group _, h, _ | negation _, h, _ => by cases h
  | comparison op left right, h, hneg => by
    cases right with
    | negation operand =>
      simp only [negatesGroups, Bool.and_eq_true] at hneg
      simp [isFinished, isFinished_of_isGroup hneg.2.1] at h
    | _ => rfl
  | membership _ _, _, _ => rfl
  | connection op left right, h, hneg => by
    simp only [negatesGroups, Bool.and_eq_true] at hneg
    exact trailsNegation_of_isFinished right h hneg.2

/-- A tail keeps the negations of groups just if it goes on with none of them. -/
theorem negatesGroups_extend (t : Tail) (q : Filter) :
    (extend t q).negatesGroups = (q.negatesGroups && !q.trailsNegation && t.negatesGroups) := by
  have hopen {q : Filter} (h : q.isFinished = true) : q.isGroup = false := by
    cases q <;> first | rfl | cases h
  -- a negation of a finished tree is of no group, and one that the tail goes on with no longer is
  fun_induction extend t q with
  | case1 q h => simp [Tail.negatesGroups_apply, negatesGroups, trailsNegation, hopen h]
  | case2 q h ih => simp [negatesGroups, trailsNegation, isGroup_extend]
  | case3 op left q h => simp [Tail.negatesGroups_apply, negatesGroups, hopen h]
  | case4 op left q h ih => simp [negatesGroups, trailsNegation, isNegation, isGroup_extend]
  | case5 op left right h =>
    cases hneg : right.negatesGroups with
    | false => simp [Tail.negatesGroups_apply, negatesGroups, hneg]
    | true =>
      simp [Tail.negatesGroups_apply, negatesGroups, trailsNegation, hneg,
        trailsNegation_of_isFinished right h hneg]
  | case6 op left right h ih => simp [negatesGroups, trailsNegation, ih, Bool.and_assoc]
  | case7 q hnegation hcomparison hconnection =>
    have htrails : q.trailsNegation = false := by
      cases q with
      | negation => exact absurd rfl (hnegation _)
      | connection => exact absurd rfl (hconnection _ _ _)
      | comparison op left right =>
        cases right with
        | negation => exact absurd rfl (hcomparison _ _ _)
        | _ => rfl
      | _ => rfl
    simp [Tail.negatesGroups_apply, htrails]

theorem trailsNegation_extend (t : Tail) {q : Filter} (h : q.trailsNegation = false) :
    (extend t q).trailsNegation = t.trailsNegation := by
  fun_induction extend t q with
  | case2 => cases h
  | case4 => cases h
  | case6 _ _ _ _ ih => exact ih h
  | _ => exact t.trailsNegation_apply _

theorem isFinished_apply (t : Tail) (q q' : Filter) :
    (t.apply q).isFinished = (t.apply q').isFinished := by
  cases t with
  | comparison op right => cases right <;> rfl
  | _ => rfl

theorem isFinished_extend (t : Tail) {q : Filter} (h : q.trailsNegation = false) (q' : Filter) :
    (extend t q).isFinished = (t.apply q').isFinished := by
  fun_induction extend t q with
  | case2 => cases h
  | case4 => cases h
  | case6 _ _ _ _ ih => exact ih h
  | _ => exact isFinished_apply t _ _

/-- What an operator between two texts does to their negations: it goes on with one at the end of
the left text, and the tails of a chain to the right go on with none. -/
structure Joins (op : Connective) (left right : Filter) : Prop where
  negatesGroups : (join op left right).negatesGroups =
    (left.negatesGroups && !left.trailsNegation && right.negatesGroups)
  trailsNegation : left.trailsNegation = false → right.negatesGroups = true →
    (join op left right).trailsNegation = right.trailsNegation
  isFinished : left.trailsNegation = false → right.negatesGroups = true →
    (join op left right).isFinished = right.isFinished

theorem joins_of_eq_extend {op : Connective} {left right : Filter}
    (h : join op left right = extend (.connection op right) left) : Joins op left right where
  negatesGroups := by rw [h, negatesGroups_extend, Tail.negatesGroups]
  trailsNegation hleft _ := by rw [h, trailsNegation_extend _ hleft, Tail.trailsNegation]
  isFinished hleft _ := by rw [h, isFinished_extend _ hleft left, Tail.apply, Filter.isFinished]

/-- One more tail comes after a chain to the right. -/
theorem Joins.tail {op : Connective} {left right : Filter} (t : Tail) (ih : Joins op left right)
    (hfinished : right.isFinished = true)
    (h : join op left (t.apply right) = extend t (join op left right)) :
    Joins op left (t.apply right) := by
  -- the chain so far is finished, so the tail finds no negation to go on with
  have htrails (hleft : left.trailsNegation = false) (hneg : right.negatesGroups = true) :
      (join op left right).trailsNegation = false := by
    rw [ih.trailsNegation hleft hneg, trailsNegation_of_isFinished right hfinished hneg]
  constructor
  · rw [h, negatesGroups_extend, ih.negatesGroups, Tail.negatesGroups_apply]
    cases hleft : left.trailsNegation with
    | true => simp
    | false =>
      cases hneg : right.negatesGroups with
      | false => simp
      | true => simp [htrails hleft hneg]
  · intro hleft hneg
    rw [Tail.negatesGroups_apply, Bool.and_eq_true] at hneg
    rw [h, trailsNegation_extend _ (htrails hleft hneg.1), Tail.trailsNegation_apply]
  · intro hleft hneg
    rw [Tail.negatesGroups_apply, Bool.and_eq_true] at hneg
    rw [h, isFinished_extend _ (htrails hleft hneg.1)]

theorem Readable.joins (op : Connective) (left : Filter) {right : Filter} (h : right.Readable) :
    Joins op left right := by
  refine h.chain_induction (fun q _ hfield => ?_) fun t l _ _ hleads ih => ?_
  · exact joins_of_eq_extend (join_of_isExpression op left (isExpression_of_isField hfield))
  · cases hfield : l.isField with
    | true =>
      exact joins_of_eq_extend (join_of_isExpression op left ((t.isExpression_apply l).trans hfield))
    | false =>
      have hfinished := (isField_or_isFinished hleads).resolve_left (by simp [hfield])
      exact ih.tail t hfinished (join_apply op left t hfield)

theorem negatesGroups_groupIf (b : Bool) (q : Filter) :
    (q.groupIf b).negatesGroups = q.negatesGroups := by
  cases b <;> rfl

theorem trailsNegation_groupIf (b : Bool) (q : Filter) :
    (q.groupIf b).trailsNegation = (!b && q.trailsNegation) := by
  cases b <;> simp [groupIf, trailsNegation]

theorem isGroup_reread_groupIf (q : Filter) : (q.reread.groupIf !q.isGroup).isGroup = true := by
  cases q <;> rfl

/-- What becomes of the negations in the tree that is read. -/
structure RereadsNegations (q : Filter) : Prop where
  negatesGroups : q.reread.negatesGroups = q.enclosesNegations
  trailsNegation : q.enclosesNegations = true → q.reread.trailsNegation = q.endsInNegation

theorem RereadsNegations.tail {q left : Filter} (t : Tail) (ih : RereadsNegations left)
    (hq : q.reread = extend t left.reread)
    (hencloses : q.enclosesNegations =
      (left.enclosesNegations && !left.endsInNegation && t.negatesGroups))
    (hends : q.endsInNegation = t.trailsNegation) : RereadsNegations q := by
  constructor
  · rw [hq, negatesGroups_extend, ih.negatesGroups, hencloses]
    cases hleft : left.enclosesNegations with
    | false => rfl
    | true => rw [ih.trailsNegation hleft]
  · intro henclosed
    simp only [hencloses, Bool.and_eq_true, Bool.not_eq_true'] at henclosed
    obtain ⟨⟨hleft, hopen⟩, -⟩ := henclosed
    rw [hq, hends, trailsNegation_extend t ((ih.trailsNegation hleft).trans hopen)]

theorem RereadsNegations.connection {op : Connective} {left right : Filter}
    (ihl : RereadsNegations left) (ihr : RereadsNegations right)
    (hright : right.reread.Readable) : RereadsNegations (.connection op left right) := by
  have hjoins := (hright.groupIf right.rightNeedsGroup).joins op
    (left.reread.groupIf left.leftNeedsGroup)
  constructor
  · rw [reread, hjoins.negatesGroups, negatesGroups_groupIf, negatesGroups_groupIf,
      trailsNegation_groupIf, ihl.negatesGroups, ihr.negatesGroups, enclosesNegations]
    cases hleft : left.enclosesNegations with
    | false => rfl
    | true => simp [ihl.trailsNegation hleft]
  · intro hencloses
    simp only [enclosesNegations, Bool.and_eq_true] at hencloses
    obtain ⟨⟨hleft, hopen⟩, hright⟩ := hencloses
    rw [reread, hjoins.trailsNegation, trailsNegation_groupIf, ihr.trailsNegation hright,
      endsInNegation]
    · rw [trailsNegation_groupIf, ihl.trailsNegation hleft]
      cases hneeds : left.leftNeedsGroup with
      | true => rfl
      | false => simpa [hneeds] using hopen
    · rw [negatesGroups_groupIf, ihr.negatesGroups, hright]

theorem Legible.rereadsNegations {q : Filter} (h : q.Legible) : RereadsNegations q := by
  have negation {q : Filter} (ih : RereadsNegations q) :
      (Filter.negation q).reread.negatesGroups = q.enclosesNegations := by
    rw [reread, Filter.negatesGroups, isGroup_reread_groupIf, negatesGroups_groupIf,
      ih.negatesGroups, Bool.true_and]
  induction h with
  | name =>
    exact ⟨fieldLeaf_ind (P := (·.negatesGroups = true)) rfl rfl,
      fun _ => fieldLeaf_ind (P := (·.trailsNegation = false)) rfl rfl⟩
  | number => exact ⟨rfl, fun _ => rfl⟩
  | group _ ih => exact ⟨ih.negatesGroups, fun _ => rfl⟩
  | negation _ ih => exact ⟨negation ih, fun _ => rfl⟩
  | @comparison op left text _ _ ih | @listedComparison op left text _ _ ih =>
    exact ih.tail (.comparison op (value text)) rfl rfl rfl
  | @negatedComparison op left q _ _ ihl ihq =>
    refine ihl.tail (.comparison op (Filter.negation q).reread) rfl ?_ rfl
    rw [Tail.negatesGroups, negation ihq]
    rfl
  | bareMembership _ _ ih | membership _ _ ih =>
    exact ih.tail (.membership _) rfl (Bool.and_true _).symm rfl
  | connection _ hright ihl ihr => exact ihl.connection ihr hright.readable_reread

/-- The tree that is read has the definition that was read just if each negation is still of its
group. -/
theorem Legible.definition_reread_iff {q : Filter} (h : q.Legible) :
    q.reread.definition = q.definition ↔ q.enclosesNegations = true := by
  rw [← h.bareText_reread, h.readable_reread.definition_eq_bareText_iff,
    h.rereadsNegations.negatesGroups]

end Filter

/-- The definition of a parsed tree is a fixpoint just if each of its comparisons is with one value or
with a negation, no negation stands right of `IN`, and no operator follows the text of a negation
that is not in parentheses with it. -/
theorem definition_fixpoint_iff {c : Config} {f : String} {q : Filter}
    (hc : c.numbers = .verbatim) (h : Filter.parse c f = .ok (some q)) :
    ∃ toks, Token.ofText q.definition = .ok toks ∧ ∀ c' : Config, c'.numbers = .verbatim →
      toks.dropLast.length ≤ c'.maxDepth →
      ((∃ p, Filter.parse c' q.definition = .ok (some p) ∧ p.definition = q.definition) ↔
        q.hasLegibleOperands = true ∧ q.enclosesNegations = true) := by
  have hq := grammatical_of_parse hc h
  obtain ⟨ts, hlex, -⟩ := hq.writable.spells 0
  refine ⟨_, Token.ofText_of_lexes hlex, fun c' hc' hdepth => ?_⟩
  rw [List.dropLast_concat] at hdepth
  have hreread (hlegible : q.Legible) :
      Filter.parse c' q.definition = .ok (some q.reread) := by
    obtain ⟨us, hus, hparse⟩ := hlegible.parse_eq_reread
    exact hparse c' hc' (hus.unique hlex ▸ hdepth)
  constructor
  -- a tree that is read with this definition shows that it is legible, and then is the one reread
  · rintro ⟨p, hp, heq⟩
    have hoperands := hasLegibleOperands_of_parse hc' hq hp heq
    have hlegible := hq.legible hoperands
    obtain rfl : q.reread = p := by simpa [hreread hlegible] using hp
    exact ⟨hoperands, hlegible.definition_reread_iff.mp heq⟩
  · rintro ⟨hoperands, hencloses⟩
    have hlegible := hq.legible hoperands
    exact ⟨_, hreread hlegible, hlegible.definition_reread_iff.mpr hencloses⟩

/-- Without its parentheses the list goes on after the value that is compared. -/
theorem definition_fixpoint_iff_list :
    let q : Filter := .comparison .equal (.name "a") (.values ["1", "2"])
    Filter.parse {} "a = (1, 2)" = .ok (some q) ∧ q.definition = "a = 1,2" ∧
      ¬ ∃ p, Filter.parse {} q.definition = .ok (some p) ∧ p.definition = q.definition := by
  intro q
  have hparse : Filter.parse {} "a = (1, 2)" = .ok (some q) := by rfl
  have hdef : q.definition = "a = 1,2" := by rfl
  obtain ⟨toks, htoks, hiff⟩ := definition_fixpoint_iff rfl hparse
  have hlength : (Token.ofText "a = 1,2").map (·.dropLast.length) = .ok 5 := by rfl
  rw [← hdef, htoks] at hlength
  have hdepth : toks.dropLast.length = 5 := by simpa [Except.map] using hlength
  have hoperands : q.hasLegibleOperands = false := by decide
  refine ⟨hparse, hdef, fun hfix => ?_⟩
  simpa [hoperands] using (hiff {} rfl (by simp [hdepth])).mp hfix

/-- After `a = NOT (b)` the connective goes on with the negation, though the comparison is a whole. -/
example : (Filter.connection .and (.comparison .equal (.name "a") (.negation (.group (.name "b"))))
    (.name "c")).enclosesNegations = false := by decide

end FilterLang
