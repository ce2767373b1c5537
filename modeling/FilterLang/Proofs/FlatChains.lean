import FilterLang.Proofs.Comparisons

/-! Chains that are written without parentheses: `parse_flatText`. Comparisons that connectives join
one after another make a tree that grows to the left, names one that grows to the right. Both are
written flat and are read back just as they were, if there are levels enough: one for each
comparison of a chain, for a step of the chain takes one and its right operand another, but only one
for each connective between names. -/

namespace FilterLang

open ParseState

namespace Filter

inductive FieldComparison : Filter → Prop
  | compare {n op v} : Quotable n → ¬ LexesAsNumber n → Quotable v.write →
      FieldComparison (Filter.compare n op v)

inductive FieldName : Filter → Prop
  | name {n} : Quotable n → ¬ LexesAsNumber n → FieldName (name n)

/-- Each step connects the whole tree so far with one more operand. -/
def growLeft (q : Filter) : List (Connective × Filter) → Filter
  | [] => q
  | (op, right) :: steps => (connection op q right).growLeft steps

/-- Each step connects the last operand with one more. -/
def growRight (q : Filter) : List (Connective × Filter) → Filter
  | [] => q
  | (op, right) :: steps => connection op q (right.growRight steps)

def stepsText : List (Connective × Filter) → String
  | [] => ""
  | (op, right) :: steps =>
    " " ++ (Operator.connective op).spelling ++ " " ++ right.definition ++ stepsText steps

def flatText (q : Filter) (steps : List (Connective × Filter)) : String :=
  q.definition ++ stepsText steps

variable {q right : Filter} {op : Connective} {steps : List (Connective × Filter)}

theorem FieldComparison.endsWithComparison (h : q.FieldComparison) :
    q.endsWithComparison = true := by
  cases h
  rfl

theorem FieldComparison.rightNeedsGroup (h : q.FieldComparison) : q.rightNeedsGroup = false := by
  cases h
  rfl

theorem FieldComparison.textReads (h : q.FieldComparison) :
    TextReads .expression 0 q.definition q fun _ => True := by
  cases h with
  | @compare n op v hn hnumber hv =>
    have hread := textReads_compare hn hv op
    rwa [(comparison_fieldLeaf_eq_iff op).mpr hnumber] at hread

theorem FieldName.textReads (h : q.FieldName) :
    TextReads .primary 0 q.definition q fun _ => True := by
  cases h with
  | @name n hn hnumber =>
    have hread := textReads_leaf hn 0
    rwa [fieldLeaf_of_not_number hnumber] at hread

theorem definition_growLeft (hq : q.endsWithComparison = true)
    (hsteps : ∀ s ∈ steps, s.2.FieldComparison) :
    (q.growLeft steps).definition = q.flatText steps := by
  induction steps generalizing q with
  | nil => simp [growLeft, flatText, stepsText]
  | cons s steps ih =>
    obtain ⟨op, right⟩ := s
    obtain ⟨hright, hsteps⟩ := List.forall_mem_cons.mp hsteps
    have hends : (connection op q right).endsWithComparison = true := by
      simp [Filter.endsWithComparison, hright.endsWithComparison, hright.rightNeedsGroup]
    rw [growLeft, ih hends hsteps, flatText, flatText, stepsText,
      definition_connection (leftNeedsGroup_eq_false (.inr hq)) hright.rightNeedsGroup]
    simp only [String.append_assoc]

theorem rightNeedsGroup_growRight (hq : q.FieldName) :
    (q.growRight steps).rightNeedsGroup = false := by
  cases hq
  cases steps <;> rfl

theorem definition_growRight (hq : q.FieldName) (hsteps : ∀ s ∈ steps, s.2.FieldName) :
    (q.growRight steps).definition = q.flatText steps := by
  induction steps generalizing q with
  | nil => simp [growRight, flatText, stepsText]
  | cons s steps ih =>
    obtain ⟨op, right⟩ := s
    obtain ⟨hright, hsteps⟩ := List.forall_mem_cons.mp hsteps
    have hleft : q.leftNeedsGroup = false := by
      cases hq
      rfl
    rw [growRight, definition_connection hleft (rightNeedsGroup_growRight hright),
      ih hright hsteps, flatText, flatText, stepsText]
    simp only [String.append_assoc]

theorem endsWord_stepsText : ∀ steps, EndsWord (stepsText steps).toList
  | [] => endsWord_nil
  | (op, right) :: steps => by
    have hspace : (stepsText ((op, right) :: steps)).toList =
        ' ' :: ((Operator.connective op).spelling ++ " " ++ right.definition ++
          stepsText steps).toList := by
      simp [stepsText]
    rw [hspace]
    exact endsWord_cons.mpr (by decide)

/-- A step is a connective, an operand and the steps after it. -/
theorem exists_lexes_step {p : Phrase} {P : List Token → Prop} (op : Connective)
    (hright : TextReads p 0 right.definition right fun _ => True)
    (hsteps : ∀ k, ∃ ts, Lexes k (stepsText steps).toList ts ∧ P ts) (k : Nat) :
    ∃ os us ts, Lexes k (stepsText ((op, right) :: steps)).toList (os ++ (us ++ ts)) ∧
      (∀ rest, Spelled (.connective op) (os ++ rest) rest) ∧
      (∀ rest, Derives .verbatim p 0 (us ++ rest) right rest) ∧ P ts := by
  obtain ⟨os, hos, ho⟩ := exists_lexes_spelling (.connective op) (k + 1)
  obtain ⟨us, hus, hread⟩ :=
    hright (k + 1 + utf8Length (Operator.connective op).spelling.toList + 1)
  obtain ⟨ts, hts, hP⟩ := hsteps _
  have hwhole := hos.spaced (hus.append (.inl (endsWord_stepsText steps)) hts)
  refine ⟨os, us, ts, ?_, fun rest => ho rest (.of_word rfl rest), fun rest => hread rest trivial,
    hP⟩
  have hblank := Lexes.blank (c := ' ') (by decide) hwhole
  simpa [stepsText] using hblank

variable {c : Config}

/-- After a finished expression each step takes a level, and its right operand one more. -/
theorem exists_lexes_growLeft (hc : c.numbers = .verbatim)
    (hsteps : ∀ s ∈ steps, s.2.FieldComparison) (k : Nat) :
    ∃ ts, Lexes k (stepsText steps).toList ts ∧ ∀ q depth,
      outcome c ⟨.chain q, [], [], depth⟩ ts =
        if steps = [] ∨ depth + steps.length + 1 ≤ c.maxDepth then .ok (q.growLeft steps)
        else .error (.tooDeep c.maxDepth) := by
  induction steps generalizing k with
  | nil => exact ⟨[], .nil, fun q depth => by rw [if_pos (.inl rfl)]; rfl⟩
  | cons s steps ih =>
    obtain ⟨op, right⟩ := s
    obtain ⟨hright, hsteps⟩ := List.forall_mem_cons.mp hsteps
    obtain ⟨os, us, ts, hlex, ho, hread, hts⟩ := exists_lexes_step op hright.textReads (ih hsteps) k
    refine ⟨_, hlex, fun q depth => ?_⟩
    rw [outcome_chain_spelled (ho _), afterOperator]
    by_cases hstep : c.maxDepth ≤ depth + 1
    · have hdeep : ¬ ((op, right) :: steps = [] ∨
          depth + ((op, right) :: steps).length + 1 ≤ c.maxDepth) := by
        simp only [List.length_cons, reduceCtorEq, false_or]
        omega
      rw [if_neg hdeep]
      split_ifs <;> rfl
    · have hoperand := (hc ▸ hread ts : Derives c.numbers .expression 0 (us ++ ts) right ts).readsAs
        [.connection op q] [] (depth + 1 + 1) (by omega)
      have hlevels : steps = [] ∨ depth + 1 + steps.length + 1 ≤ c.maxDepth ↔
          (op, right) :: steps = [] ∨ depth + ((op, right) :: steps).length + 1 ≤ c.maxDepth := by
        cases steps with
        | nil =>
          simp only [List.length_cons, List.length_nil, true_or, reduceCtorEq, false_or, true_iff]
          omega
        | cons s' steps =>
          simp only [List.length_cons, reduceCtorEq, false_or]
          omega
      rw [if_neg (by omega), if_neg hstep, hoperand]
      have hrest := hts (connection op q right) (depth + 1)
      simp only [hlevels] at hrest
      exact hrest

/-- After a primary each connective takes a level, which is left only where the whole tree ends. -/
theorem exists_lexes_growRight (hc : c.numbers = .verbatim) (hsteps : ∀ s ∈ steps, s.2.FieldName)
    (k : Nat) :
    ∃ ts, Lexes k (stepsText steps).toList ts ∧ ∀ q frames depth, depth ≤ c.maxDepth →
      outcome c ⟨.operator q, frames, [], depth⟩ ts =
        if depth + steps.length ≤ c.maxDepth then .ok (wrapped (q.growRight steps) frames)
        else .error (.tooDeep c.maxDepth) := by
  induction steps generalizing k with
  | nil =>
    refine ⟨[], .nil, fun q frames depth hdepth => ?_⟩
    rw [if_pos (by simpa using hdepth), outcome_nil, readEnd, close]
    simp only [finishExpression_eq]
    rfl
  | cons s steps ih =>
    obtain ⟨op, right⟩ := s
    obtain ⟨hright, hsteps⟩ := List.forall_mem_cons.mp hsteps
    obtain ⟨os, us, ts, hlex, ho, hread, hts⟩ := exists_lexes_step op hright.textReads (ih hsteps) k
    refine ⟨_, hlex, fun q frames depth hdepth => ?_⟩
    rw [outcome_operator_spelled (ho _), afterOperator]
    by_cases hstep : c.maxDepth ≤ depth
    · rw [if_pos hstep, if_neg (by simp only [List.length_cons]; omega)]
    · have hoperand := (hc ▸ hread ts : Derives c.numbers .primary 0 (us ++ ts) right ts).readsAs
        (.connection op q :: frames) [] (depth + 1) (by omega)
      have hlevels : depth + ((op, right) :: steps).length = depth + 1 + steps.length := by
        simp only [List.length_cons]
        omega
      rw [if_neg hstep, hoperand, hlevels]
      exact hts right (.connection op q :: frames) (depth + 1) (by omega)

theorem parse_flatText_eq {p : Phrase} {ts : List Token} {s : ParseState}
    (hc : c.numbers = .verbatim) (hq : TextReads p 0 q.definition q fun _ => True)
    (hp : p.least = 1) (hlex : Lexes (utf8Length q.definition.toList) (stepsText steps).toList ts)
    (hs : ∀ us, Derives c.numbers p 0 (us ++ ts) q ts →
      outcome c (start 0) (us ++ ts) = outcome c s ts) :
    parse c (q.flatText steps) = (outcome c s ts).map some := by
  obtain ⟨us, hus, hread⟩ := hq 0
  have hder := hread ts trivial
  have hwhole := hus.append (.inl (endsWord_stepsText steps)) (by rwa [Nat.zero_add])
  have hne : us ++ ts ≠ [] := by
    intro hnil
    have hle := hder.length_le
    rw [hp, hnil, List.length_nil] at hle
    omega
  rw [parse_of_lexes (by simpa [flatText] using hwhole), if_neg hne, hs us (hc ▸ hder)]

end Filter

open FilterLang.Filter

/-- Comparisons that connectives join make a tree that grows to the left, names one that grows to
the right. Both are written without parentheses and read back, unless the levels do not suffice: `n`
comparisons take `n` levels, if there are more than one, and `n` names one level less. -/
theorem parse_flatText {c : Config} (hc : c.numbers = .verbatim) (q : Filter)
    (steps : List (Connective × Filter)) :
    (q.FieldComparison → (∀ s ∈ steps, s.2.FieldComparison) →
      (q.growLeft steps).definition = q.flatText steps ∧
      parse c (q.flatText steps) =
        if steps = [] ∨ steps.length + 1 ≤ c.maxDepth then .ok (some (q.growLeft steps))
        else .error (.tooDeep c.maxDepth)) ∧
    (q.FieldName → (∀ s ∈ steps, s.2.FieldName) →
      (q.growRight steps).definition = q.flatText steps ∧
      parse c (q.flatText steps) =
        if steps.length ≤ c.maxDepth then .ok (some (q.growRight steps))
        else .error (.tooDeep c.maxDepth)) := by
  constructor
  · intro hq hsteps
    refine ⟨definition_growLeft hq.endsWithComparison hsteps, ?_⟩
    obtain ⟨ts, hlex, hts⟩ := exists_lexes_growLeft hc hsteps (utf8Length q.definition.toList)
    have hparse := parse_flatText_eq (s := ⟨.chain q, [], [], 0⟩) hc hq.textReads rfl hlex
      fun us hder => hder.readsAs [] [] 0 (Nat.zero_le _)
    rw [hparse, hts, Nat.zero_add]
    split_ifs <;> rfl
  · intro hq hsteps
    refine ⟨definition_growRight hq hsteps, ?_⟩
    obtain ⟨ts, hlex, hts⟩ := exists_lexes_growRight hc hsteps (utf8Length q.definition.toList)
    have hparse := parse_flatText_eq (s := ⟨.operator q, [], [], 0⟩) hc hq.textReads rfl hlex
      fun us hder => hder.readsAs [] [] 0 (Nat.zero_le _)
    rw [hparse, hts _ _ _ (Nat.zero_le _), Nat.zero_add]
    split_ifs <;> rfl

/-- Two levels are enough for three names, but not for three comparisons. -/
theorem parse_flatText_two_levels :
    let c : Config := { maxDepth := 2 }
    let steps := [(.and, Filter.compare "b" .like (.text "x y")),
      (.or, Filter.compare "AND" .equal (.text ""))]
    let names := [(.and, name "b"), (.or, name "c d")]
    (Filter.compare "a" .equal (.text "1")).flatText steps =
        "a = 1 AND b LIKE 'x y' OR 'AND' = ''" ∧
      parse c "a = 1 AND b LIKE 'x y' OR 'AND' = ''" = .error (.tooDeep 2) ∧
      (name "a").flatText names = "a AND b OR 'c d'" ∧
      parse c "a AND b OR 'c d'" = .ok (some ((name "a").growRight names)) := by
  intro c steps names
  have hcompare {n : String} {op : Comparison} {text : String}
      (hnumber : startsNumeric n.toList = false) (hn : Quotable n) (htext : Quotable text) :
      (Filter.compare n op (.text text)).FieldComparison :=
    .compare hn (not_lexesAsNumber hnumber) htext
  have hname {n : String} (hnumber : startsNumeric n.toList = false) (hn : Quotable n) :
      (name n).FieldName := .name hn (not_lexesAsNumber hnumber)
  have hsteps : ∀ s ∈ steps, s.2.FieldComparison :=
    List.forall_mem_cons.mpr ⟨hcompare rfl (by decide) (by decide),
      List.forall_mem_singleton.mpr (hcompare rfl (by decide) (by decide))⟩
  have hnames : ∀ s ∈ names, s.2.FieldName :=
    List.forall_mem_cons.mpr ⟨hname rfl (by decide),
      List.forall_mem_singleton.mpr (hname rfl (by decide))⟩
  have hfirst : (Filter.compare "a" .equal (.text "1")).FieldComparison :=
    hcompare rfl (by decide) (by decide)
  have hfirst' : (name "a").FieldName := hname rfl (by decide)
  have hparse := ((parse_flatText (c := c) rfl _ steps).1 hfirst hsteps).2
  have hparse' := ((parse_flatText (c := c) rfl _ names).2 hfirst' hnames).2
  have htext : (Filter.compare "a" .equal (.text "1")).flatText steps =
      "a = 1 AND b LIKE 'x y' OR 'AND' = ''" := by rfl
  have htext' : (name "a").flatText names = "a AND b OR 'c d'" := by rfl
  exact ⟨htext, htext ▸ hparse, htext', htext' ▸ hparse'⟩

end FilterLang
