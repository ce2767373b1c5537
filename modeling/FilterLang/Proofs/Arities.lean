import FilterLang.Proofs.Consistency
import Mathlib.Data.List.Basic

/-! A node is built from an operator and its operands, and both are read off the node again:
`operation_inverse`. Only the number of operands can be wrong, and a reader of filters never gets it
wrong: it asks the registry how many operands an operator binds and reads that many, or as many as
every operator of its kind binds. -/

namespace FilterLang

namespace Filter

variable {o : Operator} {xs : List Filter} {q : Filter}

theorem exists_operation (h : o.arity.accepts xs.length = true) :
    ∃ q, operation o xs = .ok q ∧ q.operator? = some o ∧ q.operands = xs := by
  cases o with
  | connective op =>
    obtain ⟨left, right, rfl⟩ := List.length_eq_two.mp (eq_of_beq h)
    exact ⟨_, rfl, rfl, rfl⟩
  | negation =>
    obtain ⟨x, rfl⟩ := List.length_eq_one_iff.mp (eq_of_beq h)
    exact ⟨_, rfl, rfl, rfl⟩
  | relation r =>
    cases r with
    | comparison op =>
      obtain ⟨left, right, rfl⟩ := List.length_eq_two.mp (eq_of_beq h)
      exact ⟨_, rfl, rfl, rfl⟩
    | membership =>
      match xs, of_decide_eq_true h with
      | field :: x :: among, _ => exact ⟨_, rfl, rfl, rfl⟩

theorem operation_eq_error (h : o.arity.accepts xs.length = false) :
    operation o xs = .error ⟨o.spelling, o.arity, xs.length⟩ :=
  if_neg (by simp [h])

theorem operation_eq_ok_iff : operation o xs = .ok q ↔
    q.operator? = some o ∧ q.operands = xs ∧ o.arity.accepts xs.length = true := by
  constructor
  · intro h
    by_cases haccepts : o.arity.accepts xs.length = true
    · obtain ⟨q', hq', ho, hxs⟩ := exists_operation haccepts
      obtain rfl : q' = q := by simpa [hq'] using h
      exact ⟨ho, hxs, haccepts⟩
    · rw [operation_eq_error (by simpa using haccepts)] at h
      cases h
  · rintro ⟨ho, rfl, haccepts⟩
    cases q with
    | name | value | values | group => cases ho
    | negation | comparison | connection =>
      cases ho
      rfl
    | membership field among =>
      cases ho
      exact if_pos haccepts

/-- A node has as many operands as its operator binds, but for a membership in nothing. -/
theorem accepts_length_operands (ho : q.operator? = some o) (hne : ∀ field, q ≠ membership field []) :
    o.arity.accepts q.operands.length = true := by
  cases q with
  | name | value | values | group => cases ho
  | negation | comparison | connection =>
    cases ho
    rfl
  | membership field among =>
    cases ho
    cases among with
    | nil => exact absurd rfl (hne field)
    | cons => simp [operands, Operator.arity, Arity.accepts]

end Filter

namespace Descent

/-- A reading that ends with success has a result with the property, and one that fails does so for
another reason than a number of operands. -/
def Makes {α : Type} (P : α → Prop) (m : Descent α) : Prop :=
  ∀ h, match (m h).1 with
    | .ok a => P a
    | .error e => ∀ mismatch, e ≠ .arity mismatch

abbrev Fits {α : Type} (m : Descent α) : Prop := Makes (fun _ => True) m

variable {α β : Type} {P : α → Prop} {Q : β → Prop} {c : Config} {tokens : List Token}

theorem makes_pure {a : α} (ha : P a) : Makes P (pure a) := fun _ => ha

theorem makes_throw {e : ParseError} (he : ∀ mismatch, e ≠ .arity mismatch) :
    Makes P (throw e : Descent α) := fun _ => he

theorem Makes.bind {m : Descent α} {f : α → Descent β} (hm : Makes P m)
    (hf : ∀ a, P a → Makes Q (f a)) : Makes Q (m >>= f) := by
  intro h
  have hresult := hm h
  rw [bind_apply]
  rcases hrun : m h with ⟨r, h'⟩
  rw [hrun] at hresult
  cases r with
  | error e => exact hresult
  | ok a => exact hf a hresult h'

theorem Makes.nested {inner : Descent α} (hinner : Makes P inner) : Makes P (nested c inner) := by
  intro h
  rw [nested_apply]
  split_ifs
  · simp
  · exact hinner _

theorem Makes.keepingDepth {inner : Descent α} (hinner : Makes P inner) :
    Makes P (keepingDepth inner) := by
  intro h
  rw [keepingDepth_apply]
  exact hinner h

theorem Makes.after_descend {f : Unit → Descent α} (hf : Makes P (f ())) :
    Makes P (descend c >>= f) := by
  intro h
  rw [descend_bind]
  split_ifs
  · simp
  · exact hf _

theorem fits_cursor : Fits cursor := fun _ => trivial

theorem fits_current : Fits (current tokens) := fun _ => trivial

theorem fits_rest : Fits (rest tokens) := fun _ => trivial

theorem fits_advance : Fits (advance tokens) := by
  intro h
  rw [advance_apply]
  trivial

theorem makes_unrecognized : Makes P (unrecognized tokens) := by
  refine fits_current.bind fun t _ => ?_
  split <;> exact makes_throw (by simp)

theorem fits_take (q : Filter) : Fits (take tokens q) :=
  fits_advance.bind fun _ _ => makes_pure trivial

theorem fits_symbols (text : String) (span : Span) (ahead : List Token) :
    Fits (symbols tokens text span ahead) := by
  induction ahead generalizing text span with
  | nil => exact makes_pure trivial
  | cons t ahead ih =>
    by_cases hsymbol : ∃ ch, t.kind = .symbol ch
    · obtain ⟨ch, hch⟩ := hsymbol
      rw [symbols_cons hch]
      split_ifs
      · exact makes_pure trivial
      · exact fits_advance.bind fun _ _ => ih _ _
    · rw [symbols_cons_of_ne (not_exists.mp hsymbol)]
      exact makes_pure trivial

theorem fits_symbolOperator : Fits (symbolOperator tokens) := by
  refine fits_current.bind fun t _ => fits_rest.bind fun ahead _ =>
    (fits_symbols _ _ _).bind fun ⟨text, span⟩ _ => ?_
  change Makes _ (if text = "" then unrecognized tokens else pure (text, span))
  split_ifs
  · exact makes_unrecognized
  · exact makes_pure trivial

/-- The only place where a number of operands can be wrong. -/
theorem fits_build {o : Operator} {xs : List Filter} (h : o.arity.accepts xs.length = true) :
    Fits (build o xs) := by
  obtain ⟨q, hq, -⟩ := Filter.exists_operation h
  rw [build, hq]
  exact makes_pure trivial

theorem fits_valueList (texts : List String) (ahead : List Token) :
    Fits (valueList c tokens texts ahead) := by
  induction ahead generalizing texts with
  | nil => exact makes_pure trivial
  | cons t ahead ih =>
    rw [valueList]
    split
    · exact makes_pure trivial
    · exact makes_pure trivial
    · exact fits_advance.bind fun _ _ => ih _
    · exact fits_advance.bind fun _ _ => ih _
    · exact fits_advance.bind fun _ _ => ih _
    · exact fits_advance.bind fun _ _ => ih _
    · exact makes_unrecognized

/-- What is read one level deeper fails for other reasons only. -/
structure Inside.Fits (i : Inside) : Prop where
  expression : Descent.Fits i.expression
  group : Descent.Fits i.group

variable {i : Inside}

theorem fits_enclosed (hi : i.Fits) (asField : Bool) :
    Fits (enclosed c tokens i asField) := by
  cases asField with
  | true => exact hi.group.bind fun _ _ => makes_pure trivial
  | false => exact fits_rest.bind fun _ _ => fits_valueList _ _

theorem fits_parenthesis (hi : i.Fits) (asField : Bool) :
    Fits (parenthesis c tokens i asField) := by
  refine fits_current.bind fun opening _ => fits_advance.bind fun _ _ => ?_
  refine (fits_enclosed hi asField).nested.bind fun q _ => fits_current.bind fun t _ => ?_
  split_ifs
  · exact fits_take q
  · exact makes_throw (by simp)

/-- A negation is given its one operand. -/
theorem fits_primary (hi : i.Fits) (asField : Bool) :
    Fits (primary c tokens i asField) := by
  refine fits_current.bind fun t _ => ?_
  split
  · exact fits_parenthesis hi asField
  · split
    · next o ho =>
      obtain rfl := eq_negation_of_lookupBefore ho
      exact fits_advance.bind fun _ _ =>
        (hi.expression.bind fun _ _ => fits_build rfl).nested
    · exact fits_take _
  · exact fits_take _
  · exact fits_take _
  · exact makes_unrecognized

theorem makes_values (hi : i.Fits) (n : Nat) :
    Makes (fun qs => qs.length = n) (values c tokens i n) := by
  induction n with
  | zero => exact makes_pure rfl
  | succ n ih =>
    exact (fits_primary hi false).bind fun q _ => ih.bind fun qs hqs =>
      makes_pure (congrArg (· + 1) hqs)

theorem one_le_least (o : Operator) : 1 ≤ o.arity.least := by
  cases o with
  | relation r => cases r <;> simp [Operator.arity, Arity.least]
  | connective | negation => simp [Operator.arity, Arity.least]

/-- With the operand on the left there are as many operands as the operator binds at least. -/
theorem fits_operation (hi : i.Fits) (left : Filter) (text : String) (span : Span) :
    Fits (operation c tokens i left text span) := by
  unfold operation
  split
  · exact makes_throw (by simp)
  · next o _ =>
    split_ifs with hexpression
    · have harity : o.arity = .exactly 2 := by
        cases o with
        | connective op => rfl
        | relation | negation => cases hexpression
      exact hi.expression.nested.bind fun right _ => fits_build (by rw [harity]; rfl)
    · refine (makes_values hi _).bind fun others hothers => fits_build ?_
      have hcount : (left :: others).length = o.arity.least := by
        rw [List.length_cons, hothers]
        exact Nat.sub_add_cancel (one_le_least o)
      rw [hcount]
      exact o.arity.accepts_least

theorem fits_continuation (hi : i.Fits) (left : Filter) :
    Fits (continuation c tokens i left) := by
  refine fits_current.bind fun t _ => ?_
  split
  · exact fits_advance.bind fun _ _ => fits_operation hi _ _ _
  · exact makes_pure trivial
  · exact makes_pure trivial
  · exact makes_pure trivial
  · exact fits_symbolOperator.bind fun ⟨text, span⟩ _ => fits_operation hi _ _ _

theorem fits_expression (hi : i.Fits) : Fits (expression c tokens i) :=
  (fits_primary hi true).bind fun q _ => fits_continuation hi q

/-- Both at once, by induction on the levels that are left. -/
theorem fits_inside_chain (levels : Nat) : (inside c tokens levels).Fits ∧
    ∀ inGroup left, Fits (chain c tokens levels inGroup left) := by
  induction levels with
  | zero =>
    refine ⟨⟨makes_throw (by simp), makes_throw (by simp)⟩, fun inGroup left => ?_⟩
    unfold chain
    refine fits_current.bind fun t _ => ?_
    split_ifs
    · exact makes_pure trivial
    · exact .after_descend (fits_cursor.bind fun _ _ => makes_throw (by simp))
  | succ levels ih =>
    obtain ⟨hi, hchain⟩ := ih
    refine ⟨⟨fits_expression hi, ?_⟩, fun inGroup left => ?_⟩
    · exact (fits_expression hi).bind fun first _ => (hchain true first).keepingDepth
    · unfold chain
      refine fits_current.bind fun t _ => ?_
      split_ifs
      · exact makes_pure trivial
      · refine .after_descend (fits_cursor.bind fun start _ => ?_)
        refine (fits_continuation hi left).bind fun q _ => fits_cursor.bind fun v _ => ?_
        split_ifs
        · exact makes_unrecognized
        · exact hchain _ _

theorem fits_whole (levels : Nat) : Fits (whole c tokens levels) := by
  obtain ⟨hi, hchain⟩ : (inside c tokens levels).Fits ∧ _ := fits_inside_chain levels
  exact (fits_expression hi).bind fun first _ => (hchain false first).keepingDepth

theorem fits_next : Fits (next c tokens) := by
  refine fits_current.bind fun t _ => ?_
  split_ifs
  · exact makes_pure trivial
  · exact fits_cursor.bind fun _ _ => (fits_whole _).bind fun _ _ => makes_pure trivial

end Descent

/-- No call of a reader finds a wrong number of operands, whatever the tokens are. -/
theorem Parser.next_after_ne_arity (c : Config) (tokens : List Token) (n : Nat)
    (mismatch : ArityMismatch) :
    ((Parser.ofTokens c tokens).after n).next.1 ≠ .error (.arity mismatch) := by
  rw [← Descent.answer_eq]
  intro h
  have hfits : Descent.Fits (Descent.next c tokens) := Descent.fits_next
  have hresult := hfits (Descent.trail c tokens n)
  rw [Descent.answer] at h
  rw [h] at hresult
  exact hresult mismatch rfl

namespace Filter

/-- An operator and operands make a node just if the arity of the operator accepts their number, and
the error tells the spelling, the arity and the number otherwise. The node has this operator and these
operands, and is made of them again, unless it is a membership with nothing to be among. So a reader
of filters never meets the error. -/
theorem operation_inverse :
    (∀ o xs, (∃ q, operation o xs = .ok q) ↔ o.arity.accepts xs.length = true) ∧
    (∀ o xs, o.arity.accepts xs.length = false →
      operation o xs = .error ⟨o.spelling, o.arity, xs.length⟩) ∧
    (∀ o xs q, operation o xs = .ok q → q.operator? = some o ∧ q.operands = xs) ∧
    (∀ o q, q.operator? = some o → (∀ field, q ≠ membership field []) →
      operation o q.operands = .ok q) ∧
    ∀ c tokens n mismatch,
      ((Parser.ofTokens c tokens).after n).next.1 ≠ .error (.arity mismatch) := by
  refine ⟨fun o xs => ⟨?_, fun h => ?_⟩, fun _ _ => operation_eq_error, fun o xs q h => ?_,
    fun o q ho hne => operation_eq_ok_iff.mpr ⟨ho, rfl, accepts_length_operands ho hne⟩,
    Parser.next_after_ne_arity⟩
  · rintro ⟨q, hq⟩
    exact (operation_eq_ok_iff.mp hq).2.2
  · obtain ⟨q, hq, -⟩ := exists_operation h
    exact ⟨q, hq⟩
  · obtain ⟨ho, hxs, -⟩ := operation_eq_ok_iff.mp h
    exact ⟨ho, hxs⟩

/-- A comparison binds two operands, not three. -/
theorem operation_inverse_like :
    operation (.relation (.comparison .like)) [name "a", value "b", value "c"] =
        .error ⟨"LIKE", .exactly 2, 3⟩ ∧
      (ArityMismatch.mk "LIKE" (.exactly 2) 3).message =
        "operator LIKE expects 2 operand(s), got 3" := by
  obtain ⟨-, herror, -⟩ := operation_inverse
  exact ⟨herror _ _ rfl, rfl⟩

end Filter

end FilterLang
