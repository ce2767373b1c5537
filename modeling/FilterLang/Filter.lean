import FilterLang.Operator

/-! Filter expressions as trees. A tree is a plain value: combining trees builds a new one and
changes none. -/

namespace FilterLang

inductive Filter
  /-- A reference to a field. -/
  | name (text : String)
  /-- A single value, as text. -/
  | value (text : String)
  /-- The values in parentheses that stand right of `IN`. -/
  | values (texts : List String)
  /-- An expression in parentheses. -/
  | group (inner : Filter)
  | negation (operand : Filter)
  | comparison (op : Comparison) (left right : Filter)
  /-- A field and any number of operands for it to be among, often one list of values. -/
  | membership (field : Filter) (among : List Filter)
  | connection (op : Connective) (left right : Filter)

namespace Filter

mutual

def same : Filter → Filter → Bool
  | name s, name t => s == t
  | value s, value t => s == t
  | values s, values t => s == t
  | group x, group y => same x y
  | negation x, negation y => same x y
  | comparison p x y, comparison q z w => p == q && same x z && same y w
  | membership x xs, membership y ys => same x y && sameAll xs ys
  | connection p x y, connection q z w => p == q && same x z && same y w
  | _, _ => false

def sameAll : List Filter → List Filter → Bool
  | [], [] => true
  | x :: xs, y :: ys => same x y && sameAll xs ys
  | _, _ => false

end

mutual

theorem same_iff (a b : Filter) : same a b = true ↔ a = b := by
  cases a with
  | name s => cases b <;> simp [same]
  | value s => cases b <;> simp [same]
  | values s => cases b <;> simp [same]
  | group x =>
    have := same_iff x
    cases b <;> simp [same, *]
  | negation x =>
    have := same_iff x
    cases b <;> simp [same, *]
  | comparison p x y =>
    have := same_iff x
    have := same_iff y
    cases b <;> simp [same, *, and_assoc]
  | membership x xs =>
    have := same_iff x
    have := sameAll_iff xs
    cases b <;> simp [same, *]
  | connection p x y =>
    have := same_iff x
    have := same_iff y
    cases b <;> simp [same, *, and_assoc]

theorem sameAll_iff (xs ys : List Filter) : sameAll xs ys = true ↔ xs = ys := by
  cases xs with
  | nil => cases ys <;> simp [sameAll]
  | cons x xs =>
    have := same_iff x
    have := sameAll_iff xs
    cases ys <;> simp [sameAll, *]

end

instance : DecidableEq Filter := fun a b => decidable_of_iff _ (same_iff a b)

end Filter

end FilterLang
