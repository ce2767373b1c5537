import FilterLang.Filter
import FilterLang.Literal

/-! Building filters without parsing: comparisons of a field with a value, combinations of
filters, and nodes from an operator and its operands. -/

namespace FilterLang

/-- An operator was given a number of operands that it does not bind. -/
structure ArityMismatch where
  spelling : String
  arity : Arity
  found : Nat
  deriving DecidableEq

namespace ArityMismatch

def message (e : ArityMismatch) : String :=
  "operator " ++ e.spelling ++ " expects " ++ e.arity.text ++ " operand(s), got " ++
    toString e.found

end ArityMismatch

namespace Filter

def compare (field : String) (op : Comparison) (v : Literal) : Filter :=
  comparison op (name field) (value v.write)

def isIn (field : String) (vs : List Literal) : Filter :=
  membership (name field) [values (vs.map Literal.write)]

def and (left right : Filter) : Filter := connection .and left right

def or (left right : Filter) : Filter := connection .or left right

def not (q : Filter) : Filter := negation q

def grouped (q : Filter) : Filter := group q

/-- The node of an operator over its operands. Their number is checked first, so that the node takes
all that there are. -/
def operation (o : Operator) (operands : List Filter) : Except ArityMismatch Filter :=
  let mismatch := .error ⟨o.spelling, o.arity, operands.length⟩
  if o.arity.accepts operands.length then
    match o, operands with
    | .negation, x :: _ => .ok (negation x)
    | .relation .membership, field :: among => .ok (membership field among)
    | .relation (.comparison op), left :: right :: _ => .ok (comparison op left right)
    | .connective op, left :: right :: _ => .ok (connection op left right)
    | _, _ => mismatch
  else mismatch

/-- The operator at the root; leaves and groups have none. -/
def operator? : Filter → Option Operator
  | name _ | value _ | values _ | group _ => none
  | negation _ => some .negation
  | comparison op _ _ => some (.relation (.comparison op))
  | membership _ _ => some (.relation .membership)
  | connection op _ _ => some (.connective op)

/-- The trees directly below the root, in the order of the text. -/
def operands : Filter → List Filter
  | name _ | value _ | values _ => []
  | group inner => [inner]
  | negation operand => [operand]
  | comparison _ left right => [left, right]
  | membership field among => field :: among
  | connection _ left right => [left, right]

inductive IsNode (x : Filter) : Filter → Prop
  | root : IsNode x x
  | child {y q} : IsNode x y → y ∈ q.operands → IsNode x q

def isConnection (op : Connective) : Filter → Bool
  | connection op' _ _ => op' == op
  | _ => false

/-- The terms that a chain of one connective joins, from left to right. Groups that hold only more
of the chain are looked through. -/
def terms (op : Connective) : Filter → List Filter
  | connection op' left right =>
    if op' = op then left.terms op ++ right.terms op else [connection op' left right]
  | group inner => if inner.isConnection op then inner.terms op else [group inner]
  | q => [q]

end Filter

end FilterLang
