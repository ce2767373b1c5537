/-! The operators of the filter language: how each is spelled, how many operands it binds and
what its right operand is. Spellings are matched exactly, so `and` is not an operator. -/

namespace FilterLang

/-- How many operands an operator binds. -/
inductive Arity
  | exactly (n : Nat)
  | atLeast (n : Nat)
  deriving DecidableEq

namespace Arity

/-- The least number of operands that is accepted. -/
def least : Arity → Nat
  | exactly n => n
  | atLeast n => n

def accepts : Arity → Nat → Bool
  | exactly n, count => count == n
  | atLeast n, count => n ≤ count

def text : Arity → String
  | exactly n => toString n
  | atLeast n => "at least " ++ toString n

theorem accepts_least (a : Arity) : a.accepts a.least = true := by
  cases a <;> simp [accepts, least]

end Arity

/-- Joins two expressions. -/
inductive Connective
  | and
  | or
  deriving DecidableEq

inductive Comparison
  | equal
  | notEqual
  | greater
  | greaterOrEqual
  | lower
  | lowerOrEqual
  | like
  deriving DecidableEq

/-- Holds between a field and a value. -/
inductive Relation
  | comparison (c : Comparison)
  | membership
  deriving DecidableEq

inductive Operator
  | connective (c : Connective)
  | relation (r : Relation)
  | negation
  deriving DecidableEq

namespace Connective

def spelling : Connective → String
  | and => "AND"
  | or => "OR"

def kind : Connective → String
  | and => "And"
  | or => "Or"

end Connective

namespace Comparison

def spelling : Comparison → String
  | equal => "="
  | notEqual => "<>"
  | greater => ">"
  | greaterOrEqual => ">="
  | lower => "<"
  | lowerOrEqual => "<="
  | like => "LIKE"

def kind : Comparison → String
  | equal => "EqualTo"
  | notEqual => "NotEqualTo"
  | greater => "GreaterThan"
  | greaterOrEqual => "GreaterOrEqualThan"
  | lower => "LowerThan"
  | lowerOrEqual => "LowerOrEqualThan"
  | like => "Like"

end Comparison

namespace Relation

def spelling : Relation → String
  | comparison c => c.spelling
  | membership => "IN"

def kind : Relation → String
  | comparison c => c.kind
  | membership => "In"

end Relation

namespace Operator

def spelling : Operator → String
  | connective c => c.spelling
  | relation r => r.spelling
  | negation => "NOT"

/-- The name of the operator in words, as one word. -/
def kind : Operator → String
  | connective c => c.kind
  | relation r => r.kind
  | negation => "Not"

/-- The name for people: the kind, then the spelling in parentheses. -/
def title (o : Operator) : String := o.kind ++ " (" ++ o.spelling ++ ")"

def arity : Operator → Arity
  | connective _ => .exactly 2
  | relation (.comparison _) => .exactly 2
  | relation .membership => .atLeast 2
  | negation => .exactly 1

/-- Whether the right operand is a whole expression and not a single value. -/
def takesExpression : Operator → Bool
  | connective _ => true
  | _ => false

/-- Whether the operator may stand before a field. -/
def standsBefore : Operator → Bool
  | negation => true
  | _ => false

/-- Every operator once, in the order in which a spelling is looked up. -/
def all : List Operator :=
  [connective .and, relation (.comparison .equal), relation (.comparison .greaterOrEqual),
    relation (.comparison .greater), relation .membership, relation (.comparison .like),
    relation (.comparison .lowerOrEqual), relation (.comparison .lower),
    relation (.comparison .notEqual), negation, connective .or]

def lookup (spelling : String) : Option Operator :=
  all.find? (·.spelling == spelling)

/-- The operator of this spelling, if it may stand before a field. -/
def lookupBefore (spelling : String) : Option Operator :=
  (lookup spelling).filter standsBefore

theorem mem_all (o : Operator) : o ∈ all := by
  match o with
  | connective c => cases c <;> decide
  | relation (.comparison c) => cases c <;> decide
  | relation .membership => decide
  | negation => decide

theorem lookup_spelling (o : Operator) : lookup o.spelling = some o := by
  match o with
  | connective c => cases c <;> decide
  | relation (.comparison c) => cases c <;> decide
  | relation .membership => decide
  | negation => decide

theorem lookup_eq_some_iff {s : String} {o : Operator} : lookup s = some o ↔ s = o.spelling := by
  constructor
  · intro h
    have : o.spelling = s := by simpa using List.find?_some h
    exact this.symm
  · rintro rfl
    exact lookup_spelling o

end Operator

end FilterLang
