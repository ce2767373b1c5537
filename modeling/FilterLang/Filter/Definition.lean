import FilterLang.Filter
import FilterLang.Token

/-! The text of a filter. Operators have no precedence, so a connective's operand is put in
parentheses just where reading the text again would give another tree: a finished comparison closes
the expression before it, while an expression that ends in an atom, a group or a negation takes the
operator after it for its own. -/

namespace FilterLang

namespace Filter

/-- A text that reads as one word or number stands bare, any other in quotes. There is no way to
write both kinds of quote in one text. -/
def atom (text : String) : String :=
  if text ≠ "" ∧ text.toList.all isWordChar ∧ (Operator.lookup text).isNone then text
  else if text.toList.contains '\'' then "\"" ++ text ++ "\""
  else "'" ++ text ++ "'"

def commaSeparated : List String → String
  | [] => ""
  | [t] => t
  | t :: ts => t ++ "," ++ commaSeparated ts

def parenthesized (text : String) : String := "(" ++ text ++ ")"

/-- Atoms and groups: an operator after one becomes the operator of its expression. -/
def isPrimary : Filter → Bool
  | name _ | value _ | values _ | group _ => true
  | _ => false

def isGroup : Filter → Bool
  | group _ => true
  | _ => false

/-- A right operand stays bare unless it is a connection that starts with more than a primary. -/
def rightNeedsGroup : Filter → Bool
  | connection _ left _ => !left.isPrimary
  | _ => false

/-- Whether the text ends in a finished comparison, so that an operator after it starts anew. -/
def endsWithComparison : Filter → Bool
  | comparison _ _ _ | membership _ _ => true
  | connection _ _ right => !right.rightNeedsGroup && right.endsWithComparison
  | _ => false

def leftNeedsGroup : Filter → Bool
  | negation _ => true
  | connection op left right => !(connection op left right).endsWithComparison
  | _ => false

mutual

def definition : Filter → String
  | name text => atom text
  | value text => atom text
  | values texts => commaSeparated (texts.map atom)
  | group inner => parenthesized inner.definition
  | negation operand =>
    Operator.negation.spelling ++ " " ++
      (if operand.isGroup then operand.definition else parenthesized operand.definition)
  | comparison op left right =>
    left.definition ++ " " ++ op.spelling ++ " " ++ right.definition
  | membership field among =>
    field.definition ++ " " ++ Relation.membership.spelling ++ " " ++
      parenthesized (commaSeparated (definitions among))
  | connection op left right =>
    (if left.leftNeedsGroup then parenthesized left.definition else left.definition) ++
      " " ++ op.spelling ++ " " ++
      (if right.rightNeedsGroup then parenthesized right.definition else right.definition)

def definitions : List Filter → List String
  | [] => []
  | q :: qs => q.definition :: definitions qs

end

theorem definitions_eq_map (qs : List Filter) : definitions qs = qs.map definition := by
  induction qs with
  | nil => rfl
  | cons q qs ih => simp [definitions, ih]

end Filter

end FilterLang
