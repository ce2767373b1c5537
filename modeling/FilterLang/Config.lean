import FilterLang.Decimal.Layout

/-! What a reader of filters can be told. -/

namespace FilterLang

/-- How a number in a filter becomes the text of a value. -/
inductive NumberText
  /-- As it was written. -/
  | verbatim
  /-- As its floating-point value, in the canonical layout. -/
  | normalized
  deriving DecidableEq

namespace NumberText

def write : NumberText → String → Binary → String
  | verbatim, text, _ => text
  | normalized, _, x => x.text .canonical .double

end NumberText

structure Config where
  /-- Whether a malformed filter counts as no filter. -/
  lenient : Bool := false
  /-- How deep a filter may nest. Parentheses, `NOT`, the right operand of a connective and each
  operator after a finished comparison take one level each. -/
  maxDepth : Nat := 256
  numbers : NumberText := .verbatim
  deriving DecidableEq

namespace Config

def permissive : Config := { lenient := true }

end Config

end FilterLang
