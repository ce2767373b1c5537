import FilterLang.Filter.Build
import FilterLang.Token.Scanner

/-! Why a text is not a filter. The first fault decides; nothing is recovered. -/

namespace FilterLang

inductive ParseError
  | openQuote (e : OpenQuote)
  | unrecognizedToken (text : String) (span : Span)
  | unexpectedEnd
  /-- A parenthesis that is never closed, with its place. -/
  | missingParen (opening : Span)
  | unknownOperator (text : String) (span : Span)
  | arity (e : ArityMismatch)
  | tooDeep (limit : Nat)
  deriving DecidableEq

namespace ParseError

def message : ParseError → String
  | openQuote e => e.message
  | unrecognizedToken text span => "unrecognized token '" ++ text ++ "' at " ++ span.text
  | unexpectedEnd => "unexpected end of filter"
  | missingParen opening => ") expected to close parenthesis opened at " ++ opening.text
  | unknownOperator text span => "unknown operator '" ++ text ++ "' at " ++ span.text
  | arity e => "cannot build operator node: " ++ e.message
  | tooDeep limit => "filter nests deeper than " ++ toString limit ++ " levels"

/-- The place in the text that the error is about, if it is about one. -/
def span? : ParseError → Option Span
  | openQuote e => some e.span
  | unrecognizedToken _ span => some span
  | missingParen opening => some opening
  | unknownOperator _ span => some span
  | unexpectedEnd | arity _ | tooDeep _ => none

end ParseError

end FilterLang
