import FilterLang.Filter.ParseState

/-! Reads filters: from a list of tokens, as often as asked, or from a text. -/

namespace FilterLang

structure Parser where
  config : Config
  tokens : List Token
  depth : Nat
  deriving DecidableEq

namespace Parser

def ofTokens (c : Config) (tokens : List Token) : Parser := ⟨c, tokens, 0⟩

def atEnd (p : Parser) : Bool :=
  match p.tokens with
  | [] => true
  | t :: _ => t.kind == .endOfInput

/-- The filter ahead, if there is anything ahead. Every level that was entered is left again. -/
def next (p : Parser) : Except ParseError (Option Filter) × Parser :=
  if p.atEnd then (.ok none, p)
  else
    let (result, rest) := (ParseState.start p.depth).run p.config p.tokens
    (result.map some, { p with tokens := rest })

theorem next_of_atEnd {p : Parser} (h : p.atEnd = true) : p.next = (.ok none, p) := by
  simp [next, h]

end Parser

namespace Filter

/-- The filter that a text denotes; a blank text denotes none. -/
def parse (c : Config) (text : String) : Except ParseError (Option Filter) :=
  match Token.ofText text with
  | .error e => .error (.openQuote e)
  | .ok tokens => (Parser.ofTokens c tokens).next.1

/-- Like `parse`, but a lenient configuration takes a malformed text for no filter. -/
def ofText (c : Config) (text : String) : Except ParseError (Option Filter) :=
  match parse c text with
  | .error e => if c.lenient then .ok none else .error e
  | .ok q => .ok q

end Filter

end FilterLang
