import FilterLang.Decimal
import FilterLang.Token

/-! Splits a filter text into tokens, one character at a time. Between tokens blanks are skipped;
a word goes on while word characters come, a quoted text until its own delimiter comes again. Only
a quoted text can fail to end. -/

namespace FilterLang

/-- A quoted text that is never closed: its delimiter, and the span from there to the end. -/
structure OpenQuote where
  delimiter : Char
  span : Span
  deriving DecidableEq

namespace OpenQuote

def message (e : OpenQuote) : String :=
  "unterminated string starting with " ++ e.delimiter.toString ++ " at " ++ e.span.text

end OpenQuote

/-- Whether a word looks like a number: a digit, or a minus sign or point before a digit. -/
def startsNumeric : List Char → Bool
  | '-' :: c :: _ => c.isDigit
  | '.' :: c :: _ => c.isDigit
  | c :: _ => c.isDigit
  | [] => false

/-- The value of a word that is a number, if it is one and is not too large. -/
def numberValue? (word : String) : Option Binary :=
  if startsNumeric word.toList then (Binary.read? .double word).filter Binary.isFinite else none

namespace TokenKind

def ofWord (text : String) : TokenKind :=
  match numberValue? text with
  | some value => number text value
  | none => word text

def ofSingle (c : Char) : TokenKind :=
  if c = '(' then openParen
  else if c = ')' then closeParen
  else if c = ',' then comma
  else symbol c

end TokenKind

inductive Pending
  | nothing
  | word (start : Nat) (text : String)
  | quoted (start : Nat) (delimiter : Char) (text : String)
  deriving DecidableEq

structure Scanner where
  position : Nat
  pending : Pending
  tokens : Array Token
  deriving DecidableEq

namespace Scanner

def start : Scanner := ⟨0, .nothing, #[]⟩

def emit (s : Scanner) (kind : TokenKind) (first last : Nat) : Scanner :=
  { s with tokens := s.tokens.push ⟨kind, first, last⟩ }

def endWord (s : Scanner) : Scanner :=
  match s.pending with
  | .word first text => { s.emit (.ofWord text) first s.position with pending := .nothing }
  | _ => s

def readFirst (s : Scanner) (c : Char) : Scanner :=
  if isBlank c then s
  else if isQuote c then { s with pending := .quoted s.position c "" }
  else if isWordChar c then { s with pending := .word s.position c.toString }
  else s.emit (.ofSingle c) s.position (s.position + c.utf8Size)

def advance (s : Scanner) (c : Char) : Scanner :=
  { s with position := s.position + c.utf8Size }

def read (s : Scanner) (c : Char) : Scanner :=
  match s.pending with
  | .nothing => (s.readFirst c).advance c
  | .word first text =>
    if isWordChar c then { s with pending := .word first (text.push c) }.advance c
    else (s.endWord.readFirst c).advance c
  | .quoted first delimiter text =>
    if c = delimiter then
      { s.emit (.quoted delimiter text) first (s.position + c.utf8Size) with
        pending := .nothing }.advance c
    else { s with pending := .quoted first delimiter (text.push c) }.advance c

/-- The quoted text that is still open at the end. -/
def openQuote? (s : Scanner) : Option OpenQuote :=
  match s.pending with
  | .quoted first delimiter _ => some ⟨delimiter, first, s.position⟩
  | _ => none

def ofText (text : String) : Scanner := (text.toList.foldl read start).endWord

end Scanner

inductive Delivery
  | token (t : Token)
  | openQuote (e : OpenQuote)
  | nothing
  deriving DecidableEq

namespace Delivery

/-- What the next request gives and what is ahead then; after the last delivery comes nothing, for
good. -/
def next : List Delivery → Delivery × List Delivery
  | [] => (nothing, [])
  | d :: ahead => (d, ahead)

end Delivery

namespace Token

/-- The tokens of a text, closed by a token for its end. -/
def ofText (text : String) : Except OpenQuote (List Token) :=
  let s := Scanner.ofText text
  match s.openQuote? with
  | some e => .error e
  | none => .ok (s.tokens.push ⟨.endOfInput, s.position, s.position⟩).toList

/-- Every token that can be completed, then the quote left open, if any. -/
def deliveries (text : String) : List Delivery :=
  let s := Scanner.ofText text
  s.tokens.toList.map .token ++ (s.openQuote?.map .openQuote).toList

end Token

end FilterLang
