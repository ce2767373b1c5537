import FilterLang.Binary
import FilterLang.Span

/-! Tokens of a filter text and the classes of characters they are made of. -/

namespace FilterLang

/-- Whether a character may stand in an unquoted word: an ASCII letter or digit, one of five
marks, or any character from U+00A0 on. -/
def isWordChar (c : Char) : Bool :=
  c.isAlphanum || c == '.' || c == '-' || c == '@' || c == '/' || c == '_' || 0xA0 ≤ c.toNat

/-- Whether a character only separates tokens: a space or a control character before it. -/
def isBlank (c : Char) : Bool := c.toNat ≤ ' '.toNat

def isQuote (c : Char) : Bool := c == '\'' || c == '"'

theorem isWordChar_eq_false_of_isBlank {c : Char} (h : isBlank c = true) :
    isWordChar c = false := by
  have all : ∀ n < 33, isWordChar (Char.ofNat n) = false := by decide
  have hc : c.toNat < 33 := by
    have : c.toNat ≤ 32 := by simpa [isBlank] using h
    omega
  simpa using all c.toNat hc

theorem isWordChar_eq_false_of_isQuote {c : Char} (h : isQuote c = true) :
    isWordChar c = false := by
  simp only [isQuote, Bool.or_eq_true, beq_iff_eq] at h
  rcases h with rfl | rfl <;> decide

theorem isBlank_eq_false_of_isQuote {c : Char} (h : isQuote c = true) : isBlank c = false := by
  simp only [isQuote, Bool.or_eq_true, beq_iff_eq] at h
  rcases h with rfl | rfl <;> decide

inductive TokenKind
  | word (text : String)
  | quoted (delimiter : Char) (value : String)
  | number (text : String) (value : Binary)
  | openParen
  | closeParen
  | comma
  | symbol (c : Char)
  | endOfInput
  deriving DecidableEq

namespace TokenKind

def text : TokenKind → String
  | word text => text
  | quoted delimiter value => delimiter.toString ++ value ++ delimiter.toString
  | number text _ => text
  | openParen => "("
  | closeParen => ")"
  | comma => ","
  | symbol c => c.toString
  | endOfInput => "<eof>"

end TokenKind

structure Token where
  kind : TokenKind
  span : Span
  deriving DecidableEq

end FilterLang
