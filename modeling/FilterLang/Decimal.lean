import FilterLang.Binary

/-! Decimal numerals: their grammar, the exact number one denotes, and the binary number nearest
to it. -/

namespace FilterLang

/-- The number `significand * 10 ^ exponent` with a sign. -/
structure Decimal where
  negative : Bool
  significand : Nat
  exponent : Int
  deriving DecidableEq

namespace Decimal

def splitSign : List Char → Bool × List Char
  | '-' :: rest => (true, rest)
  | '+' :: rest => (false, rest)
  | rest => (false, rest)

def digitsValue (digits : List Char) : Nat :=
  digits.foldl (fun n c => 10 * n + (c.toNat - '0'.toNat)) 0

def readInteger? (text : List Char) : Option Int :=
  let (negative, digits) := splitSign text
  if digits.isEmpty || !digits.all Char.isDigit then none
  else some (if negative then -(digitsValue digits : Int) else digitsValue digits)

def readExponent? : List Char → Option Int
  | [] => some 0
  | c :: rest => if c = 'e' ∨ c = 'E' then readInteger? rest else none

def splitFraction : List Char → List Char × List Char
  | '.' :: rest => (rest.takeWhile Char.isDigit, rest.dropWhile Char.isDigit)
  | rest => ([], rest)

/-- Digits with at most one point among or around them, at least one digit, then an exponent. -/
def readUnsigned? (text : List Char) : Option Decimal :=
  let whole := text.takeWhile Char.isDigit
  let (fraction, rest) := splitFraction (text.dropWhile Char.isDigit)
  if whole.isEmpty && fraction.isEmpty then none
  else (readExponent? rest).map fun e =>
    ⟨false, digitsValue (whole ++ fraction), e - fraction.length⟩

/-- The binary number nearest to a decimal. Powers of ten that can only give infinity or zero are
not computed: `10 ^ n` is at least `2 ^ n` for the first, at most `2 ^ (3 * n)` with `n` negative for
the second. -/
def toBinary (f : Binary.Format) (d : Decimal) : Binary :=
  if d.significand = 0 then .finite d.negative 0 f.least
  else if f.greatest + f.precision < d.exponent then .infinite d.negative
  else if d.exponent < 0 ∧ d.significand.log2 + 1 + 3 * d.exponent < f.least - 1 then
    .finite d.negative 0 f.least
  else .ofQuotient f d.negative (d.significand * Nat.pow 10 d.exponent.toNat)
    (Nat.pow 10 (-d.exponent).toNat)

end Decimal

namespace Binary

/-- The number that a numeral names: a decimal, `inf`, `infinity` or `nan` in any case, each with
an optional sign. -/
def read? (f : Format) (text : String) : Option Binary :=
  let (negative, rest) := Decimal.splitSign text.toList
  let word := rest.map Char.toLower
  if word = "inf".toList ∨ word = "infinity".toList then some (infinite negative)
  else if word = "nan".toList then some nan
  else (Decimal.readUnsigned? rest).map fun d => { d with negative }.toBinary f

end Binary

end FilterLang
