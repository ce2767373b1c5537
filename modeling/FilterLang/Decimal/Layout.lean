import FilterLang.Decimal.Shortest

/-! How the digits of a number are written: with a point at its place, or as one digit, a fraction
and an exponent. -/

namespace FilterLang

namespace Decimal

/-- The digits without the zeros at their end, and how many places stand left of the point. -/
def digitsAndPoint (d : Decimal) : List Char × Int :=
  let digits := (toString d.significand).toList
  ((digits.reverse.dropWhile (· == '0')).reverse, digits.length + d.exponent)

structure Layout where
  /-- Whether a number with so many places left of the point is written without an exponent. -/
  positional : Int → Bool
  /-- What follows a whole number written without an exponent. -/
  wholeEnd : List Char

namespace Layout

/-- All places are written out, and a whole number has no point. -/
def plain : Layout := ⟨fun _ => true, []⟩

/-- Numbers from a ten-thousandth to below `10 ^ 16` have a point with a digit on both sides, the
others an exponent. -/
def canonical : Layout := ⟨fun point => -3 ≤ point ∧ point ≤ 16, ['.', '0']⟩

def write (l : Layout) (digits : List Char) (point : Int) : List Char :=
  if l.positional point then
    if point ≤ 0 then '0' :: '.' :: List.replicate (-point).toNat '0' ++ digits
    else if digits.length ≤ point then
      digits ++ List.replicate (point.toNat - digits.length) '0' ++ l.wholeEnd
    else digits.take point.toNat ++ '.' :: digits.drop point.toNat
  else
    let fraction := if digits.length ≤ 1 then [] else '.' :: digits.drop 1
    digits.take 1 ++ fraction ++ 'e' :: (toString (point - 1)).toList

def unsigned (l : Layout) (f : Binary.Format) (significand : Nat) (exponent : Int) : List Char :=
  if significand = 0 then '0' :: l.wholeEnd
  else
    let (digits, point) := (shortest f false significand exponent).digitsAndPoint
    l.write digits point

end Layout

end Decimal

namespace Binary

def signText (negative : Bool) : String := if negative then "-" else ""

def text (l : Decimal.Layout) (f : Format) : Binary → String
  | finite negative significand exponent =>
    signText negative ++ String.ofList (l.unsigned f significand exponent)
  | infinite negative => signText negative ++ "inf"
  | nan => "NaN"

end Binary

end FilterLang
