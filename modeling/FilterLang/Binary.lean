/-! Binary floating-point numbers as exact values. A format fixes the significands and the
exponents; a quotient of two whole numbers becomes the nearest number of the format, and a quotient
half way between two becomes the one with the even significand. -/

namespace FilterLang

/-- A number of some binary format: `significand * 2 ^ exponent` with a sign, or no number. -/
inductive Binary
  | finite (negative : Bool) (significand : Nat) (exponent : Int)
  | infinite (negative : Bool)
  | nan
  deriving DecidableEq

namespace Binary

/-- Significands stay below `2 ^ precision`, exponents between `least` and `greatest`. -/
structure Format where
  precision : Nat
  least : Int
  greatest : Int

def Format.double : Format := ⟨53, -1074, 971⟩

def Format.single : Format := ⟨24, -149, 104⟩

def isFinite : Binary → Bool
  | finite _ _ _ => true
  | _ => false

def divToEven (num den : Nat) : Nat :=
  let rest := 2 * (num % den)
  if rest < den ∨ rest = den ∧ num / den % 2 = 0 then num / den else num / den + 1

/-- The quotient `num / den` in units of `2 ^ exponent`, again as a quotient. -/
def inUnits (num den : Nat) (exponent : Int) : Nat × Nat :=
  (num * Nat.pow 2 (-exponent).toNat, den * Nat.pow 2 exponent.toNat)

/-- The least exponent of the format at which `num / den` is below `2 ^ precision` units. -/
def Format.exponentOf (f : Format) (num den : Nat) : Int :=
  let guess : Int := num.log2 - den.log2 - f.precision
  let (n, d) := inUnits num den guess
  max f.least (if n < d * Nat.pow 2 f.precision then guess else guess + 1)

def ofQuotient (f : Format) (negative : Bool) (num den : Nat) : Binary :=
  if num = 0 then finite negative 0 f.least
  else
    let exponent := f.exponentOf num den
    let (n, d) := inUnits num den exponent
    let significand := divToEven n d
    let (significand, exponent) :=
      if significand = Nat.pow 2 f.precision then (significand / 2, exponent + 1)
      else (significand, exponent)
    if f.greatest < exponent then infinite negative else finite negative significand exponent

end Binary

end FilterLang
