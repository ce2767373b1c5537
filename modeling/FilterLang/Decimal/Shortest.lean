import FilterLang.Decimal

/-! The shortest decimal that reads back as a given binary number. Of the decimals with the fewest
digits it is the one nearest to the number, and of two equally near the greater. -/

namespace FilterLang.Decimal

structure Interval where
  low : Nat
  middle : Nat
  high : Nat
  -- whether the ends count as the middle too
  closed : Bool

namespace Interval

def holds (i : Interval) (n : Nat) : Bool :=
  if i.closed then i.low ≤ n ∧ n ≤ i.high else i.low < n ∧ n < i.high

/-- Tries the multiples of `10 ^ places` on both sides of the middle, then finer ones; gives the
multiple and its places. -/
def shortest (i : Interval) : Nat → Nat × Nat
  | 0 => (i.middle, 0)
  | places + 1 =>
    let step := Nat.pow 10 (places + 1)
    let below := i.middle / step * step
    let above := below + step
    if i.holds below && (!i.holds above || i.middle - below < above - i.middle) then
      (i.middle / step, places + 1)
    else if i.holds above then (i.middle / step + 1, places + 1)
    else i.shortest places

end Interval

/-- The reals that round to `significand * 2 ^ exponent`, in units of `10 ^ -places`. Below a power
of two the numbers of the format lie closer, so the interval reaches down half as far. -/
def roundingInterval (f : Binary.Format) (significand : Nat) (exponent : Int) : Interval × Nat :=
  let quarter := exponent - 2
  let places := (-quarter).toNat
  let unit := Nat.pow 2 quarter.toNat * Nat.pow 5 places
  let reach := if significand = Nat.pow 2 (f.precision - 1) ∧ f.least < exponent then 1 else 2
  (⟨(4 * significand - reach) * unit, 4 * significand * unit, (4 * significand + 2) * unit,
    significand % 2 == 0⟩, places)

def shortest (f : Binary.Format) (negative : Bool) (significand : Nat) (exponent : Int) :
    Decimal :=
  let (interval, places) := roundingInterval f significand exponent
  let (digits, dropped) := interval.shortest ((toString interval.middle).length - 1)
  ⟨negative, digits, dropped - places⟩

end FilterLang.Decimal
