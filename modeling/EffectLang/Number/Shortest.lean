import EffectLang.Number.Binary

/-!
The shortest decimal that reads back as a given 32-bit number. A number `m · 2 ^ q` owns the interval of
reals that round to it; the ends belong to it exactly when `m` is even. On decimal grids of growing
fineness the two neighbours of the number are tried, and the first grid with a point inside wins.
-/
namespace EffectLang.Shortest

structure Decimal where
  digits : Nat
  exponent : Int
deriving DecidableEq, Repr

/-- The reals that round to one number, all scaled by one positive denominator: the number itself, the
distances to the ends below and above it, and whether the ends belong to it. -/
structure Interval where
  value : Nat
  below : Nat
  above : Nat
  denominator : Nat
  closed : Bool
deriving DecidableEq, Repr

/-- The interval of `significand · 2 ^ exponent`. Below a power of two the neighbour is half as far. -/
def Interval.of (significand : Nat) (exponent : Int) : Interval :=
  let narrow := significand = Nat.pow 2 BinaryFormat.single.fraction ∧ exponent > BinaryFormat.single.quantum
  let up := Nat.pow 2 exponent.toNat
  let down := Nat.pow 2 (-exponent).toNat
  { value := 4 * significand * up
    below := (if narrow then 1 else 2) * up
    above := 2 * up
    denominator := 4 * down
    closed := significand % 2 = 0 }

def Interval.contains (interval : Interval) (point : Nat) : Bool :=
  if point ≤ interval.value then
    interval.value - point < interval.below ∨ (interval.closed ∧ interval.value - point = interval.below)
  else
    point - interval.value < interval.above ∨ (interval.closed ∧ point - interval.value = interval.above)

/-- The best point of the grid of multiples of `10 ^ exponent`, if one lies in the interval: the nearer
of the two neighbours of the number, and the upper one when both are equally near. -/
def Interval.onGrid? (interval : Interval) (exponent : Int) : Option Decimal :=
  let scale := Nat.pow 10 (-exponent).toNat
  let step := interval.denominator * Nat.pow 10 exponent.toNat
  let scaled : Interval :=
    { interval with
      value := interval.value * scale
      below := interval.below * scale
      above := interval.above * scale }
  let lower := scaled.value / step
  let upper := lower + 1
  let lowerIn := lower ≠ 0 ∧ scaled.contains (lower * step)
  let upperIn := scaled.contains (upper * step)
  if lowerIn ∧ (¬ upperIn ∨ scaled.value - lower * step < upper * step - scaled.value) then
    some ⟨lower, exponent⟩
  else if upperIn then some ⟨upper, exponent⟩
  else none

def search (interval : Interval) : Nat → Int → Decimal
  | 0, exponent => ⟨0, exponent⟩
  | grids + 1, exponent => (interval.onGrid? exponent).getD (search interval grids (exponent - 1))

/-- The shortest decimal that reads back as `significand · 2 ^ exponent`, the nearest one of those. The
grids run from the coarsest that can hold a 32-bit number to the finest that one needs. -/
def decimal (significand : Nat) (exponent : Int) : Decimal :=
  search (Interval.of significand exponent) 100 39

end EffectLang.Shortest
