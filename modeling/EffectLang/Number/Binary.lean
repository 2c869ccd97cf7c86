/-!
Binary floating-point numbers as stored bits, so that equality is equality of bit patterns and every
NaN keeps its payload. Narrowing to the shorter format rounds to nearest, ties to even; conversion to an
integer drops the fraction and stops at the bounds.
-/
namespace EffectLang

structure Single where
  bits : UInt32
deriving DecidableEq, Repr, Inhabited

structure Double where
  bits : UInt64
deriving DecidableEq, Repr, Inhabited

/-- What a bit pattern stands for: a signed multiple `significand · 2 ^ exponent`, an infinity or a NaN
with its payload. -/
inductive Magnitude where
  | finite (significand : Nat) (exponent : Int)
  | infinite
  | nan (payload : Nat)
deriving DecidableEq, Repr

structure BinaryFormat where
  fraction : Nat
  exponent : Nat
deriving DecidableEq, Repr

namespace BinaryFormat

def single : BinaryFormat := ⟨23, 8⟩

def double : BinaryFormat := ⟨52, 11⟩

def special (format : BinaryFormat) : Nat :=
  Nat.pow 2 format.exponent - 1

/-- Exponent of the smallest positive number, of which every number of the format is a multiple. -/
def quantum (format : BinaryFormat) : Int :=
  2 - (Nat.pow 2 (format.exponent - 1) : Nat) - format.fraction

def isNegative (format : BinaryFormat) (bits : Nat) : Bool :=
  bits / Nat.pow 2 (format.fraction + format.exponent) % 2 = 1

def magnitude (format : BinaryFormat) (bits : Nat) : Magnitude :=
  let fraction := bits % Nat.pow 2 format.fraction
  let field := bits / Nat.pow 2 format.fraction % Nat.pow 2 format.exponent
  if field = format.special then
    if fraction = 0 then .infinite else .nan fraction
  else if field = 0 then .finite fraction format.quantum
  else .finite (Nat.pow 2 format.fraction + fraction) (format.quantum + (field - 1 : Nat))

/-- The quotient `value / 2 ^ shift` rounded to nearest, a half to the even neighbour. -/
def roundShift (value shift : Nat) : Nat :=
  let unit := Nat.pow 2 shift
  let quotient := value / unit
  let twice := 2 * (value % unit)
  if twice > unit ∨ (twice = unit ∧ quotient % 2 = 1) then quotient + 1 else quotient

/-- The unsigned bits of the number of the format nearest to `significand · 2 ^ exponent`; what is too
large becomes infinite. A carry out of the fraction runs on into the exponent field. -/
def nearest (format : BinaryFormat) (significand : Nat) (exponent : Int) : Nat :=
  if significand = 0 then 0
  else
    let unit := max format.quantum (significand.log2 + exponent - format.fraction)
    let scaled :=
      if exponent < unit then roundShift significand (unit - exponent).toNat
      else significand * Nat.pow 2 (exponent - unit).toNat
    let field := (unit - format.quantum).toNat
    min (field * Nat.pow 2 format.fraction + scaled) (format.special * Nat.pow 2 format.fraction)

end BinaryFormat

namespace Single

def zero : Single := ⟨0⟩

def one : Single := ⟨0x3F800000⟩

def isNegative (value : Single) : Bool :=
  BinaryFormat.single.isNegative value.bits.toNat

def magnitude (value : Single) : Magnitude :=
  BinaryFormat.single.magnitude value.bits.toNat

end Single

namespace Double

def ofFloat (value : Float) : Double :=
  ⟨value.toBits⟩

def isNegative (value : Double) : Bool :=
  BinaryFormat.double.isNegative value.bits.toNat

def magnitude (value : Double) : Magnitude :=
  BinaryFormat.double.magnitude value.bits.toNat

/-- The nearest 32-bit number. A NaN stays one and keeps the leading bits of its payload. -/
def toSingle (value : Double) : Single :=
  let sign := if value.isNegative then 0x80000000 else 0
  let unsigned :=
    match value.magnitude with
    | .finite significand exponent => BinaryFormat.single.nearest significand exponent
    | .infinite => 0x7F800000
    | .nan payload => 0x7FC00000 ||| (payload >>> 29)
  ⟨UInt32.ofNat (sign + unsigned)⟩

/-- The integer part, held between the least and the greatest 32-bit integer; zero for a NaN. -/
def toInt32 (value : Double) : Int32 :=
  let clamp (size : Nat) : Int32 :=
    if value.isNegative then Int32.ofInt (-(min size 0x80000000 : Nat))
    else Int32.ofInt (min size 0x7FFFFFFF : Nat)
  match value.magnitude with
  | .finite significand exponent =>
    if exponent < 0 then clamp (significand / Nat.pow 2 (-exponent).toNat)
    else clamp (significand * Nat.pow 2 exponent.toNat)
  | .infinite => clamp 0x80000000
  | .nan _ => 0

end Double

end EffectLang
