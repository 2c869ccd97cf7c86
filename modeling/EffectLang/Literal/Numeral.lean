import EffectLang.Number.Binary

/-!
Numerals: an optional minus sign, digits, an optional fraction and an optional exponent mark. The mark is
part of the numeral but no exponent follows it, and it does not scale the value.
-/
namespace EffectLang

/-- A numeral by its parts. Any of the digit strings may be empty. -/
structure Numeral where
  negative : Bool
  whole : List Char
  fraction : Option (List Char)
  mark : Option Char
deriving DecidableEq, Repr, Inhabited

namespace Numeral

def signChars : Bool → List Char
  | true => ['-']
  | false => []

def fractionChars : Option (List Char) → List Char
  | none => []
  | some digits => '.' :: digits

def chars (numeral : Numeral) : List Char :=
  signChars numeral.negative ++ numeral.whole ++ fractionChars numeral.fraction ++ numeral.mark.toList

def takeSign : List Char → Bool × List Char
  | '-' :: rest => (true, rest)
  | text => (false, text)

def takeFraction : List Char → Option (List Char) × List Char
  | '.' :: rest => (some (rest.takeWhile Char.isDigit), rest.dropWhile Char.isDigit)
  | text => (none, text)

def takeMark : List Char → Option Char × List Char
  | 'e' :: rest => (some 'e', rest)
  | 'E' :: rest => (some 'E', rest)
  | text => (none, text)

def scan (text : List Char) : Numeral × List Char :=
  let (negative, text) := takeSign text
  let whole := text.takeWhile Char.isDigit
  let (fraction, text) := takeFraction (text.dropWhile Char.isDigit)
  let (mark, text) := takeMark text
  (⟨negative, whole, fraction, mark⟩, text)

theorem takeSign_append (text : List Char) :
    signChars (takeSign text).1 ++ (takeSign text).2 = text := by
  fun_cases takeSign text <;> rfl

theorem takeFraction_append (text : List Char) :
    fractionChars (takeFraction text).1 ++ (takeFraction text).2 = text := by
  fun_cases takeFraction text <;> simp [fractionChars]

theorem takeMark_append (text : List Char) :
    (takeMark text).1.toList ++ (takeMark text).2 = text := by
  fun_cases takeMark text <;> rfl

theorem chars_scan (text : List Char) : (scan text).1.chars ++ (scan text).2 = text := by
  simp only [scan, chars, List.append_assoc, takeMark_append, takeFraction_append,
    List.takeWhile_append_dropWhile, takeSign_append]

def digit (c : Char) : Nat :=
  c.toNat - '0'.toNat

def saturate (value : Nat) : UInt64 :=
  UInt64.ofNat (min value 0xFFFFFFFFFFFFFFFF)

def wholeStep (total : UInt64) (c : Char) : UInt64 :=
  saturate ((saturate (total.toNat * 10)).toNat + digit c)

def wholePart (numeral : Numeral) : UInt64 :=
  numeral.whole.foldl wholeStep 0

structure Quotient where
  part : UInt64
  divisor : UInt64
deriving DecidableEq, Repr

/-- Appends one digit to a fraction; digits after the eighteenth are dropped. -/
def fractionStep (total : Quotient) (c : Char) : Quotient :=
  if total.divisor < 1000000000000000000 then
    ⟨total.part * 10 + UInt64.ofNat (digit c), total.divisor * 10⟩
  else total

def fractionPart (numeral : Numeral) : Quotient :=
  (numeral.fraction.getD []).foldl fractionStep ⟨0, 1⟩

/-- The value of a numeral: the whole part plus the rounded quotient of the fraction, with the sign. -/
def value (numeral : Numeral) : Double :=
  let sign : Float := if numeral.negative then -1.0 else 1.0
  let fraction := numeral.fractionPart
  .ofFloat (sign * (numeral.wholePart.toFloat + fraction.part.toFloat / fraction.divisor.toFloat))

end Numeral

end EffectLang
