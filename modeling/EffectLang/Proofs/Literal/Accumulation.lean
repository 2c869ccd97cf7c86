import EffectLang.Proofs.Document.Spelling
import EffectLang.Proofs.Token.ByteTokens

/-!
What the digits of a numeral add up to. The whole part is the number that its digits spell, held at the greatest word.
The fraction is what its first eighteen digits spell, over the power of ten for their count; so far the sums are exact,
and the digits behind are read but not added. A scanner that goes byte by byte and checks its sums comes to the same.
-/
namespace EffectLang.Numeral

/-- The number that a string of digits spells in the decimal system. -/
def decimal (digits : List Char) : Nat :=
  Nat.ofDigits 10 (digits.reverse.map digit)

theorem decimal_concat (digits : List Char) (c : Char) :
    decimal (digits ++ [c]) = decimal digits * 10 + digit c := by
  rw [decimal, decimal, List.reverse_append, List.reverse_singleton, List.singleton_append, List.map_cons,
    Nat.ofDigits_cons, Nat.add_comm, Nat.mul_comm]

theorem decimal_lt {digits : List Char} (all : ∀ c ∈ digits, c.isDigit = true) :
    decimal digits < 10 ^ digits.length := by
  have bound := @Nat.ofDigits_lt_base_pow_length 10 (digits.reverse.map digit) (by decide) (by
    intro value member
    obtain ⟨c, found, rfl⟩ := List.mem_map.mp member
    exact ByteScanner.digit_lt (all c (List.mem_reverse.mp found)))
  rwa [List.length_map, List.length_reverse] at bound

/-- Holding the sum at the greatest word digit by digit is the same as holding it there once. -/
theorem toNat_foldl_wholeStep (digits : List Char) :
    (digits.foldl wholeStep 0).toNat = min (decimal digits) (2 ^ 64 - 1) := by
  induction digits using List.reverseRecOn with
  | nil => rfl
  | append_singleton digits c ih =>
    rw [List.foldl_concat, wholeStep, ByteScanner.toNat_saturate, ByteScanner.toNat_saturate, ih, decimal_concat]
    omega

section Fraction

variable {digits : List Char}

/-- The quotient of a string of digits is that of the first eighteen. -/
theorem foldl_fractionStep (all : ∀ c ∈ digits, c.isDigit = true) :
    (digits.foldl fractionStep ⟨0, 1⟩).part.toNat = decimal (digits.take 18) ∧
      (digits.foldl fractionStep ⟨0, 1⟩).divisor.toNat = 10 ^ min digits.length 18 := by
  -- The divisor tells how many digits have counted, so the limit on it is met with the eighteenth.
  induction digits using List.reverseRecOn with
  | nil => exact ⟨rfl, rfl⟩
  | append_singleton digits c ih =>
    rw [List.forall_mem_append] at all
    obtain ⟨part, divisor⟩ := ih all.1
    rw [List.foldl_concat, List.length_append, List.length_singleton]
    by_cases short : digits.length < 18
    · have proper : decimal (digits.take 18) < 10 ^ min digits.length 18 := by
        rw [List.take_of_length_le short.le, Nat.min_eq_left short.le]
        exact decimal_lt all.1
      have more : 10 ^ min digits.length 18 < 10 ^ 18 := by
        rw [Nat.min_eq_left short.le]
        exact Nat.pow_lt_pow_right (by decide) short
      obtain ⟨-, nextPart, nextDivisor⟩ :=
        ByteScanner.fractionStep_exact (all.2 c (.head _)) (part ▸ divisor ▸ proper) (divisor ▸ more)
      rw [nextPart, nextDivisor, part, divisor, Nat.min_eq_left short.le, Nat.min_eq_left short,
        List.take_of_length_le short.le, List.take_of_length_le (by simpa using short), decimal_concat]
      exact ⟨rfl, rfl⟩
    · have long : 18 ≤ digits.length := Nat.le_of_not_lt short
      have full : ¬(digits.foldl fractionStep ⟨0, 1⟩).divisor.toNat < 10 ^ 18 := by
        rw [divisor, Nat.min_eq_right long]
        exact Nat.lt_irrefl _
      rw [ByteScanner.fractionStep_dropped c full, part, divisor, Nat.min_eq_right long,
        Nat.min_eq_right (Nat.le_succ_of_le long), List.take_append_of_le_length long]
      exact ⟨rfl, rfl⟩

theorem foldl_fractionStep_proper (all : ∀ c ∈ digits, c.isDigit = true) :
    (digits.foldl fractionStep ⟨0, 1⟩).part.toNat < (digits.foldl fractionStep ⟨0, 1⟩).divisor.toNat := by
  obtain ⟨part, divisor⟩ := foldl_fractionStep all
  have counted : decimal (digits.take 18) < 10 ^ (digits.take 18).length :=
    decimal_lt fun c member => all c (List.mem_of_mem_take member)
  rw [List.length_take, Nat.min_comm] at counted
  rwa [part, divisor]

theorem toFloat_power_ne_zero {exponent : Nat} (small : exponent ≤ 18) :
    ((UInt64.ofNat (10 ^ exponent)).toFloat == 0) = false := by
  have checked : ((List.range 19).all fun exponent => !((UInt64.ofNat (10 ^ exponent)).toFloat == 0)) = true := by
    decide +kernel
  simpa using List.all_eq_true.mp checked exponent (List.mem_range.mpr (Nat.lt_succ_of_le small))

end Fraction

/-- The words of a numeral are exact: its whole part up to the greatest word, its fraction up to eighteen digits. No
step on the way to the fraction leaves the words, and there is no division by zero. -/
structure AddsUp (numeral : Numeral) : Prop where
  whole : numeral.wholePart.toNat = min (decimal numeral.whole) (2 ^ 64 - 1)
  part : numeral.fractionPart.part.toNat = decimal ((numeral.fraction.getD []).take 18)
  divisor : numeral.fractionPart.divisor.toNat = 10 ^ min (numeral.fraction.getD []).length 18
  proper : numeral.fractionPart.part.toNat < numeral.fractionPart.divisor.toNat
  bounded : numeral.fractionPart.divisor.toNat ≤ 10 ^ 18
  fits : ∀ front c, front ++ [c] <+: numeral.fraction.getD [] →
    (front.foldl fractionStep ⟨0, 1⟩).divisor.toNat < 10 ^ 18 →
      (front.foldl fractionStep ⟨0, 1⟩).part.toNat * 10 + digit c < 2 ^ 64 ∧
        (front.foldl fractionStep ⟨0, 1⟩).divisor.toNat * 10 < 2 ^ 64
  divides : (numeral.fractionPart.divisor.toFloat == 0) = false

theorem Scanned.getD_fraction {numeral : Numeral} (scanned : numeral.Scanned) :
    ∀ c ∈ numeral.fraction.getD [], c.isDigit = true := by
  have inside := scanned.fraction
  cases fraction : numeral.fraction with
  | none => simp
  | some digits =>
    rw [fraction] at inside
    exact inside digits rfl

theorem Scanned.addsUp {numeral : Numeral} (scanned : numeral.Scanned) : numeral.AddsUp where
  whole := toNat_foldl_wholeStep numeral.whole
  part := (foldl_fractionStep scanned.getD_fraction).1
  divisor := (foldl_fractionStep scanned.getD_fraction).2
  proper := foldl_fractionStep_proper scanned.getD_fraction
  bounded := by
    rw [fractionPart, (foldl_fractionStep scanned.getD_fraction).2]
    exact Nat.pow_le_pow_right (by decide) (Nat.min_le_right _ _)
  fits front c found more := by
    have all := scanned.getD_fraction
    obtain ⟨behind, split⟩ := found
    rw [← split, List.forall_mem_append, List.forall_mem_append] at all
    exact (ByteScanner.fractionStep_exact (all.1.2 c (.head _)) (foldl_fractionStep_proper all.1.1) more).1
  divides := by
    have divisor : numeral.fractionPart.divisor = UInt64.ofNat (10 ^ min (numeral.fraction.getD []).length 18) := by
      rw [← (foldl_fractionStep scanned.getD_fraction).2, UInt64.ofNat_toNat]
      rfl
    rw [divisor]
    exact toFloat_power_ne_zero (Nat.min_le_right _ _)

/-- At a digit or a minus sign there is one numeral to read. The reader and the byte scanner both take all of it and
no more, and both get the exact amounts from its digits. -/
theorem read_adds_up {c : Char} {text : List Char} (start : c.isDigit = true ∨ c = '-') :
    ∃ numeral rest, (∀ other later, other.Leads (c :: text) later ↔ other = numeral ∧ later = rest) ∧
      Lexeme.read? (c :: text) = some (.number numeral, rest) ∧ numeral.AddsUp ∧
      ∀ scanner before, ByteScanner.Stands scanner before (c :: text) →
        scanner.number? =
          some (⟨numeral.negative, min (decimal numeral.whole) (2 ^ 64 - 1),
            decimal ((numeral.fraction.getD []).take 18), 10 ^ min (numeral.fraction.getD []).length 18⟩,
            scanner.after numeral.chars) := by
  have exact := (scanned_scan (c :: text)).addsUp
  refine ⟨(scan (c :: text)).1, (scan (c :: text)).2, ?_, Source.read?_of_start text start, exact, ?_⟩
  · intro other later
    rw [leads_iff, Prod.ext_iff]
    exact and_congr eq_comm eq_comm
  · intro scanner before stands
    rw [ByteScanner.number_eq stands, ByteScanner.amountOf, exact.whole, exact.part, exact.divisor]

/-- Leading zeros, a whole part that is one too large for a word, a fraction with a nineteenth digit and an exponent. -/
theorem read_adds_up_past_limits :
    let text := "-0018446744073709551616.1234567890123456789e2".toList
    let scanner : ByteScanner := ⟨Utf8.bytes text, 0, 1⟩
    ('-'.isDigit = true ∨ '-' = '-') ∧ scanner.Stands [] text ∧ ∃ numeral,
      Lexeme.read? text = some (.number numeral, ['2']) ∧
      numeral.wholePart.toNat = 2 ^ 64 - 1 ∧ numeral.fractionPart.part.toNat = 123456789012345678 ∧
      numeral.fractionPart.divisor.toNat = 10 ^ 18 ∧
      scanner.number? =
        some (⟨true, 2 ^ 64 - 1, 123456789012345678, 10 ^ 18⟩, ⟨scanner.source, text.length - 1, 1⟩) := by
  intro text scanner
  have stands : scanner.Stands [] text := ⟨rfl, rfl, by decide +kernel⟩
  have found : Lexeme.read? text =
      some (.number ⟨true, "0018446744073709551616".toList, some "1234567890123456789".toList, some 'e'⟩, ['2']) := by
    decide +kernel
  obtain ⟨numeral, rest, -, read, exact, scanned⟩ :=
    @read_adds_up '-' "0018446744073709551616.1234567890123456789e2".toList (.inr rfl)
  obtain ⟨⟨⟩, ⟨⟩⟩ := Prod.mk.inj (Option.some.inj (found.symm.trans read))
  refine ⟨.inr rfl, stands, _, found, ?_, ?_, ?_, ?_⟩
  · rw [exact.whole]
    decide +kernel
  · rw [exact.part]
    decide +kernel
  · rw [exact.divisor]
    decide +kernel
  · rw [scanned scanner [] stands]
    decide +kernel

end EffectLang.Numeral
