import EffectLang.Proofs.Token.Boundary

/-!
The numeral that a text begins with, stated without the scanner: a sign, digits, a fraction and an exponent mark, none
of which could be longer. There is exactly one for every text, and it is what the scanner finds.
-/
namespace EffectLang.Numeral

/-- A numeral whose parts hold what they can hold after scanning. -/
structure Scanned (numeral : Numeral) : Prop where
  whole : ∀ c ∈ numeral.whole, c.isDigit = true
  fraction : ∀ digits ∈ numeral.fraction, ∀ c ∈ digits, c.isDigit = true
  mark : ∀ c ∈ numeral.mark, c = 'e' ∨ c = 'E'

/-- A numeral at the start of a text, and the text after it. What follows a part is no more of it. -/
structure Leads (numeral : Numeral) (text rest : List Char) : Prop extends numeral.Scanned where
  spelled : text = numeral.chars ++ rest
  signed : text.head? = some '-' → numeral.negative = true
  wholeEnds : ∀ c ∈ (fractionChars numeral.fraction ++ (numeral.mark.toList ++ rest)).head?, c.isDigit = false
  pointless : numeral.fraction = none → (numeral.mark.toList ++ rest).head? ≠ some '.'
  fractionEnds : numeral.fraction ≠ none → ∀ c ∈ (numeral.mark.toList ++ rest).head?, c.isDigit = false
  unmarked : numeral.mark = none → rest.head? ≠ some 'e' ∧ rest.head? ≠ some 'E'

section Parts

variable {rest : List Char}

theorem takeSign_signChars {negative : Bool} (signed : rest.head? = some '-' → negative = true) :
    takeSign (signChars negative ++ rest) = (negative, rest) := by
  cases negative with
  | true => rfl
  | false =>
    rw [signChars, List.nil_append]
    fun_cases takeSign rest with
    | case1 rest => exact absurd (signed rfl) (by decide)
    | case2 => rfl

theorem takeFraction_fractionChars {fraction : Option (List Char)}
    (inside : ∀ digits ∈ fraction, ∀ c ∈ digits, c.isDigit = true)
    (pointless : fraction = none → rest.head? ≠ some '.')
    (ends : fraction ≠ none → ∀ c ∈ rest.head?, c.isDigit = false) :
    takeFraction (fractionChars fraction ++ rest) = (fraction, rest) := by
  cases fraction with
  | none =>
    rw [fractionChars, List.nil_append]
    fun_cases takeFraction rest with
    | case1 rest => exact absurd rfl (pointless rfl)
    | case2 => rfl
  | some digits =>
    have stop := ends (by simp)
    have all := List.takeWhile_eq_self_iff.mpr (inside digits rfl)
    have nothing := List.dropWhile_eq_nil_iff.mpr (inside digits rfl)
    simp only [fractionChars, List.cons_append, takeFraction, Lexeme.takeWhile_append_boundary _ stop,
      Lexeme.dropWhile_append_boundary _ stop, all, nothing, List.nil_append]

theorem takeMark_toList {mark : Option Char} (listed : ∀ c ∈ mark, c = 'e' ∨ c = 'E')
    (unmarked : mark = none → rest.head? ≠ some 'e' ∧ rest.head? ≠ some 'E') :
    takeMark (mark.toList ++ rest) = (mark, rest) := by
  cases mark with
  | none =>
    rw [Option.toList_none, List.nil_append]
    fun_cases takeMark rest with
    | case1 rest => exact absurd rfl (unmarked rfl).1
    | case2 rest => exact absurd rfl (unmarked rfl).2
    | case3 => rfl
  | some c => rcases listed c rfl with rfl | rfl <;> rfl

end Parts

/-- The scanner finds the numeral that a text begins with. -/
theorem Leads.scan_eq {numeral : Numeral} {text rest : List Char} (leads : numeral.Leads text rest) :
    scan text = (numeral, rest) := by
  have spelled : text = signChars numeral.negative ++
      (numeral.whole ++ (fractionChars numeral.fraction ++ (numeral.mark.toList ++ rest))) := by
    simpa only [chars, List.append_assoc] using leads.spelled
  have signed : takeSign text =
      (numeral.negative, numeral.whole ++ (fractionChars numeral.fraction ++ (numeral.mark.toList ++ rest))) := by
    rw [spelled]
    refine takeSign_signChars fun minus => ?_
    cases negative : numeral.negative with
    | true => rfl
    | false =>
      rw [negative, signChars, List.nil_append] at spelled
      rw [← negative, leads.signed (spelled ▸ minus)]
  have all := List.takeWhile_eq_self_iff.mpr leads.whole
  have nothing := List.dropWhile_eq_nil_iff.mpr leads.whole
  simp only [scan, signed, Lexeme.takeWhile_append_boundary _ leads.wholeEnds,
    Lexeme.dropWhile_append_boundary _ leads.wholeEnds, all, nothing, List.nil_append,
    takeFraction_fractionChars leads.fraction leads.pointless leads.fractionEnds,
    takeMark_toList leads.mark leads.unmarked]

theorem scanned_scan (text : List Char) : (scan text).1.Scanned where
  whole := List.all_eq_true.mp List.all_takeWhile
  fraction digits taken := by
    simp only [scan] at taken
    unfold takeFraction at taken
    split at taken
    · cases taken
      exact List.all_eq_true.mp List.all_takeWhile
    · cases taken
  mark c taken := by
    simp only [scan] at taken
    unfold takeMark at taken
    split at taken <;> cases taken
    · exact .inl rfl
    · exact .inr rfl

theorem head_dropWhile {p : Char → Bool} (text : List Char) : ∀ c ∈ (text.dropWhile p).head?, p c = false := by
  intro c head
  have stops := List.head?_dropWhile_not p text
  rw [head] at stops
  exact stops

theorem takeFraction_pointless (text : List Char) :
    (takeFraction text).1 = none → (takeFraction text).2.head? ≠ some '.' := by
  fun_cases takeFraction text with
  | case1 => simp
  | case2 _ noPoint =>
    intro _ point
    obtain ⟨rest, same⟩ := List.head?_eq_some_iff.mp point
    exact noPoint rest same

theorem takeFraction_ends (text : List Char) :
    (takeFraction text).1 ≠ none → ∀ c ∈ (takeFraction text).2.head?, c.isDigit = false := by
  fun_cases takeFraction text with
  | case1 rest => exact fun _ => head_dropWhile rest
  | case2 => simp

theorem takeMark_unmarked (text : List Char) :
    (takeMark text).1 = none → (takeMark text).2.head? ≠ some 'e' ∧ (takeMark text).2.head? ≠ some 'E' := by
  fun_cases takeMark text with
  | case1 => simp
  | case2 => simp
  | case3 _ noSmall noCapital =>
    intro _
    constructor
    · intro small
      obtain ⟨rest, same⟩ := List.head?_eq_some_iff.mp small
      exact noSmall rest same
    · intro capital
      obtain ⟨rest, same⟩ := List.head?_eq_some_iff.mp capital
      exact noCapital rest same

/-- Every text begins with the numeral that the scanner finds. -/
theorem leads_scan (text : List Char) : (scan text).1.Leads text (scan text).2 where
  toScanned := scanned_scan text
  spelled := (chars_scan text).symm
  signed minus := by
    obtain ⟨rest, rfl⟩ := List.head?_eq_some_iff.mp minus
    rfl
  wholeEnds := by
    simp only [scan, takeMark_append, takeFraction_append]
    exact head_dropWhile _
  pointless := by
    simp only [scan, takeMark_append]
    exact takeFraction_pointless _
  fractionEnds := by
    simp only [scan, takeMark_append]
    exact takeFraction_ends _
  unmarked := takeMark_unmarked _

theorem leads_iff {numeral : Numeral} {text rest : List Char} :
    numeral.Leads text rest ↔ scan text = (numeral, rest) := by
  constructor
  · exact Leads.scan_eq
  · intro scanned
    have leads := leads_scan text
    rwa [scanned] at leads

section Chars

variable {numeral : Numeral} (scanned : numeral.Scanned)

include scanned

theorem Scanned.head_mark : ∀ c ∈ numeral.mark.toList.head?, c.isDigit = false ∧ c ≠ '.' ∧ c ≠ '-' := by
  intro c head
  have listed := scanned.mark
  cases mark : numeral.mark with
  | none => simp [mark] at head
  | some d =>
    rw [mark] at listed head
    cases head
    rcases listed c rfl with rfl | rfl <;> decide

theorem Scanned.head_fraction :
    ∀ c ∈ (fractionChars numeral.fraction ++ numeral.mark.toList).head?, c.isDigit = false ∧ c ≠ '-' := by
  intro c head
  cases fraction : numeral.fraction with
  | none =>
    rw [fraction, fractionChars, List.nil_append] at head
    obtain ⟨noDigit, -, noSign⟩ := scanned.head_mark c head
    exact ⟨noDigit, noSign⟩
  | some digits =>
    rw [fraction] at head
    cases head
    decide

theorem Scanned.negative_of_head (minus : numeral.chars.head? = some '-') : numeral.negative = true := by
  cases negative : numeral.negative with
  | true => rfl
  | false =>
    have digits := scanned.whole
    simp only [chars, negative, signChars, List.nil_append, List.append_assoc] at minus
    cases whole : numeral.whole with
    | nil =>
      rw [whole, List.nil_append] at minus
      exact absurd rfl (scanned.head_fraction '-' minus).2
    | cons c rest =>
      rw [whole] at digits minus
      cases minus
      exact absurd (digits '-' (.head _)) (by decide)

/-- A numeral is found again in its own characters. -/
theorem Scanned.scan_chars : scan numeral.chars = (numeral, []) := by
  refine Leads.scan_eq ⟨scanned, (List.append_nil _).symm, scanned.negative_of_head, ?_, ?_, ?_, by simp⟩
  · rw [List.append_nil]
    exact fun c head => (scanned.head_fraction c head).1
  · rw [List.append_nil]
    exact fun _ point => (scanned.head_mark '.' point).2.1 rfl
  · rw [List.append_nil]
    exact fun _ c head => (scanned.head_mark c head).1

end Chars

end EffectLang.Numeral
