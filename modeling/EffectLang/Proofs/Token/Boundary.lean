import EffectLang.Proofs.Token.Place

/-!
What follows a text does not change how the text is read, as long as it cannot run on into it. A word or a
number needs a boundary behind it; a mark, a closed string and trivia that is complete in itself do not.
-/
namespace EffectLang

namespace Trivia

/-- Trivia that is complete in itself, whatever follows it. -/
def Gap (gap : List Char) : Prop :=
  ∀ rest, Run gap rest

theorem gap_nil : Gap [] := fun _ => .nil

theorem gap_blanks {gap : List Char} (blanks : ∀ c ∈ gap, isBlank c = true) : Gap gap := by
  intro rest
  induction gap with
  | nil => exact .nil
  | cons c gap ih =>
    have blank := (isBlank_iff c).mp (blanks c (by simp))
    exact .cons (.blank blank) (ih fun d member => blanks d (by simp [member]))

theorem Trivium.append {first text : List Char} (more : List Char) (trivium : Trivium first text)
    (nonempty : text ≠ []) : Trivium first (text ++ more) := by
  cases trivium with
  | blank blank => exact .blank blank
  | line inside stop =>
    obtain ⟨c, text, rfl⟩ := List.exists_cons_of_ne_nil nonempty
    exact .line inside stop
  | block inside => exact .block inside
  | unclosed => exact absurd rfl nonempty

theorem Run.append {trivia text : List Char} (more : List Char) (run : Run trivia text) (nonempty : text ≠ []) :
    Run trivia (text ++ more) := by
  induction run with
  | nil => exact .nil
  | cons head last ih =>
    have longer := head.append more (by simp [nonempty])
    rw [List.append_assoc] at longer
    exact .cons longer (ih nonempty)

theorem Stuck.append {text : List Char} (more : List Char) (stuck : Stuck text) (nonempty : text ≠ [])
    (apart : ∀ c ∈ more.head?, c ≠ '/' ∧ c ≠ '*') : Stuck (text ++ more) := by
  obtain ⟨c, text, rfl⟩ := List.exists_cons_of_ne_nil nonempty
  obtain ⟨visible, noComment⟩ := stuck_cons_iff.mp stuck
  refine stuck_cons visible fun slash d head => ?_
  cases text with
  | nil => exact apart d head
  | cons e text => exact noComment slash d head

end Trivia

namespace Lexeme

/-- A text that continues no word and no number. -/
def Boundary (text : List Char) : Prop :=
  ∀ c ∈ text.head?, isWordChar c = false ∧ c ≠ '.'

/-- Whether a lexeme ends where it does with some text behind it. -/
def EndsBefore (more : List Char) : Lexeme → Prop
  | .word _ => Boundary more
  | .number _ => Boundary more
  | .quoted _ closed => closed = true
  | _ => True

theorem boundary_nil : Boundary [] := by
  intro c member
  cases member

theorem boundary_cons {c : Char} {rest : List Char} (apart : isWordChar c = false ∧ c ≠ '.') :
    Boundary (c :: rest) := by
  intro d member
  cases member
  exact apart

theorem isDigit_of_isWordChar {c : Char} (apart : isWordChar c = false) : c.isDigit = false := by
  simp only [isWordChar, Char.isAlphanum, Bool.or_eq_false_iff] at apart
  exact apart.1.2

theorem takeWhile_append_boundary {p : Char → Bool} {more : List Char} (text : List Char)
    (stop : ∀ c ∈ more.head?, p c = false) : (text ++ more).takeWhile p = text.takeWhile p := by
  induction text with
  | nil =>
    cases more with
    | nil => rfl
    | cons c more => simp [stop c rfl]
  | cons c text ih => simp [List.takeWhile_cons, ih]

theorem dropWhile_append_boundary {p : Char → Bool} {more : List Char} (text : List Char)
    (stop : ∀ c ∈ more.head?, p c = false) : (text ++ more).dropWhile p = text.dropWhile p ++ more := by
  induction text with
  | nil =>
    cases more with
    | nil => rfl
    | cons c more => simp [stop c rfl]
  | cons c text ih =>
    simp only [List.cons_append, List.dropWhile_cons, ih]
    split <;> simp

private theorem takeFraction_append_boundary {more : List Char} (text : List Char) (boundary : Boundary more) :
    Numeral.takeFraction (text ++ more) =
      ((Numeral.takeFraction text).1, (Numeral.takeFraction text).2 ++ more) := by
  have stop : ∀ c ∈ more.head?, c.isDigit = false := fun c head => isDigit_of_isWordChar (boundary c head).1
  cases text with
  | nil =>
    cases more with
    | nil => rfl
    | cons c more =>
      have noPoint := (boundary c rfl).2
      simp [Numeral.takeFraction, noPoint]
  | cons c text =>
    by_cases point : c = '.'
    · subst point
      simp [Numeral.takeFraction, takeWhile_append_boundary text stop, dropWhile_append_boundary text stop]
    · simp [Numeral.takeFraction, point]

private theorem takeMark_append_boundary {more : List Char} (text : List Char) (boundary : Boundary more) :
    Numeral.takeMark (text ++ more) = ((Numeral.takeMark text).1, (Numeral.takeMark text).2 ++ more) := by
  cases text with
  | nil =>
    cases more with
    | nil => rfl
    | cons c more =>
      have noWord := (boundary c rfl).1
      have small : c ≠ 'e' := by
        rintro rfl
        simp [isWordChar] at noWord
      have great : c ≠ 'E' := by
        rintro rfl
        simp [isWordChar] at noWord
      simp [Numeral.takeMark, small, great]
  | cons c text =>
    by_cases small : c = 'e'
    · simp [Numeral.takeMark, small]
    · by_cases great : c = 'E'
      · simp [Numeral.takeMark, great]
      · simp [Numeral.takeMark, small, great]

private theorem takeSign_append_cons (c : Char) (text more : List Char) :
    Numeral.takeSign (c :: text ++ more) =
      ((Numeral.takeSign (c :: text)).1, (Numeral.takeSign (c :: text)).2 ++ more) := by
  by_cases minus : c = '-'
  · simp [Numeral.takeSign, minus]
  · simp [Numeral.takeSign, minus]

theorem scan_append_boundary {more : List Char} (c : Char) (text : List Char) (boundary : Boundary more) :
    Numeral.scan (c :: text ++ more) = ((Numeral.scan (c :: text)).1, (Numeral.scan (c :: text)).2 ++ more) := by
  have stop : ∀ c ∈ more.head?, c.isDigit = false := fun c head => isDigit_of_isWordChar (boundary c head).1
  simp only [Numeral.scan, takeSign_append_cons, takeWhile_append_boundary _ stop,
    dropWhile_append_boundary _ stop, takeFraction_append_boundary _ boundary, takeMark_append_boundary _ boundary]

theorem bodyInto_append_closed (taken text more : List Char) (closed : (bodyInto taken text).2.1 = true) :
    bodyInto taken (text ++ more) = ((bodyInto taken text).1, true, (bodyInto taken text).2.2 ++ more) := by
  fun_induction bodyInto taken text with
  | case1 => cases closed
  | case2 taken text => rfl
  | case3 taken c text ih => simpa [bodyInto] using ih closed
  | case4 taken c text noQuote noEscape ih =>
    -- A backslash that ends the text escapes nothing and leaves the string open.
    have notLast : c = '\\' → False := by
      rintro rfl
      cases text with
      | nil => simp [bodyInto] at closed
      | cons d text => exact noEscape d text rfl rfl
    rw [List.cons_append, bodyInto]
    · exact ih closed
    · exact noQuote
    · exact fun _ _ slash _ => notLast slash

/-- What follows a text does not change the lexeme at its start. -/
theorem read?_append {text later more : List Char} {lexeme : Lexeme}
    (read : read? text = some (lexeme, later)) (ends : lexeme.EndsBefore more) :
    read? (text ++ more) = some (lexeme, later ++ more) := by
  cases text with
  | nil => cases read
  | cons c text =>
    simp only [read?, List.cons_append] at read ⊢
    cases mark : Token.Kind.ofMark? c with
    | some kind =>
      rw [mark] at read
      cases read
      rfl
    | none =>
      simp only [mark] at read ⊢
      split at read
      · rename_i quote
        cases read
        rw [if_pos quote, bodyInto_append_closed _ _ _ ends]
        simp only [show (bodyInto [] text).2.1 = true from ends]
      · rename_i noQuote
        rw [if_neg noQuote]
        split at read
        · rename_i letter
          cases read
          have stop : ∀ c ∈ more.head?, isWordChar c = false := fun c head => (ends c head).1
          rw [if_pos letter, takeWhile_append_boundary _ stop, dropWhile_append_boundary _ stop]
        · rename_i noLetter
          rw [if_neg noLetter]
          split at read
          · rename_i start
            simp only [Option.some.injEq, Prod.mk.injEq] at read
            obtain ⟨rfl, rfl⟩ := read
            rw [if_pos start, ← List.cons_append, scan_append_boundary c text ends]
          · rename_i noStart
            cases read
            rw [if_neg noStart]

theorem endsBefore_of_boundary {lexeme : Lexeme} {more : List Char} (boundary : Boundary more)
    (closed : ∀ body, lexeme ≠ .quoted body false) : lexeme.EndsBefore more := by
  cases lexeme with
  | mark kind c => trivial
  | word text => exact boundary
  | number numeral => exact boundary
  | quoted body isClosed =>
    cases isClosed with
    | false => exact absurd rfl (closed body)
    | true => rfl
  | unknown c => trivial

/-- Trivia and a lexeme behind it stay what they are with more text after them. -/
theorem found_append {trivia rest more : List Char} {lexeme : Lexeme} (run : Trivia.Run trivia (lexeme.chars ++ rest))
    (stuck : Trivia.Stuck (lexeme.chars ++ rest)) (read : read? (lexeme.chars ++ rest) = some (lexeme, rest))
    (closed : ∀ body, lexeme ≠ .quoted body false) (boundary : Boundary more)
    (visible : ∀ c ∈ more.head?, c ≠ '/' ∧ c ≠ '*') :
    Trivia.Run trivia (lexeme.chars ++ (rest ++ more)) ∧ Trivia.Stuck (lexeme.chars ++ (rest ++ more)) ∧
      read? (lexeme.chars ++ (rest ++ more)) = some (lexeme, rest ++ more) := by
  have nonempty : lexeme.chars ++ rest ≠ [] := by simp [chars_ne_nil_of_read? read]
  rw [← List.append_assoc]
  exact ⟨run.append more nonempty, stuck.append more nonempty visible,
    read?_append read (endsBefore_of_boundary boundary closed)⟩

end Lexeme

end EffectLang
