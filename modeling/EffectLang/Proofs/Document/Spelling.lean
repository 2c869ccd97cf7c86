import EffectLang.Proofs.Document.Source
import EffectLang.Proofs.Literal.Numeral

/-!
Words, literals, labels and marks are lexemes: each reads back as itself, and what stands behind it does not
matter as long as the atom ends there.
-/
namespace EffectLang.Source

private theorem ne_of_class {p : Char → Bool} {c d : Char} (inside : p c = true) (outside : p d = false) :
    c ≠ d := by
  rintro rfl
  rw [inside] at outside
  cases outside

private theorem ofMark?_of_class {p : Char → Bool} {c : Char} (inside : p c = true)
    (outside : (Lexeme.marks.all fun mark => !p mark.1) = true) : Token.Kind.ofMark? c = none := by
  cases found : Token.Kind.ofMark? c with
  | none => rfl
  | some kind =>
    have other := List.all_eq_true.mp outside _ (Lexeme.mem_marks_iff.mpr found)
    simp [inside] at other

private theorem not_isAlpha_of_isDigit {c : Char} (digit : c.isDigit = true) : c.isAlpha = false := by
  simp only [Char.isDigit, Char.isAlpha, Char.isUpper, Char.isLower, Bool.and_eq_true, decide_eq_true_eq] at *
  grind

theorem Word.read?_chars (word : Word) : Lexeme.read? word.chars = some (.word word.chars, []) := by
  have noMark := ofMark?_of_class word.isAlpha (by decide)
  have noQuote : word.first ≠ '"' := ne_of_class word.isAlpha rfl
  have whole := List.takeWhile_eq_self_iff.mpr (List.all_eq_true.mp word.inside)
  have none := List.dropWhile_eq_nil_iff.mpr (List.all_eq_true.mp word.inside)
  simp only [chars, Lexeme.read?, noMark, noQuote, if_false, word.isAlpha, if_true, whole, none]

theorem Literal.scanned_numeral (literal : Literal) : literal.numeral.Scanned where
  whole := List.all_eq_true.mp literal.whole.inside
  fraction digits member := by
    obtain ⟨fraction, -, rfl⟩ := Option.map_eq_some_iff.mp member
    exact List.all_eq_true.mp fraction.inside
  mark := by simp [numeral]

theorem Literal.scan_chars (literal : Literal) : Numeral.scan literal.chars = (literal.numeral, []) :=
  literal.scanned_numeral.scan_chars

theorem Literal.head_chars (literal : Literal) :
    ∃ c more, literal.chars = c :: more ∧ (c.isDigit = true ∨ c = '-') := by
  obtain ⟨negative, ⟨whole, nonempty, inside⟩, fraction⟩ := literal
  obtain ⟨c, whole, rfl⟩ := List.exists_cons_of_ne_nil nonempty
  cases negative with
  | true => exact ⟨_, _, rfl, .inr rfl⟩
  | false => exact ⟨_, _, rfl, .inl (List.all_eq_true.mp inside c (by simp))⟩

/-- A digit or a minus sign begins a number. -/
theorem read?_of_start {c : Char} (rest : List Char) (start : c.isDigit = true ∨ c = '-') :
    Lexeme.read? (c :: rest) = some (.number (Numeral.scan (c :: rest)).1, (Numeral.scan (c :: rest)).2) := by
  rcases start with digit | rfl
  · have noMark := ofMark?_of_class digit (by decide)
    have noLetter := not_isAlpha_of_isDigit digit
    have noQuote : c ≠ '"' := ne_of_class digit rfl
    simp [Lexeme.read?, noMark, noQuote, noLetter, digit]
  · simp [Lexeme.read?, Token.Kind.ofMark?]

theorem Literal.read?_chars (literal : Literal) :
    Lexeme.read? literal.chars = some (.number literal.numeral, []) := by
  have scanned := literal.scan_chars
  obtain ⟨c, more, spelled, start⟩ := literal.head_chars
  rw [spelled] at scanned ⊢
  rw [read?_of_start more start, scanned]

private theorem bodyInto_plain (taken : List Char) {body : List Char} (noQuote : '"' ∉ body)
    (noEscape : '\\' ∉ body) :
    Lexeme.bodyInto taken (body ++ ['"']) = (taken.reverse ++ body, true, []) := by
  induction body generalizing taken with
  | nil => simp [Lexeme.bodyInto]
  | cons c body ih =>
    rw [List.mem_cons, not_or] at noQuote noEscape
    have later := ih (c :: taken) noQuote.2 noEscape.2
    rw [List.cons_append, Lexeme.bodyInto]
    · simpa using later
    · exact fun quote => noQuote.1 quote.symm
    · exact fun _ _ slash _ => noEscape.1 slash.symm

theorem Label.read?_quoted (label : Label) :
    Lexeme.read? ('"' :: (label.chars ++ ['"'])) = some (.quoted label.chars true, []) := by
  have body := bodyInto_plain [] label.noQuote label.noEscape
  simp [Lexeme.read?, Token.Kind.ofMark?, body]

theorem Mark.ofMark?_char (mark : Mark) : Token.Kind.ofMark? mark.char = some mark.kind := by
  cases mark <;> rfl

theorem Mark.read?_char (mark : Mark) : Lexeme.read? [mark.char] = some (.mark mark.kind mark.char, []) := by
  simp only [Lexeme.read?, mark.ofMark?_char]

/-- An atom that makes one lexeme, and begins no blank and no comment. -/
structure Atom.Spells (atom : Atom) (lexeme : Lexeme) : Prop where
  read : Lexeme.read? atom.chars = some (lexeme, [])
  stuck : ∀ rest, Trivia.Stuck (atom.chars ++ rest)
  ends : ∀ rest, atom.EndsBefore rest → lexeme.EndsBefore rest

private theorem stuck_visible {c : Char} (rest : List Char) (visible : Trivia.isBlank c = false)
    (noSlash : c ≠ '/') : Trivia.Stuck (c :: rest) :=
  Trivia.stuck_cons visible fun slash => absurd slash noSlash

private theorem stuck_of_class {p : Char → Bool} {c : Char} (rest : List Char) (inside : p c = true)
    (outside : ([' ', '\t', '\r', '\n', '/'].all fun d => !p d) = true) : Trivia.Stuck (c :: rest) := by
  simp only [List.all_cons, List.all_nil, Bool.and_true, Bool.and_eq_true, Bool.not_eq_true'] at outside
  obtain ⟨space, tab, carriage, feed, slash⟩ := outside
  apply stuck_visible
  · simp [Trivia.isBlank, ne_of_class inside space, ne_of_class inside tab, ne_of_class inside carriage,
      ne_of_class inside feed]
  · exact ne_of_class inside slash

theorem stuck_digit {c : Char} (rest : List Char) (digit : c.isDigit = true) : Trivia.Stuck (c :: rest) :=
  stuck_of_class rest digit (by decide)

/-- The number at the start of a type name such as `2D` ends before the letter. -/
theorem read?_sized {c : Char} (rest : List Char) (digit : c.isDigit = true) :
    Lexeme.read? (c :: 'D' :: rest) = some (.number ⟨false, [c], none, none⟩, 'D' :: rest) := by
  have noSign : c ≠ '-' := ne_of_class digit rfl
  rw [read?_of_start _ (.inl digit)]
  simp [Numeral.scan, Numeral.takeSign, noSign, digit, Numeral.takeFraction, Numeral.takeMark]

namespace Atom

theorem spells_word (word : Word) : (Atom.word word).Spells (.word word.chars) :=
  ⟨word.read?_chars, fun rest => stuck_of_class _ word.isAlpha (by decide), fun rest ends => ends⟩

theorem spells_literal (literal : Literal) : (Atom.literal literal).Spells (.number literal.numeral) := by
  refine ⟨literal.read?_chars, fun rest => ?_, fun rest ends => ends⟩
  obtain ⟨c, more, spelled, start⟩ := literal.head_chars
  rw [show (Atom.literal literal).chars = c :: more from spelled]
  rcases start with digit | rfl
  · exact stuck_digit _ digit
  · exact stuck_visible _ rfl (by decide)

theorem spells_label (label : Label) : (Atom.label label).Spells (.quoted label.chars true) :=
  ⟨label.read?_quoted, fun _ => stuck_visible _ rfl (by decide), fun _ _ => rfl⟩

theorem spells_mark (mark : Mark) : (Atom.mark mark).Spells (.mark mark.kind mark.char) := by
  refine ⟨mark.read?_char, fun rest => ?_, fun _ _ => trivial⟩
  cases mark <;> exact stuck_visible _ rfl (by decide)

theorem Spells.chars_eq {atom : Atom} {lexeme : Lexeme} (spells : atom.Spells lexeme) :
    lexeme.chars = atom.chars := by
  simpa using Lexeme.chars_append_of_read? spells.read

end Atom

end EffectLang.Source
