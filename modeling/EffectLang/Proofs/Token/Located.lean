import EffectLang.Proofs.Token.Tiling

/-!
Readers in use. Whatever a reader is asked for, it stands between two characters of its source, and it counts the
lines up to there.
-/
namespace EffectLang

theorem Utf8.byteLength_toList (text : String) : byteLength text.toList = text.utf8ByteSize := by
  rw [← utf8ByteSize_ofList, String.ofList_toList]

/-- The text of a token stands behind `before`. -/
structure Token.Lies (token : Token) (before text : List Char) : Prop where
  text : token.text = String.ofList text
  offset : token.offset = Utf8.byteLength before

theorem Token.Lies.stop {token : Token} {before text : List Char} (lies : token.Lies before text) :
    token.stop = Utf8.byteLength (before ++ text) := by
  rw [Token.stop, lies.text, lies.offset, Utf8.utf8ByteSize_ofList, Utf8.byteLength_append]

namespace Reader

structure Located (reader : Reader) (before rest : List Char) : Prop extends reader.Placed before rest where
  line : reader.cursor.line = 1 + before.count '\n'

theorem located_start (source : String) (capacity : LiteralTable.Capacity) :
    (start source capacity).Located [] source.toList :=
  ⟨placed_start source capacity, rfl⟩

theorem error_next (reader : Reader) : reader.next.2.error = reader.error := by
  simp only [next, keep]
  split <;> rfl

theorem error_report (reader : Reader) (kind : Token.Kind) (token : Token) :
    (reader.report kind token).error.isSome := by
  unfold report
  split
  · rename_i complaint
    simp [complaint]
  · rfl

theorem cursor_report (reader : Reader) (kind : Token.Kind) (token : Token) :
    (reader.report kind token).cursor = reader.cursor := by
  unfold report
  split <;> rfl

theorem source_report (reader : Reader) (kind : Token.Kind) (token : Token) :
    (reader.report kind token).source = reader.source := by
  unfold report
  split <;> rfl

/-- All that a required token can come to: after a complaint nothing is read, and otherwise the next token is, which
may bring the complaint. -/
theorem expect_cases (reader : Reader) (kind : Token.Kind) :
    reader.error.isSome ∧ reader.expect kind = (.ok (reader.placeholder kind), reader) ∨
      reader.error = none ∧ reader.next.1.kind = kind ∧ reader.expect kind = (.ok reader.next.1, reader.next.2) ∨
      reader.error = none ∧ reader.next.1.kind ≠ kind ∧
        reader.expect kind = (.error (.of kind reader.next.1), reader.next.2.report kind reader.next.1) := by
  unfold expect hasError
  cases reader.error with
  | some complaint => exact .inl ⟨rfl, rfl⟩
  | none =>
    by_cases met : reader.next.1.kind = kind
    · exact .inr (.inl ⟨rfl, met, by simp [met]⟩)
    · exact .inr (.inr ⟨rfl, met, by simp [met]⟩)

theorem spelled_next {reader : Reader} {kind : Token.Kind} (found : reader.next.1.kind = kind)
    (more : kind ≠ .endOfStream) :
    ∃ opening text closing rest, reader.next.1.text.toList = text ∧ Lexeme.Spelled kind opening text closing rest := by
  rcases reader.cursor.scan_cases with ended | ⟨trivia, lexeme, later, unread, run, stuck, read⟩
  · simp only [next, Cursor.scan_of_end ended] at found
    exact absurd found.symm more
  · obtain ⟨opening, closing, -, -, form⟩ := Lexeme.spelled_of_read? read
    simp only [next, Cursor.scan_of_read unread run stuck read] at found ⊢
    rw [found] at form
    exact ⟨opening, lexeme.text, closing, later, String.toList_ofList, form⟩

theorem isWord_next {reader : Reader} (word : reader.next.1.kind = .identifier) :
    Lexeme.IsWord reader.next.1.text.toList := by
  obtain ⟨opening, text, closing, rest, spelled, form⟩ := spelled_next word (by decide)
  rw [spelled]
  cases form with
  | mark listed => simp [Lexeme.marks] at listed
  | word longest => exact longest.1

variable {reader : Reader} {before rest : List Char}

theorem Located.report (located : reader.Located before rest) (kind : Token.Kind) (token : Token) :
    (reader.report kind token).Located before rest where
  source := by rw [source_report, located.source]
  place := by rw [cursor_report]; exact located.place
  line := by rw [cursor_report]; exact located.line

/-- All that reading a token does: behind a gap lies its text, and behind that the reader goes on. Only at the end
of the source nothing is taken. -/
theorem Located.next (located : reader.Located before rest) :
    ∃ gap text tail later, rest = gap ++ (text ++ (tail ++ later)) ∧ reader.next.1.Lies (before ++ gap) text ∧
      reader.next.2.Located (before ++ (gap ++ (text ++ tail))) later ∧
      (reader.next.1.kind = .endOfStream → text = [] ∧ tail = [] ∧ later = []) ∧
      (reader.next.1.kind ≠ .endOfStream → gap ++ (text ++ tail) ≠ []) := by
  rcases reader.cursor.scan_cases with ended | ⟨trivia, lexeme, later, unread, run, stuck, read⟩
  · rw [located.place.rest] at ended
    obtain ⟨step, finished⟩ := located.toPlaced.next_end ended
    refine ⟨rest, [], [], [], by simp, ?_, ⟨by simpa using finished, ?_⟩, fun _ => ⟨rfl, rfl, rfl⟩, ?_⟩
    · rw [step]
      exact ⟨rfl, rfl⟩
    · rw [step]
      simp [Cursor.advance, located.line, Nat.add_assoc]
    · intro more
      rw [step] at more
      exact absurd rfl more
  · rw [located.place.rest] at unread
    subst unread
    obtain ⟨step, behind⟩ := located.toPlaced.next_read run stuck read
    obtain ⟨opening, closing, spelled, margin, form⟩ := Lexeme.spelled_of_read? read
    have taken : trivia ++ opening ++ (lexeme.text ++ closing) = trivia ++ lexeme.chars := by
      rw [spelled, List.append_assoc]
    refine ⟨trivia ++ opening, lexeme.text, closing, later, ?_, ?_, ?_, ?_, ?_⟩
    · rw [spelled]
      simp only [List.append_assoc]
    · rw [step]
      refine ⟨rfl, ?_⟩
      simp only [Utf8.byteLength_append, ← margin, Nat.add_assoc]
    · rw [taken]
      refine ⟨behind, ?_⟩
      rw [step]
      simp [Cursor.advance, located.line, Nat.add_assoc]
    · intro ended
      rw [step] at ended
      exact absurd ended (Cursor.kind_ne_endOfStream read)
    · intro more
      rw [taken]
      simp [Lexeme.chars_ne_nil_of_read? read]

/-- What a reader can be brought to: tokens are read and required, complaints are made and given away, and it
returns to places that were marked. -/
inductive Reached (first : Reader) : Reader → Prop
  | refl : Reached first first
  | next {reader : Reader} (reached : Reached first reader) : Reached first reader.next.2
  | expect {reader : Reader} (kind : Token.Kind) (reached : Reached first reader) :
      Reached first (reader.expect kind).2
  | report {reader : Reader} (kind : Token.Kind) (token : Token) (reached : Reached first reader) :
      Reached first (reader.report kind token)
  | takeError {reader : Reader} (reached : Reached first reader) : Reached first reader.takeError.2
  | restore {reader marked : Reader} (reached : Reached first reader) (mark : Reached first marked) :
      Reached first (reader.restore marked.cursor)

def Within (reader : Reader) (source : List Char) : Prop :=
  ∃ before rest, source = before ++ rest ∧ reader.Located before rest

variable {source : List Char}

theorem Within.source_eq (within : reader.Within source) : reader.source = source := by
  obtain ⟨before, rest, whole, located⟩ := within
  exact located.source.trans whole.symm

theorem Within.next (within : reader.Within source) : reader.next.2.Within source := by
  obtain ⟨before, rest, rfl, located⟩ := within
  obtain ⟨gap, text, tail, later, rfl, -, behind, -, -⟩ := located.next
  exact ⟨_, later, by simp, behind⟩

theorem Within.report (within : reader.Within source) (kind : Token.Kind) (token : Token) :
    (reader.report kind token).Within source := by
  obtain ⟨before, rest, whole, located⟩ := within
  exact ⟨before, rest, whole, located.report kind token⟩

theorem Within.expect (within : reader.Within source) (kind : Token.Kind) : (reader.expect kind).2.Within source := by
  obtain ⟨-, given⟩ | ⟨-, -, given⟩ | ⟨-, -, given⟩ := reader.expect_cases kind
  · rwa [given]
  · rw [given]
    exact within.next
  · rw [given]
    exact within.next.report kind reader.next.1

theorem Within.restore {marked : Reader} (within : reader.Within source) (mark : marked.Within source) :
    (reader.restore marked.cursor).Within source := by
  obtain ⟨front, back, same, marked⟩ := mark
  exact ⟨front, back, same, ⟨within.source_eq.trans same, marked.place⟩, marked.line⟩

theorem Reached.within {first : Reader} (reached : Reached first reader) (within : first.Within source) :
    reader.Within source := by
  induction reached with
  | refl => exact within
  | next _ ih => exact ih.next
  | expect kind _ ih => exact ih.expect kind
  | report kind token _ ih => exact ih.report kind token
  | takeError _ ih =>
    obtain ⟨before, rest, whole, located⟩ := ih
    exact ⟨before, rest, whole, ⟨located.source, located.place⟩, located.line⟩
  | restore _ _ ih mark => exact ih.restore mark

theorem within_of_reached {source : String} {capacity : LiteralTable.Capacity}
    (reached : Reached (start source capacity) reader) : reader.Within source.toList :=
  reached.within ⟨[], source.toList, rfl, located_start source capacity⟩

end Reader

end EffectLang
