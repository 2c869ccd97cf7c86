import EffectLang.Proofs.Token.Place

/-!
The token stream tiles the source: from every place that is reached by reading tokens, the next one takes a
longest run of trivia and one lexeme of the grammar, and nothing is skipped or read twice.
-/
namespace EffectLang.Reader

/-- The reader after a number of tokens. -/
def skip : Nat → Reader → Reader
  | 0, reader => reader
  | count + 1, reader => skip count reader.next.2

theorem Placed.next {reader : Reader} {before rest : List Char} (placed : reader.Placed before rest) :
    ∃ taken later, rest = taken ++ later ∧ reader.next.2.Placed (before ++ taken) later := by
  rcases reader.cursor.scan_cases with ended | ⟨trivia, lexeme, later, unread, run, stuck, read⟩
  · rw [placed.place.rest] at ended
    exact ⟨rest, [], by simp, (placed.next_end ended).2⟩
  · rw [placed.place.rest] at unread
    subst unread
    exact ⟨trivia ++ lexeme.chars, later, by simp, (placed.next_read run stuck read).2⟩

theorem Placed.skip {reader : Reader} {before rest : List Char} (placed : reader.Placed before rest)
    (count : Nat) : ∃ taken later, rest = taken ++ later ∧ (skip count reader).Placed (before ++ taken) later := by
  induction count generalizing reader before rest with
  | zero => exact ⟨[], rest, rfl, by simpa [Reader.skip] using placed⟩
  | succ count ih =>
    obtain ⟨first, between, rfl, next⟩ := placed.next
    obtain ⟨second, later, rfl, last⟩ := ih next
    exact ⟨first ++ second, later, by simp, by simpa [Reader.skip] using last⟩

theorem Placed.next_again {reader : Reader} {before rest : List Char} (placed : reader.Placed before rest)
    (ended : Trivia.Run rest []) : reader.next.2.next = reader.next := by
  obtain ⟨step, finished⟩ := placed.next_end ended
  rw [(finished.next_end .nil).1, step]
  simp [Cursor.advance]

/-- The text of a token stands in the source between the ends that the token states. -/
theorem Placed.next_text {reader : Reader} {before trivia opening closing after : List Char} {lexeme : Lexeme}
    (placed : reader.Placed before (trivia ++ (lexeme.chars ++ after)))
    (run : Trivia.Run trivia (lexeme.chars ++ after)) (stuck : Trivia.Stuck (lexeme.chars ++ after))
    (read : Lexeme.read? (lexeme.chars ++ after) = some (lexeme, after))
    (spelled : lexeme.chars = opening ++ (lexeme.text ++ closing))
    (margin : Utf8.byteLength opening = lexeme.margin) :
    reader.next.1.offset = Utf8.byteLength before + Utf8.byteLength (trivia ++ opening) ∧
      Utf8.slice? reader.source reader.next.1.offset reader.next.1.stop = some lexeme.text := by
  have step := (placed.next_read run stuck read).1
  have text : reader.next.1.text = String.ofList lexeme.text := by rw [step]
  have offset : reader.next.1.offset = Utf8.byteLength (before ++ (trivia ++ opening)) := by
    rw [step, ← margin]
    simp [Nat.add_assoc]
  have stop : reader.next.1.stop = Utf8.byteLength (before ++ (trivia ++ opening) ++ lexeme.text) := by
    rw [Token.stop, offset, text, Utf8.utf8ByteSize_ofList, ← Utf8.byteLength_append]
  refine ⟨by rw [offset, Utf8.byteLength_append], ?_⟩
  rw [offset, stop, placed.source, spelled]
  simpa using Utf8.slice?_append (before ++ (trivia ++ opening)) lexeme.text (closing ++ after)

/-- From every place that reading tokens leads to, the next token is the end of the stream exactly when only
trivia remains, and stays so from then on. Any other token moves on, over a longest run of trivia and one
lexeme of its kind, and its text stands in the source where it says. -/
theorem next_tiles_source (source : String) (capacity : LiteralTable.Capacity) (count : Nat) :
    let reader := skip count (start source capacity)
    let token := reader.next.1
    let later := reader.next.2
    ∃ before rest, source.toList = before ++ rest ∧ reader.cursor.position = Utf8.byteLength before ∧
      (token.kind = .endOfStream ↔ Trivia.Run rest []) ∧
      if token.kind = .endOfStream then
        later.cursor.position = source.utf8ByteSize ∧ token.offset = source.utf8ByteSize ∧ token.text = "" ∧
          later.next = (token, later)
      else
        reader.cursor.position < later.cursor.position ∧
        ∃ trivia opening text closing after, rest = trivia ++ (opening ++ (text ++ closing) ++ after) ∧
          Utf8.slice? source.toList reader.cursor.position later.cursor.position =
            some (trivia ++ (opening ++ (text ++ closing))) ∧
          Trivia.Run trivia (opening ++ (text ++ closing) ++ after) ∧
          Trivia.Stuck (opening ++ (text ++ closing) ++ after) ∧
          Lexeme.Spelled token.kind opening text closing after ∧
          token.text = String.ofList text ∧
          token.offset = reader.cursor.position + Utf8.byteLength (trivia ++ opening) ∧
          Utf8.slice? source.toList token.offset token.stop = some text := by
  intro reader token later
  obtain ⟨before, rest, whole, placed⟩ := (placed_start source capacity).skip count
  rw [List.nil_append] at placed
  refine ⟨before, rest, whole, placed.place.position, ?_⟩
  have size : Utf8.byteLength source.toList = source.utf8ByteSize := by
    rw [← Utf8.utf8ByteSize_ofList, String.ofList_toList]
  rcases reader.cursor.scan_cases with ended | ⟨trivia, lexeme, after, unread, run, stuck, read⟩
  · rw [placed.place.rest] at ended
    obtain ⟨step, finished⟩ := placed.next_end ended
    have kind : token.kind = .endOfStream := congrArg (fun result => result.1.kind) step
    refine ⟨⟨fun _ => ended, fun _ => kind⟩, ?_⟩
    rw [if_pos kind, ← size, whole]
    exact ⟨finished.place.position, congrArg (fun result => result.1.offset) step,
      congrArg (fun result => result.1.text) step, placed.next_again ended⟩
  · rw [placed.place.rest] at unread
    subst unread
    obtain ⟨step, behind⟩ := placed.next_read run stuck read
    obtain ⟨opening, closing, spelled, margin, form⟩ := Lexeme.spelled_of_read? read
    have kind : token.kind = lexeme.kind := congrArg (fun result => result.1.kind) step
    have more : token.kind ≠ .endOfStream := kind ▸ Cursor.kind_ne_endOfStream read
    have text : token.text = String.ofList lexeme.text := congrArg (fun result => result.1.text) step
    obtain ⟨offset, slice⟩ := placed.next_text run stuck read spelled margin
    have moved : later.cursor.position = Utf8.byteLength (before ++ (trivia ++ lexeme.chars)) :=
      behind.place.position
    refine ⟨⟨fun ended => absurd ended more, fun ended => ?_⟩, ?_⟩
    · have step := (placed.next_end ended).1
      exact congrArg (fun result => result.1.kind) step
    rw [placed.source] at slice
    rw [if_neg more, placed.place.position, moved, kind, whole]
    rw [spelled] at run stuck slice ⊢
    refine ⟨?_, trivia, opening, lexeme.text, closing, after, rfl, ?_, run, stuck, form, text, offset, slice⟩
    · have positive := Utf8.byteLength_pos (Lexeme.chars_ne_nil_of_read? read)
      rw [spelled] at positive
      simp only [Utf8.byteLength_append] at positive ⊢
      omega
    · simpa using Utf8.slice?_append before (trivia ++ (opening ++ (lexeme.text ++ closing))) after

end EffectLang.Reader
