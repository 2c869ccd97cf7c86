import EffectLang.Proofs.Token.Lexeme
import EffectLang.Proofs.Token.Trivia
import EffectLang.Token.Reader

/-!
Places in a source. Everything that a scanning step can do is said once here: it skips a run of trivia and
then reads one lexeme or stands at the end; and its byte positions cut the source between characters.
-/
namespace EffectLang

namespace Utf8

private theorem cutInto?_append (left right taken : List Char) :
    cutInto? (byteLength left) taken (left ++ right) = some (taken.reverse ++ left, right) := by
  induction left generalizing taken with
  | nil => cases right <;> simp [cutInto?]
  | cons c left ih =>
    have positive := c.utf8Size_pos
    obtain ⟨size, counted⟩ : ∃ size, byteLength (c :: left) = size + 1 :=
      ⟨c.utf8Size + byteLength left - 1, by rw [byteLength_cons]; omega⟩
    have fits : c.utf8Size ≤ size + 1 := by rw [← counted, byteLength_cons]; omega
    have later : size + 1 - c.utf8Size = byteLength left := by rw [← counted, byteLength_cons]; omega
    rw [counted, List.cons_append, cutInto?, if_pos fits, later, ih]
    simp

theorem slice?_append (before middle after : List Char) :
    slice? (before ++ (middle ++ after)) (byteLength before) (byteLength (before ++ middle)) = some middle := by
  have ordered : byteLength before ≤ byteLength (before ++ middle) := by simp
  have size : byteLength (before ++ middle) - byteLength before = byteLength middle := by simp
  simp only [slice?, ordered, if_true, size, cut?, cutInto?_append, List.reverse_nil, List.nil_append,
    Option.map_some]

theorem byteLength_pos {text : List Char} (nonempty : text ≠ []) : 0 < byteLength text := by
  obtain ⟨c, rest, rfl⟩ := List.exists_cons_of_ne_nil nonempty
  have positive := c.utf8Size_pos
  rw [byteLength_cons]
  omega

theorem utf8ByteSize_ofList (text : List Char) : (String.ofList text).utf8ByteSize = byteLength text := by
  induction text with
  | nil => rfl
  | cons c text ih =>
    have front : String.ofList (c :: text) = String.singleton c ++ String.ofList text := by
      rw [String.singleton_eq_ofList, ← String.ofList_append]
      rfl
    rw [front, String.utf8ByteSize_append, String.utf8ByteSize_singleton, ih, byteLength_cons]

end Utf8

namespace Cursor

/-- The place behind some text, with the rest of the source unread. -/
structure At (cursor : Cursor) (before rest : List Char) : Prop where
  position : cursor.position = Utf8.byteLength before
  rest : cursor.rest = rest

theorem At.advance {cursor : Cursor} {before taken rest : List Char} (place : cursor.At before (taken ++ rest)) :
    (cursor.advance taken rest).At (before ++ taken) rest :=
  ⟨by simp [Cursor.advance, place.position], rfl⟩

theorem advance_advance (cursor : Cursor) (first second between rest : List Char) :
    (cursor.advance first between).advance second rest = cursor.advance (first ++ second) rest := by
  simp [advance, Nat.add_assoc]

/-- Scanning at the end of a run of trivia that nothing follows. -/
theorem scan_of_end {cursor : Cursor} (ended : Trivia.Run cursor.rest []) :
    cursor.scan = ⟨none, ⟨.endOfStream, "", (cursor.advance cursor.rest []).position,
      (cursor.advance cursor.rest []).line⟩, cursor.advance cursor.rest []⟩ := by
  have split := Trivia.split_of_run ended Trivia.stuck_nil
  rw [List.append_nil] at split
  simp only [scan, skipTrivia, split, readHere]
  rfl

/-- Scanning where a run of trivia and a lexeme stand. -/
theorem scan_of_read {cursor : Cursor} {trivia rest : List Char} {lexeme : Lexeme}
    (unread : cursor.rest = trivia ++ (lexeme.chars ++ rest)) (run : Trivia.Run trivia (lexeme.chars ++ rest))
    (stuck : Trivia.Stuck (lexeme.chars ++ rest))
    (read : Lexeme.read? (lexeme.chars ++ rest) = some (lexeme, rest)) :
    cursor.scan = ⟨some lexeme, ⟨lexeme.kind, String.ofList lexeme.text,
      cursor.position + Utf8.byteLength trivia + lexeme.margin, cursor.line + trivia.count '\n'⟩,
      cursor.advance (trivia ++ lexeme.chars) rest⟩ := by
  have split := Trivia.split_of_run run stuck
  simp only [scan, skipTrivia, unread, split, readHere]
  rw [show (cursor.advance trivia (lexeme.chars ++ rest)).rest = lexeme.chars ++ rest from rfl, read]
  simp only [advance_advance]
  rfl

/-- All that a scanning step can meet: only trivia to the end, or trivia and a lexeme. -/
theorem scan_cases (cursor : Cursor) :
    Trivia.Run cursor.rest [] ∨
      ∃ trivia lexeme rest, cursor.rest = trivia ++ (lexeme.chars ++ rest) ∧
        Trivia.Run trivia (lexeme.chars ++ rest) ∧ Trivia.Stuck (lexeme.chars ++ rest) ∧
        Lexeme.read? (lexeme.chars ++ rest) = some (lexeme, rest) := by
  obtain ⟨run, stuck⟩ := Trivia.split_run cursor.rest
  have whole := Trivia.split_append cursor.rest
  cases read : Lexeme.read? (Trivia.split cursor.rest).2 with
  | none =>
    have ended := Lexeme.eq_nil_of_read? read
    rw [ended] at whole run
    rw [List.append_nil] at whole
    exact .inl (whole ▸ run)
  | some result =>
    obtain ⟨lexeme, rest⟩ := result
    have spelled := Lexeme.chars_append_of_read? read
    rw [← spelled] at whole run stuck read
    exact .inr ⟨_, lexeme, rest, whole.symm, run, stuck, read⟩

end Cursor

namespace Reader

/-- A reader that stands between two parts of its source. -/
structure Placed (reader : Reader) (before rest : List Char) : Prop where
  source : reader.source = before ++ rest
  place : reader.cursor.At before rest

theorem placed_start (source : String) (capacity : LiteralTable.Capacity) :
    (start source capacity).Placed [] source.toList :=
  ⟨rfl, rfl, rfl⟩

theorem source_keep (reader : Reader) (lexeme : Option Lexeme) :
    (reader.keep lexeme).source = reader.source := by
  unfold keep
  split <;> rfl

theorem Placed.next_end {reader : Reader} {before rest : List Char} (placed : reader.Placed before rest)
    (ended : Trivia.Run rest []) :
    reader.next = (⟨.endOfStream, "", Utf8.byteLength (before ++ rest), reader.cursor.line + rest.count '\n'⟩,
      { reader with cursor := reader.cursor.advance rest [] }) ∧
    reader.next.2.Placed (before ++ rest) [] := by
  have unread := placed.place.rest
  have step : reader.next = (⟨.endOfStream, "", Utf8.byteLength (before ++ rest),
      reader.cursor.line + rest.count '\n'⟩, { reader with cursor := reader.cursor.advance rest [] }) := by
    have scanned := Cursor.scan_of_end (unread ▸ ended : Trivia.Run reader.cursor.rest [])
    simp only [next, scanned, unread, keep, Cursor.advance, placed.place.position, Utf8.byteLength_append]
  refine ⟨step, ?_⟩
  rw [step]
  refine ⟨by simpa using placed.source, ?_⟩
  exact Cursor.At.advance (by simpa using placed.place)

theorem Placed.next_read {reader : Reader} {before trivia rest : List Char} {lexeme : Lexeme}
    (placed : reader.Placed before (trivia ++ (lexeme.chars ++ rest)))
    (run : Trivia.Run trivia (lexeme.chars ++ rest)) (stuck : Trivia.Stuck (lexeme.chars ++ rest))
    (read : Lexeme.read? (lexeme.chars ++ rest) = some (lexeme, rest)) :
    reader.next = (⟨lexeme.kind, String.ofList lexeme.text, Utf8.byteLength (before ++ trivia) + lexeme.margin,
      reader.cursor.line + trivia.count '\n'⟩,
      { reader.keep (some lexeme) with cursor := reader.cursor.advance (trivia ++ lexeme.chars) rest }) ∧
    reader.next.2.Placed (before ++ (trivia ++ lexeme.chars)) rest := by
  have step : reader.next = (⟨lexeme.kind, String.ofList lexeme.text,
      Utf8.byteLength (before ++ trivia) + lexeme.margin, reader.cursor.line + trivia.count '\n'⟩,
      { reader.keep (some lexeme) with cursor := reader.cursor.advance (trivia ++ lexeme.chars) rest }) := by
    have scanned := Cursor.scan_of_read placed.place.rest run stuck read
    simp only [next, scanned, placed.place.position, Utf8.byteLength_append]
  refine ⟨step, ?_⟩
  rw [step]
  refine ⟨?_, ?_⟩
  · simp only [source_keep, placed.source, List.append_assoc]
  · exact Cursor.At.advance (by simpa using placed.place)

end Reader

end EffectLang
