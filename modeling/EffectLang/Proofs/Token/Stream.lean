import EffectLang.Proofs.Document.Facing
import EffectLang.Proofs.Token.Located

/-!
The tokens that lie ahead of a reader. Reading takes the first of them, except that the end of the source stays ahead
for ever. All that a token leaves behind in the reader is told by its kind and its text.
-/
namespace EffectLang

/-- The numeral that the text of a token spells, if the token is a number. -/
def Token.numeral? (token : Token) : Option Numeral :=
  if token.kind = .number then some (Numeral.scan token.text.toList).1 else none

theorem Lexeme.numeral_of_read? {source rest : List Char} {numeral : Numeral}
    (read : read? source = some (.number numeral, rest)) : (Numeral.scan numeral.chars).1 = numeral := by
  suffices scanned : numeral.Scanned by rw [scanned.scan_chars]
  unfold read? at read
  split at read
  · cases read
  · split at read
    · cases read
    · split_ifs at read
      · cases read
      · cases read
      · cases read
        exact Numeral.scanned_scan _
      · cases read

theorem Lexeme.mark_ne_number {source rest : List Char} {kind : Token.Kind} {c : Char}
    (read : read? source = some (.mark kind c, rest)) : kind ≠ .number := by
  unfold read? at read
  split at read
  · cases read
  · split at read
    · rename_i listed
      cases read
      unfold Token.Kind.ofMark? at listed
      split at listed <;> cases listed <;> decide
    · split_ifs at read <;> cases read

namespace Cursor

/-- The lexeme of a number is told by its token, and no other lexeme makes a number. -/
theorem numeral?_of_scan (cursor : Cursor) :
    cursor.scan.lexeme = cursor.scan.token.numeral?.map .number ∨
      cursor.scan.token.numeral? = none ∧ ∀ numeral, cursor.scan.lexeme ≠ some (.number numeral) := by
  rcases cursor.scan_cases with ended | ⟨trivia, lexeme, rest, unread, run, stuck, read⟩
  · rw [scan_of_end ended]
    exact .inl rfl
  · rw [scan_of_read unread run stuck read]
    cases lexeme with
    | number numeral =>
      refine .inl ?_
      simp only [Token.numeral?, Lexeme.kind, Lexeme.text, if_true, String.toList_ofList, Option.map_some]
      rw [Lexeme.numeral_of_read? read]
    | mark kind c => exact .inr ⟨if_neg (Lexeme.mark_ne_number read), by simp⟩
    | _ => exact .inr ⟨rfl, by simp⟩

theorem tokens_of_end {cursor : Cursor} (ended : cursor.scan.token.kind = .endOfStream) :
    cursor.tokens = [cursor.scan.token] := by
  rw [tokens]
  simp [ended]

theorem scan_again {cursor : Cursor} (ended : cursor.scan.token.kind = .endOfStream) :
    cursor.scan.after.scan.token = cursor.scan.token := by
  rcases cursor.scan_cases with nothing | ⟨trivia, lexeme, rest, unread, run, stuck, read⟩
  · have again : Trivia.Run (cursor.advance cursor.rest []).rest [] := .nil
    rw [scan_of_end nothing, scan_of_end again]
    simp [advance]
  · rw [scan_of_read unread run stuck read] at ended
    exact absurd ended (kind_ne_endOfStream read)

end Cursor

namespace Reader

/-- The plain tokens from where a reader stands, up to and including the end of the source. -/
def ahead (reader : Reader) : List Token :=
  reader.cursor.tokens

variable {reader : Reader}

theorem ahead_of_more (more : reader.next.1.kind ≠ .endOfStream) :
    reader.ahead = reader.next.1 :: reader.next.2.ahead :=
  Cursor.tokens_of_more more

theorem ahead_of_end (ended : reader.next.1.kind = .endOfStream) : reader.ahead = [reader.next.1] :=
  Cursor.tokens_of_end ended

theorem next_again (ended : reader.next.1.kind = .endOfStream) : reader.next.2.next.1 = reader.next.1 :=
  Cursor.scan_again ended

theorem ahead_next_of_end (ended : reader.next.1.kind = .endOfStream) : reader.next.2.ahead = [reader.next.1] := by
  have again := next_again ended
  rw [ahead_of_end (again ▸ ended), again]

theorem text_of_end (ended : reader.next.1.kind = .endOfStream) : reader.next.1.text = "" := by
  rcases reader.cursor.scan_cases with nothing | ⟨trivia, lexeme, rest, unread, run, stuck, read⟩
  · simp only [next, Cursor.scan_of_end nothing]
  · simp only [next, Cursor.scan_of_read unread run stuck read] at ended
    exact absurd ended (Cursor.kind_ne_endOfStream read)

theorem head_ahead (reader : Reader) : ∃ later, reader.ahead = reader.next.1 :: later := by
  by_cases ended : reader.next.1.kind = .endOfStream
  · exact ⟨[], ahead_of_end ended⟩
  · exact ⟨_, ahead_of_more ended⟩

/-- What is kept of a token depends on its kind and its text alone. -/
theorem next_eq_keep (reader : Reader) :
    reader.next.2 = { reader.keep (reader.next.1.numeral?.map .number) with cursor := reader.cursor.scan.after } := by
  rcases reader.cursor.numeral?_of_scan with told | ⟨nothing, other⟩
  · exact congrArg (fun lexeme => { reader.keep lexeme with cursor := reader.cursor.scan.after }) told
  · have unkept : reader.keep reader.cursor.scan.lexeme = reader := by
      unfold keep
      split
      · rename_i numeral number
        exact absurd number (other numeral)
      · rfl
    simp only [next, unkept, nothing]
    rfl

end Reader

end EffectLang
