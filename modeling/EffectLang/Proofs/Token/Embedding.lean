import EffectLang.Proofs.Text.Bytes
import EffectLang.Proofs.Token.SideBySide

/-!
A source inside of a larger one. A reader of the larger source finds the tokens of the inner one farther behind, and
nothing else about them differs, as long as the text after the inner source leaves its next lexeme alone.
-/
namespace EffectLang

open Utf8

def Token.behind (front : List Char) (token : Token) : Token :=
  { token with offset := byteLength front + token.offset, line := front.count '\n' + token.line }

@[simp] theorem Token.kind_behind (front : List Char) (token : Token) : (token.behind front).kind = token.kind := rfl

@[simp] theorem Token.text_behind (front : List Char) (token : Token) : (token.behind front).text = token.text := rfl

theorem Token.stop_behind (front : List Char) (token : Token) :
    (token.behind front).stop = byteLength front + token.stop :=
  Nat.add_assoc _ _ _

def Unexpected.behind (front : List Char) (found : Unexpected) : Unexpected :=
  { found with line := front.count '\n' + found.line }

/-- What a token is does not depend on where it lies. -/
theorem Token.agree_behind (front : List Char) (token : Token) :
    Agree False Token.spelling (token.behind front) token :=
  ⟨rfl, False.elim⟩

namespace Trivia

theorem Run.trans {first more rest : List Char} (run : Run first (more ++ rest)) (later : Run more rest) :
    Run (first ++ more) rest := by
  generalize whole : more ++ rest = text at run
  induction run with
  | nil => exact later
  | cons head _ ih =>
    rw [← whole] at head
    rw [List.append_assoc]
    apply Run.cons _ (ih whole)
    rwa [List.append_assoc]

/-- Trivia at the end of a text is over with a line feed, unless there is a comment in it that nothing closes. -/
theorem gap_or_unclosed {text rest : List Char} (run : Run text rest) (ended : rest = []) :
    Gap (text ++ ['\n']) ∨
      ∃ trivia body, text = trivia ++ '/' :: '*' :: body ∧ Run trivia ('/' :: '*' :: body) ∧ ¬['*', '/'] <:+: body := by
  induction run with
  | nil => exact .inl (gap_blanks (by simp [isBlank]))
  | @cons first more rest head later ih =>
    subst ended
    rw [List.append_nil] at head
    obtain gap | ⟨trivia, body, rfl, before, inside⟩ := ih rfl
    · have longer (trivium : ∀ rest, Trivium first (more ++ '\n' :: rest)) : Gap (first ++ more ++ ['\n']) := by
        intro rest
        rw [List.append_assoc]
        apply Run.cons _ (gap rest)
        simpa using trivium rest
      cases head with
      | blank blank => exact .inl (longer fun rest => .blank blank)
      | line inside stop =>
        refine .inl (longer fun rest => .line inside ?_)
        cases more with
        | nil => simp
        | cons c more => exact stop
      | block inside => exact .inl (longer fun rest => .block inside)
      | unclosed inside => exact .inr ⟨[], _, List.append_nil _, .nil, inside⟩
    · refine .inr ⟨first ++ trivia, body, (List.append_assoc _ _ _).symm, .cons head before, inside⟩

end Trivia

namespace Cursor

/-- A place of a source, seen from a source that has a text before it and another one after it. -/
def between (front back : List Char) (cursor : Cursor) : Cursor :=
  ⟨byteLength front + cursor.position, front.count '\n' + cursor.line, cursor.rest ++ back⟩

/-- Nothing comes after the source, or a line feed does and there is a lexeme ahead that is over by then. -/
def Apart (back : List Char) (cursor : Cursor) : Prop :=
  back = [] ∨ back.head? = some '\n' ∧
    ∃ lexeme, cursor.scan.lexeme = some lexeme ∧ ∀ body, lexeme ≠ .quoted body false

theorem advance_between (front back taken rest : List Char) (cursor : Cursor) :
    (cursor.between front back).advance taken (rest ++ back) = (cursor.advance taken rest).between front back := by
  simp only [advance, between, Nat.add_assoc]

theorem scan_between (front : List Char) {back : List Char} {cursor : Cursor} (apart : cursor.Apart back) :
    (cursor.between front back).scan =
      ⟨cursor.scan.lexeme, cursor.scan.token.behind front, cursor.scan.after.between front back⟩ := by
  rcases cursor.scan_cases with ended | ⟨trivia, lexeme, rest, unread, run, stuck, read⟩
  · have nothing : back = [] := by
      obtain nothing | ⟨-, lexeme, more, -⟩ := apart
      · exact nothing
      · rw [scan_of_end ended] at more
        cases more
    subst nothing
    have done : Trivia.Run (cursor.between front []).rest [] := by simpa [between] using ended
    rw [scan_of_end done, scan_of_end ended]
    simp only [between, advance, Token.behind, List.append_nil, Nat.add_assoc]
  · have longer : Trivia.Run trivia (lexeme.chars ++ (rest ++ back)) ∧
        Trivia.Stuck (lexeme.chars ++ (rest ++ back)) ∧
        Lexeme.read? (lexeme.chars ++ (rest ++ back)) = some (lexeme, rest ++ back) := by
      obtain rfl | ⟨line, found, same, closed⟩ := apart
      · rw [List.append_nil]
        exact ⟨run, stuck, read⟩
      · rw [scan_of_read unread run stuck read] at same
        cases same
        have head : ∀ c ∈ back.head?, c = '\n' := by
          intro c head
          exact Option.some.inj (head.symm.trans line)
        apply Lexeme.found_append run stuck read closed
        · intro c member
          rw [head c member]
          decide
        · intro c member
          rw [head c member]
          decide
    have whole : (cursor.between front back).rest = trivia ++ (lexeme.chars ++ (rest ++ back)) := by
      simp [between, unread]
    obtain ⟨run', stuck', read'⟩ := longer
    rw [scan_of_read whole run' stuck' read', scan_of_read unread run stuck read, advance_between]
    simp only [between, Token.behind, Nat.add_assoc]

/-- Where complete trivia stands, it makes no difference whether it has been passed. -/
theorem scan_advance {cursor : Cursor} {gap rest : List Char} (unread : cursor.rest = gap ++ rest)
    (complete : Trivia.Gap gap) : (cursor.advance gap rest).scan = cursor.scan := by
  rcases (cursor.advance gap rest).scan_cases with ended | ⟨trivia, lexeme, later, ahead, run, stuck, read⟩
  · have ended' : Trivia.Run cursor.rest [] := by
      rw [unread]
      exact (complete _).trans ended
    rw [scan_of_end ended, scan_of_end ended', unread]
    simp only [advance_advance]
    rfl
  · have whole : cursor.rest = (gap ++ trivia) ++ (lexeme.chars ++ later) := by
      rw [unread, List.append_assoc]
      exact congrArg (gap ++ ·) ahead
    rw [scan_of_read ahead run stuck read, scan_of_read whole ((complete _).trans run) stuck read]
    simp [advance, Nat.add_assoc]

/-- A text ends inside of a string, or inside of a block comment, that nothing closes. -/
inductive EndsInside : Cursor → Prop
  | string {cursor : Cursor} {body : List Char} (read : cursor.scan.lexeme = some (.quoted body false)) :
      EndsInside cursor
  | comment {cursor : Cursor} {trivia body : List Char} (unread : cursor.rest = trivia ++ '/' :: '*' :: body)
      (before : Trivia.Run trivia ('/' :: '*' :: body)) (inside : ¬['*', '/'] <:+: body) : EndsInside cursor
  | later {cursor : Cursor} (inside : EndsInside cursor.scan.after) : EndsInside cursor

theorem apart_of_outside {cursor : Cursor} (outside : ¬cursor.EndsInside) (more : cursor.scan.token.kind ≠ .endOfStream)
    (back : List Char) : cursor.Apart ('\n' :: back) := by
  rcases cursor.scan_cases with ended | ⟨trivia, lexeme, rest, unread, run, stuck, read⟩
  · rw [scan_of_end ended] at more
    exact absurd rfl more
  · have found : cursor.scan.lexeme = some lexeme := by rw [scan_of_read unread run stuck read]
    refine .inr ⟨rfl, lexeme, found, ?_⟩
    rintro body rfl
    exact outside (.string found)

theorem gap_of_outside {cursor : Cursor} (outside : ¬cursor.EndsInside)
    (ended : cursor.scan.token.kind = .endOfStream) : Trivia.Gap (cursor.rest ++ ['\n']) := by
  rcases cursor.scan_cases with trivia | ⟨trivia, lexeme, rest, unread, run, stuck, read⟩
  · apply (Trivia.gap_or_unclosed trivia rfl).resolve_right
    rintro ⟨trivia, body, unread, before, inside⟩
    exact outside (.comment unread before inside)
  · rw [scan_of_read unread run stuck read] at ended
    exact absurd ended (kind_ne_endOfStream read)

theorem lexeme_of_number {cursor : Cursor} (number : cursor.scan.token.kind = .number) :
    ∃ numeral, cursor.scan.lexeme = some (.number numeral) := by
  have told : cursor.scan.token.numeral? = some (Numeral.scan cursor.scan.token.text.toList).1 := if_pos number
  rcases cursor.numeral?_of_scan with same | ⟨nothing, -⟩
  · rw [told] at same
    exact ⟨_, same⟩
  · rw [told] at nothing
    cases nothing

end Cursor

namespace LiteralTable

/-- A table with as much room as another one holds at least as many values. Its bytes are within the reach of an
offset. -/
structure Fuller (full other : LiteralTable) : Prop where
  capacity : full.capacity = other.capacity
  small : full.capacity.maxBytes ≤ 2 ^ 32
  size : other.values.size ≤ full.values.size

variable {full other : LiteralTable}

theorem Fuller.room (fuller : full.Fuller other) (room : full.hasRoom = true) : other.hasRoom = true := by
  rw [hasRoom_iff] at room ⊢
  rw [fuller.capacity] at room
  exact room.of_le (Nat.succ_le_succ fuller.size)

/-- Whatever the tables hold, a value that both are given is found in both, or the fuller one drops it. -/
theorem Fuller.add (fuller : full.Fuller other) (value : Double) :
    (full.add value).2.Fuller (other.add value).2 ∧
      ((full.add value).2.valueAt? (full.add value).1 = (other.add value).2.valueAt? (other.add value).1 ∨
        (full.add value).2.valueAt? (full.add value).1 = none) := by
  have smaller := fuller.size
  cases room : full.hasRoom with
  | true =>
    have otherRoom := fuller.room room
    have exact := lt_offsetCount_of_room fuller.small room
    refine ⟨?_, .inl ?_⟩
    · rw [add_of_room room, add_of_room otherRoom]
      exact ⟨fuller.capacity, fuller.small, by simpa using smaller⟩
    · rw [valueAt?_add_of_lt room exact, valueAt?_add_of_lt otherRoom (Nat.lt_of_le_of_lt smaller exact)]
  | false =>
    rw [add_of_full room]
    refine ⟨⟨?_, fuller.small, ?_⟩, .inr (valueAt?_noIndex full)⟩
    · rw [capacity_add]
      exact fuller.capacity
    · cases left : other.hasRoom with
      | false =>
        rw [add_of_full left]
        exact smaller
      | true =>
        -- With equal sizes there would be room in both, so the other table holds less.
        rw [add_of_room left, Array.size_push]
        apply Nat.lt_of_le_of_ne smaller
        intro same
        have both : full.hasRoom = other.hasRoom := by simp only [hasRoom, fuller.capacity, same]
        rw [room, left] at both
        cases both

end LiteralTable

namespace Reader

/-- The number that was read last is the same for both readers, or it did not fit for the second. -/
def Recalls (reader reader' : Reader) : Prop :=
  reader'.lastLiteral? = reader.lastLiteral? ∨ reader'.lastLiteral? = none

/-- The second reader stands at the place of the first, in a source that has the first one's inside of it. Its table for
numbers may be filled by earlier ones. -/
structure Embeds (front back : List Char) (reader reader' : Reader) : Prop where
  source : reader'.source = front ++ (reader.source ++ back)
  cursor : reader'.cursor = reader.cursor.between front back
  error : reader'.error = reader.error.map (Unexpected.behind front)
  literals : reader'.literals.Fuller reader.literals

namespace Embeds

variable {front back : List Char} {reader reader' : Reader}

theorem hasError_eq (embeds : reader.Embeds front back reader') : reader'.hasError = reader.hasError := by
  rw [hasError, embeds.error, Option.isSome_map, hasError]

theorem keep (embeds : reader.Embeds front back reader') (lexeme : Option Lexeme) :
    (reader'.keep lexeme).literals.Fuller (reader.keep lexeme).literals ∧
      ∀ numeral, lexeme = some (.number numeral) → (reader.keep lexeme).Recalls (reader'.keep lexeme) := by
  unfold Reader.keep
  split
  · rename_i numeral
    obtain ⟨literals, last⟩ := embeds.literals.add numeral.value
    exact ⟨literals, fun _ _ => last⟩
  · rename_i other
    exact ⟨embeds.literals, fun numeral same => absurd same (other numeral)⟩

section Next

variable (embeds : reader.Embeds front back reader') (apart : reader.cursor.Apart back)

include embeds apart

theorem token : reader'.next.1 = reader.next.1.behind front := by
  simp only [Reader.next, embeds.cursor, Cursor.scan_between front apart]

theorem next : reader.next.2.Embeds front back reader'.next.2 where
  source := by
    rw [source_next, source_next, embeds.source]
  cursor := by
    simp only [Reader.next, embeds.cursor, Cursor.scan_between front apart]
  error := by
    rw [error_next, error_next, embeds.error]
  literals := by
    simp only [Reader.next, embeds.cursor, Cursor.scan_between front apart]
    exact (embeds.keep _).1

theorem recalls (number : reader.next.1.kind = .number) : reader.next.2.Recalls reader'.next.2 := by
  obtain ⟨numeral, read⟩ := Cursor.lexeme_of_number number
  have kept := (embeds.keep reader.cursor.scan.lexeme).2 numeral read
  simp only [Reader.next, embeds.cursor, Cursor.scan_between front apart]
  exact kept

theorem look : (reader.next.2.restore reader.cursor).Embeds front back (reader'.next.2.restore reader'.cursor) where
  source := (embeds.next apart).source
  cursor := embeds.cursor
  error := (embeds.next apart).error
  literals := (embeds.next apart).literals

end Next

theorem report (embeds : reader.Embeds front back reader') (kind : Token.Kind) (token : Token) :
    (reader.report kind token).Embeds front back (reader'.report kind (token.behind front)) := by
  rw [report_eq, report_eq]
  refine ⟨embeds.source, embeds.cursor, ?_, embeds.literals⟩
  simp only [embeds.error, Option.map_some]
  cases reader.error <;> rfl

/-- A required token is found by both readers or by neither. When it is a number, and not made up, they recall the same
value. -/
theorem expect (embeds : reader.Embeds front back reader') (apart : reader.cursor.Apart back) (kind : Token.Kind) :
    (∃ token later later', reader.expect kind = (.ok token, later) ∧
        reader'.expect kind = (.ok (token.behind front), later') ∧ later.Embeds front back later' ∧
        (kind = .number → later.hasError = false → later.Recalls later')) ∨
      ∃ error later error' later', reader.expect kind = (.error error, later) ∧
        reader'.expect kind = (.error error', later') ∧ later.Embeds front back later' := by
  have token := embeds.token apart
  have next := embeds.next apart
  simp only [Reader.expect, embeds.hasError_eq, token, Token.kind_behind]
  split_ifs with complaint met
  · refine .inl ⟨_, _, _, rfl, ?_, embeds, ?_⟩
    · rw [placeholder, placeholder, embeds.cursor]
      rfl
    · intro _ calm
      rw [complaint] at calm
      cases calm
  · refine .inl ⟨_, _, _, rfl, rfl, next, ?_⟩
    intro number _
    exact embeds.recalls apart (met.trans number)
  · exact .inr ⟨_, _, _, _, rfl, rfl, next.report kind _⟩

theorem textBetween (embeds : reader.Embeds front back reader') {start stop : Nat} (first : IsCut reader.source start)
    (second : IsCut reader.source stop) (ordered : start ≤ stop) :
    reader'.textBetween (byteLength front + start) (byteLength front + stop) = reader.textBetween start stop := by
  obtain ⟨left, right, whole, rfl⟩ := first
  obtain ⟨before, later, same, rfl⟩ := second
  obtain ⟨middle, rfl⟩ := exists_between (whole.symm.trans same) ordered
  rw [List.append_assoc] at same
  have inner := slice?_append left middle later
  have outer := slice?_append (front ++ left) middle (later ++ back)
  rw [Reader.textBetween, Reader.textBetween, embeds.source, same, inner]
  simp only [byteLength_append, List.append_assoc] at outer ⊢
  rw [outer]

end Embeds

end Reader

end EffectLang
