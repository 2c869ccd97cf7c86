import EffectLang.Proofs.Token.ByteTokens
import EffectLang.Proofs.Token.Calls

/-!
Lines are counted right. Whatever a reader is asked for, its own line and the lines of the tokens that it gives are told
by the line feeds before them; and scanning that counts these feeds one by one in a word comes to the same lines.
-/
namespace EffectLang

namespace Utf8

/-- The line of a place in a source: one more than there are line feeds among the bytes before it. -/
def lineAt (source : String) (position : Nat) : Nat :=
  1 + ((encode source).take position).count 0x0A

theorem count_feed_utf8EncodeChar (c : Char) : (String.utf8EncodeChar c).count 0x0A = [c].count '\n' := by
  by_cases narrow : c.toNat < 128
  · have feed : ascii c = 0x0A ↔ c = '\n' := by
      rw [← UInt8.toNat_inj, toNat_ascii narrow, ← Char.toNat_inj]
      rfl
    simp only [utf8EncodeChar_of_ascii narrow, List.count_singleton, beq_iff_eq, feed]
  · obtain ⟨lead, more, spelled, large, continuing, -⟩ := utf8EncodeChar_of_wide (Nat.le_of_not_lt narrow)
    have noFeed : c ≠ '\n' := by
      rintro rfl
      exact narrow (by decide)
    have noByte : 0x0A ∉ lead :: more := by
      rw [List.mem_cons]
      rintro (rfl | member)
      · exact absurd large (by decide)
      · exact absurd (continuing _ member) (by decide)
    rw [spelled, List.count_eq_zero_of_not_mem noByte, List.count_singleton, beq_false_of_ne noFeed]
    rfl

theorem count_feed_bytes (text : List Char) : (bytes text).count 0x0A = text.count '\n' := by
  induction text with
  | nil => rfl
  | cons c text ih =>
    rw [bytes_cons, List.count_append, ih, count_feed_utf8EncodeChar, ← List.count_append]
    rfl

theorem lineAt_of_append {source : String} {left right : List Char} (whole : source.toList = left ++ right) :
    lineAt source (byteLength left) = 1 + left.count '\n' := by
  rw [lineAt, encode_eq_bytes, whole, bytes_append, ← length_bytes, List.take_left, count_feed_bytes]

/-- A line that is right for a place between two characters of a source. -/
def Lined (source : List Char) (position line : Nat) : Prop :=
  ∃ left right, source = left ++ right ∧ position = byteLength left ∧ line = 1 + left.count '\n'

theorem Lined.eq_lineAt {source : String} {position line : Nat} (lined : Lined source.toList position line) :
    line = lineAt source position := by
  obtain ⟨left, right, whole, rfl, rfl⟩ := lined
  rw [lineAt_of_append whole]

end Utf8

open Utf8

/-- Only a quote stands before the text of a token. -/
theorem Lexeme.Spelled.count_opening {kind : Token.Kind} {opening text closing rest : List Char}
    (spelled : Spelled kind opening text closing rest) : opening.count '\n' = 0 := by
  cases spelled <;> rfl

namespace Reader

variable {reader : Reader} {source before rest : List Char}

theorem Within.lined (within : reader.Within source) : Lined source reader.cursor.position reader.cursor.line := by
  obtain ⟨before, rest, whole, located⟩ := within
  exact ⟨before, rest, whole, located.place.position, located.line⟩

theorem Located.lined_next (located : reader.Located before rest) (whole : source = before ++ rest) :
    Lined source reader.next.1.offset reader.next.1.line := by
  rcases reader.cursor.scan_cases with ended | ⟨trivia, lexeme, later, unread, run, stuck, read⟩
  · rw [located.place.rest] at ended
    rw [(located.toPlaced.next_end ended).1]
    refine ⟨before ++ rest, [], by rw [whole, List.append_nil], rfl, ?_⟩
    simp only [located.line, List.count_append, Nat.add_assoc]
  · rw [located.place.rest] at unread
    subst unread
    obtain ⟨opening, closing, spelled, margin, form⟩ := Lexeme.spelled_of_read? read
    rw [(located.toPlaced.next_read run stuck read).1]
    refine ⟨before ++ (trivia ++ opening), lexeme.text ++ (closing ++ later), ?_, ?_, ?_⟩
    · rw [whole, spelled]
      simp only [List.append_assoc]
    · simp only [byteLength_append, ← margin, Nat.add_assoc]
    · simp only [located.line, List.count_append, form.count_opening, Nat.add_zero, Nat.add_assoc]

theorem Within.lined_next (within : reader.Within source) : Lined source reader.next.1.offset reader.next.1.line := by
  obtain ⟨before, rest, whole, located⟩ := within
  exact located.lined_next whole

theorem Within.lined_expect {kind : Token.Kind} {token : Token} (within : reader.Within source)
    (met : (reader.expect kind).1 = .ok token) : Lined source token.offset token.line := by
  obtain ⟨-, given⟩ | ⟨-, -, given⟩ | ⟨-, -, given⟩ := reader.expect_cases kind
  · rw [given] at met
    cases met
    exact within.lined
  · rw [given] at met
    cases met
    exact within.lined_next
  · rw [given] at met
    cases met

def Answer.token? : Answer → Option Token
  | .token found => some found
  | .required (.ok found) => some found
  | _ => none

/-- What a reader gives for some calls, made one after another. -/
def answers (reader : Reader) : List Call → List Answer
  | [] => []
  | call :: calls => (reader.perform call).1 :: (reader.perform call).2.answers calls

/-- Whether a call only goes back to a place that was given, and only joins tokens that were. -/
def Call.uses (given : List Answer) : Call → Bool
  | .restore place => decide (.place place ∈ given)
  | .join first last =>
    decide (first ∈ given.filterMap Answer.token?) && decide (last ∈ given.filterMap Answer.token?)
  | _ => true

/-- Whether all calls use what was given before them. -/
def honest (reader : Reader) (given : List Answer) : List Call → Bool
  | [] => true
  | call :: calls => call.uses given && (reader.perform call).2.honest (given ++ [(reader.perform call).1]) calls

theorem honest_front {given : List Answer} {front back : List Call}
    (honest : reader.honest given (front ++ back) = true) : reader.honest given front = true := by
  induction front generalizing reader given with
  | nil => rfl
  | cons call front ih =>
    obtain ⟨uses, rest⟩ := Bool.and_eq_true_iff.mp honest
    exact Bool.and_eq_true_iff.mpr ⟨uses, ih rest⟩

/-- What an answer tells of lines is right. -/
structure Answer.Lined (source : List Char) (answer : Answer) : Prop where
  token : ∀ found, answer.token? = some found → Utf8.Lined source found.offset found.line
  place : ∀ cursor, answer = .place cursor → ∃ marked : Reader, marked.Within source ∧ marked.cursor = cursor

theorem Answer.Lined.of_token {found : Token} (lined : Utf8.Lined source found.offset found.line) :
    (Answer.token found).Lined source where
  token := by
    rintro _ ⟨⟩
    exact lined
  place := by simp

theorem Answer.Lined.of_silent {answer : Answer} (silent : answer.token? = none)
    (still : ∀ cursor, answer ≠ .place cursor) : answer.Lined source where
  token := by simp [silent]
  place := fun cursor same => absurd same (still cursor)

/-- One call keeps the reader in its source, and tells lines that are right if all that were told before it are. -/
theorem Within.perform {given : List Answer} (within : reader.Within source)
    (right : ∀ answer ∈ given, answer.Lined source) {call : Call} (uses : call.uses given = true) :
    (reader.perform call).2.Within source ∧ (reader.perform call).1.Lined source := by
  cases call with
  | next => exact ⟨within.next, .of_token within.lined_next⟩
  | nextIs kind => exact ⟨within.next, .of_silent rfl (by simp [Reader.perform])⟩
  | expect kind =>
    refine ⟨within.expect kind, ?_, by simp [Reader.perform]⟩
    intro found met
    cases result : (reader.expect kind).1 with
    | error complaint =>
      simp only [Reader.perform, result] at met
      cases met
    | ok token =>
      simp only [Reader.perform, result] at met
      cases met
      exact within.lined_expect result
  | report expected found => exact ⟨within.report expected found, .of_silent rfl (by simp [Reader.perform])⟩
  | mark =>
    refine ⟨within, by simp [Reader.perform, Answer.token?], ?_⟩
    rintro _ ⟨⟩
    exact ⟨reader, within, rfl⟩
  | restore place =>
    obtain ⟨marked, inside, rfl⟩ := (right _ (of_decide_eq_true uses)).place place rfl
    exact ⟨within.restore inside, .of_silent rfl (by simp [Reader.perform])⟩
  | join first last =>
    obtain ⟨member, -⟩ := Bool.and_eq_true_iff.mp uses
    obtain ⟨answer, among, holds⟩ := List.mem_filterMap.mp (of_decide_eq_true member)
    exact ⟨within, .of_token ((right answer among).token first holds)⟩
  | lastLiteral => exact ⟨within, .of_silent rfl (by simp [Reader.perform])⟩

theorem Within.after {given : List Answer} (within : reader.Within source)
    (right : ∀ answer ∈ given, answer.Lined source) {calls : List Call} (honest : reader.honest given calls = true) :
    (reader.after calls).Within source ∧ ∀ answer ∈ reader.answers calls, answer.Lined source := by
  induction calls generalizing reader given with
  | nil => exact ⟨within, by simp [answers]⟩
  | cons call calls ih =>
    obtain ⟨uses, rest⟩ := Bool.and_eq_true_iff.mp honest
    obtain ⟨behind, lined⟩ := within.perform right uses
    have told : ∀ answer ∈ given ++ [(reader.perform call).1], answer.Lined source := by
      simpa [or_imp, forall_and] using ⟨right, lined⟩
    obtain ⟨last, later⟩ := ih behind told rest
    exact ⟨last, List.forall_mem_cons.mpr ⟨lined, later⟩⟩

/-- Lines are exact. After every call of a reader that goes back only to places it gave, its line is told by the line
feeds before it, and so are the lines of all tokens that it gave. Where the feeds of the source can be counted in a
word, scanning byte by byte from there counts them so and comes to the same token and line. -/
theorem lines_count_feeds {source : String} {capacity : LiteralTable.Capacity} {calls : List Call}
    (few : (encode source).count 0x0A < 2 ^ 32 - 1) (honest : (start source capacity).honest [] calls = true) :
    (∀ front, front <+: calls →
      let reader := (start source capacity).after front
      reader.cursor.line = lineAt source reader.cursor.position ∧ reader.cursor.line < 2 ^ 32 ∧
        (ByteScanner.ofCursor source reader.cursor).next? =
          some (ByteScanner.pieceOfScan reader.cursor.scan, .ofCursor source reader.next.2.cursor)) ∧
      ∀ token ∈ ((start source capacity).answers calls).filterMap Answer.token?,
        token.line = lineAt source token.offset := by
  have begun : (start source capacity).Within source.toList := ⟨[], source.toList, rfl, located_start source capacity⟩
  rw [encode_eq_bytes, count_feed_bytes] at few
  constructor
  · rintro front ⟨back, rfl⟩ reader
    obtain ⟨within, -⟩ := begun.after (by simp) (honest_front honest)
    have line := within.lined.eq_lineAt
    obtain ⟨before, rest, whole, located⟩ := within
    refine ⟨line, ?_, ByteScanner.next_eq located whole few⟩
    exact Nat.lt_of_le_of_lt (Nat.le_add_right _ _) (ByteScanner.line_add_count_lt located whole few)
  · intro token given
    obtain ⟨answer, member, holds⟩ := List.mem_filterMap.mp given
    obtain ⟨-, lined⟩ := begun.after (by simp) honest
    exact ((lined answer member).token token holds).eq_lineAt

/-- Feeds in a comment and, one of them escaped, in a string; a type name across two lines; and the way back before
them, where a comma is missed and a placeholder stands in for a string. -/
theorem lines_count_feeds_across_lines :
    let source := "a /*\n*/ \"x\\\n\r\ny\" // c\n 2\nD"
    let reader := start source {}
    let calls : List Call :=
      [.next, .next, .mark, .next, .next, .join ⟨.number, "2", 23, 5⟩ ⟨.identifier, "D", 25, 6⟩,
        .restore (reader.after [.next, .next]).cursor, .expect .comma, .expect .string, .next, .next]
    (encode source).count 0x0A = 5 ∧ reader.honest [] calls = true ∧
      ((reader.answers calls).filterMap Answer.token?).map (fun token => (token.offset, token.line)) =
        [(0, 1), (9, 2), (23, 5), (25, 6), (23, 5), (24, 5), (25, 6), (26, 6)] ∧
      (∀ token ∈ (reader.answers calls).filterMap Answer.token?, token.line = lineAt source token.offset) ∧
      ∀ front, front <+: calls →
        (reader.after front).cursor.line = lineAt source (reader.after front).cursor.position := by
  intro source reader calls
  have few : (encode source).count 0x0A = 5 := by decide +kernel
  have small : (encode source).count 0x0A < 2 ^ 32 - 1 := by
    rw [few]
    decide
  have honest : reader.honest [] calls = true := by decide +kernel
  have places : ((reader.answers calls).filterMap Answer.token?).map (fun token => (token.offset, token.line)) =
      [(0, 1), (9, 2), (23, 5), (25, 6), (23, 5), (24, 5), (25, 6), (26, 6)] := by decide +kernel
  obtain ⟨everywhere, told⟩ := lines_count_feeds small honest
  exact ⟨few, honest, places, told, fun front begins => (everywhere front begins).1⟩

end Reader

end EffectLang
