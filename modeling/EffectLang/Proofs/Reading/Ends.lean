import EffectLang.Proofs.Reading.Step

/-!
Every reading comes to an end. Some tasks are loops, and some stand inside of others. Whenever a loop comes around,
or a task inside of it begins, there are fewer bytes left than before. At the end of the source this is so because
only tasks further outside follow, up to the last one.
-/
namespace EffectLang

namespace Reader

def left (reader : Reader) : Nat :=
  Utf8.byteLength reader.cursor.rest

theorem Within.left_add_position {reader : Reader} {source : List Char} (within : reader.Within source) :
    reader.left + reader.cursor.position = Utf8.byteLength source := by
  obtain ⟨before, rest, rfl, located⟩ := within
  rw [left, located.place.rest, located.place.position, Utf8.byteLength_append, Nat.add_comm]

/-- Reading a token takes a part of what is left: all of it at the end of the source, and otherwise not nothing. -/
theorem rest_next (reader : Reader) :
    ∃ taken, reader.cursor.rest = taken ++ reader.next.2.cursor.rest ∧
      (reader.next.1.kind = .endOfStream → reader.next.2.cursor.rest = []) ∧
      (reader.next.1.kind ≠ .endOfStream → taken ≠ []) := by
  rcases reader.cursor.scan_cases with ended | ⟨trivia, lexeme, later, unread, run, stuck, read⟩
  · refine ⟨reader.cursor.rest, ?_⟩
    simp [next, Cursor.scan_of_end ended, Cursor.advance]
  · refine ⟨trivia ++ lexeme.chars, ?_⟩
    have more := Cursor.kind_ne_endOfStream read
    have some := Lexeme.chars_ne_nil_of_read? read
    simp [next, Cursor.scan_of_read unread run stuck read, Cursor.advance, unread, more, some]

theorem left_next_le (reader : Reader) : reader.next.2.left ≤ reader.left := by
  obtain ⟨taken, unread, -, -⟩ := reader.rest_next
  simp [left, unread]

theorem left_next_lt {reader : Reader} (more : reader.next.1.kind ≠ .endOfStream) :
    reader.next.2.left < reader.left := by
  obtain ⟨taken, unread, -, some⟩ := reader.rest_next
  have positive := Utf8.byteLength_pos (some more)
  simp only [left, unread, Utf8.byteLength_append]
  omega

theorem kind_next_of_ended {reader : Reader} (ended : reader.cursor.rest = []) :
    reader.next.1.kind = .endOfStream := by
  by_contra more
  obtain ⟨taken, unread, -, some⟩ := reader.rest_next
  rw [ended] at unread
  exact some more (List.append_eq_nil_iff.mp unread.symm).1

namespace Move

variable {reader later : Reader}

theorem left_le (move : reader.Move later) : later.left ≤ reader.left := by
  cases move with
  | next => exact reader.left_next_le
  | look => exact Nat.le_refl _
  | complain ended => simpa only [left, cursor_report] using reader.left_next_le
  | expect kind =>
    obtain ⟨-, given⟩ | ⟨-, -, given⟩ | ⟨-, -, given⟩ := reader.expect_cases kind
    · rw [given]
    · rw [given]
      exact reader.left_next_le
    · rw [given]
      simpa only [left, cursor_report] using reader.left_next_le

theorem rest_eq_nil (move : reader.Move later) (ended : reader.cursor.rest = []) : later.cursor.rest = [] := by
  have less := move.left_le
  rw [left, left, ended, Utf8.byteLength_nil] at less
  by_contra some
  have positive := Utf8.byteLength_pos some
  omega

end Move

end Reader

namespace Document

def Task.isLoop : Task → Bool
  | .declaration => true
  | .chunk _ _ _ .code => true
  | .passLine _ _ => true
  | .propertyName => true
  | .property _ (.group _ _ _) => true
  | _ => false

/-- How deep a task stands in the loops around it. -/
def Task.nesting : Task → Nat
  | .declaration => 0
  | .done _ => 0
  | .effectName => 1
  | .effectBrace => 1
  | .chunkName => 1
  | .chunkBrace _ => 1
  | .chunk _ _ _ .code => 1
  | .chunk _ _ _ _ => 2
  | .passName => 1
  | .passBrace _ => 1
  | .passLine _ _ => 1
  | .shaderSign _ _ _ => 2
  | .shaderName _ _ _ => 2
  | .propertiesBrace => 1
  | .propertyName => 1
  | .property _ (.group _ _ _) => 3
  | .property _ _ => 2

/-- A task begins inside of a loop, or is a loop that stands as deep. -/
def Task.Enters (loop task : Task) : Prop :=
  loop.nesting < task.nesting ∨ task.isLoop ∧ loop.nesting ≤ task.nesting

/-- The tasks that still follow at the end of the source. -/
def Task.isLast : Task → Bool
  | .declaration => true
  | .propertyName => true
  | .property _ .closing => true
  | .done _ => true
  | _ => false

namespace Moment

open StateTransition

def left (moment : Moment) : Nat :=
  moment.reader.left

section Loops

variable (progress : Progress) {task : Task} (loop : task.isLoop)

include loop

theorem cursor_read_of_isLoop (place : Cursor) (token : Token) :
    (read place token progress task).reader.cursor = progress.reader.cursor := by
  unfold Task.isLoop at loop
  split at loop
  · simp only [read, readDeclaration]
    split_ifs
    all_goals first | rfl | exact Reader.cursor_report _ _ _
  · simp only [read, readCode]
    split_ifs
    all_goals first | rfl | exact Reader.cursor_report _ _ _
  · simp only [read, readPass]
    split_ifs
    · exact Reader.cursor_report _ _ _
    · rfl
    · split <;> rfl
    · rfl
  · simp only [read, readPropertyName]
    split_ifs
    all_goals first | rfl | exact Reader.cursor_report _ _ _
  · simp only [read, readProperty, reader_readGroup]
  · cases loop

theorem isLast_read_of_isLoop (place : Cursor) {token : Token} (ended : token.kind = .endOfStream) :
    (read place token progress task).task.isLast ∧
      ((read place token progress task).task.nesting < task.nesting ∨
        (read place token progress task).task = .done none) := by
  unfold Task.isLoop at loop
  split at loop
  · simp [read, readDeclaration, ended, Task.isLast]
  · simp [read, readCode, ended, Task.isLast, Task.nesting]
  · simp [read, readPass, ended, addPass, Task.isLast, Task.nesting]
  · simp [read, readPropertyName, ended, Task.isLast, Task.nesting]
  · simp [read, readProperty, readGroup, ended, addProperty, Task.isLast, Task.nesting]
  · cases loop

end Loops

variable {moment next here there : Moment}

theorem step_of_isLoop (loop : moment.task.isLoop) (goes : step moment = some next) :
    next = read moment.reader.cursor moment.reader.next.1 (moment.progress.moveTo moment.reader.next.2)
      moment.task := by
  obtain ⟨-, -, same⟩ | ⟨kind, required, -⟩ := step_cases goes
  · exact same
  · unfold Task.isLoop at loop
    split at loop <;> rename_i is <;> simp [is, Task.required?, PropertyTask.required?] at required loop

theorem left_step_le (goes : step moment = some next) : next.left ≤ moment.left :=
  (move_of_step goes).left_le

theorem left_le_of_reaches (course : Reaches step here there) : there.left ≤ here.left :=
  invariant_of_reaches (fun _ _ less goes => Nat.le_trans (left_step_le goes) less) (Nat.le_refl _) course

theorem isLast_step_of_isLoop (loop : moment.task.isLoop) (ended : moment.reader.next.1.kind = .endOfStream)
    (goes : step moment = some next) :
    next.task.isLast ∧ (next.task.nesting < moment.task.nesting ∨ next.task = .done none) := by
  rw [step_of_isLoop loop goes]
  exact isLast_read_of_isLoop _ loop _ ended

theorem step_closing {progress : Progress} {name : String}
    (goes : step ⟨progress, .property name .closing⟩ = some next) : next.task = .propertyName := by
  obtain ⟨-, free, -⟩ | ⟨kind, required, ⟨token, later, met, rfl⟩ | ⟨error, later, unmet, rfl⟩⟩ := step_cases goes
  · cases free
  · rfl
  · rfl

/-- At the end of the source each step goes on to a task that still follows, and never further in. -/
theorem isLast_step (last : moment.task.isLast) (ended : moment.reader.cursor.rest = [])
    (goes : step moment = some next) : next.task.isLast ∧ next.task.nesting ≤ moment.task.nesting := by
  have atEnd := Reader.kind_next_of_ended ended
  obtain ⟨progress, task⟩ := moment
  have leaves (loop : task.isLoop) : next.task.isLast ∧ next.task.nesting ≤ task.nesting := by
    obtain ⟨isLast, less | done⟩ := isLast_step_of_isLoop loop atEnd goes
    · exact ⟨isLast, less.le⟩
    · exact ⟨isLast, by rw [done]; exact Nat.zero_le _⟩
  cases task with
  | declaration => exact leaves rfl
  | propertyName => exact leaves rfl
  | property name part =>
    cases part with
    | closing =>
      rw [step_closing goes]
      exact ⟨rfl, (by decide : 1 ≤ 2)⟩
    | _ => cases last
  | done error => cases goes
  | _ => cases last

theorem nesting_le_of_reaches (last : here.task.isLast) (ended : here.reader.cursor.rest = [])
    (course : Reaches step here there) : there.task.nesting ≤ here.task.nesting := by
  suffices kept : there.task.isLast ∧ there.reader.cursor.rest = [] ∧ there.task.nesting ≤ here.task.nesting from
    kept.2.2
  induction course with
  | refl => exact ⟨last, ended, Nat.le_refl _⟩
  | tail course goes ih =>
    obtain ⟨last, ended, less⟩ := ih
    obtain ⟨isLast, least⟩ := isLast_step last ended goes
    exact ⟨isLast, (move_of_step goes).rest_eq_nil ended, Nat.le_trans least less⟩

/-- Whenever a loop comes around, or a task inside of it begins, there are fewer bytes left. -/
theorem left_lt_of_enters (loop : here.task.isLoop) (course : Reaches₁ step here there)
    (enters : here.task.Enters there.task) : there.left < here.left := by
  obtain ⟨next, goes, rest⟩ := Relation.TransGen.head'_iff.mp course
  have cursor : next.reader.cursor = here.reader.next.2.cursor := by
    rw [step_of_isLoop loop goes]
    exact cursor_read_of_isLoop _ loop _ _
  by_cases ended : here.reader.next.1.kind = .endOfStream
  -- Nothing is read any more, but then the loop is left for one around it and not entered again.
  · obtain ⟨taken, -, nothing, -⟩ := here.reader.rest_next
    obtain ⟨last, less | done⟩ := isLast_step_of_isLoop loop ended goes
    · have outside := nesting_le_of_reaches last (cursor ▸ nothing ended) rest
      rcases enters with inside | ⟨-, asDeep⟩ <;> omega
    · have final : there.task = .done none := by
        obtain rfl | ⟨after, continues, -⟩ := Relation.ReflTransGen.cases_head rest
        · exact done
        · simp [step, done] at continues
      simp [Task.Enters, final, Task.nesting, Task.isLoop] at enters
  · calc there.left ≤ next.left := left_le_of_reaches rest
      _ = here.reader.next.2.left := by rw [left, Reader.left, cursor, Reader.left]
      _ < here.left := Reader.left_next_lt ended

end Moment

theorem rest_declarations {progress : Progress} (fine : (declarations progress).1 = none) :
    (declarations progress).2.reader.cursor.rest = [] := by
  fun_induction declarations progress with
  | case1 progress token later ended outside =>
    obtain ⟨taken, -, nothing, -⟩ := progress.reader.rest_next
    exact nothing ended
  | case2 progress token later ended inside =>
    obtain ⟨taken, -, nothing, -⟩ := progress.reader.rest_next
    rw [Progress.reader_moveTo, Reader.cursor_report]
    exact nothing ended
  | case3 progress token later more closing ih => exact ih fine
  | case4 progress token later more noClosing word item error failed => cases fine
  | case5 progress token later more noClosing word item given ih => exact ih fine
  | case6 progress token later more noClosing noWord ih => exact ih fine

theorem rest_of_read {reader later : Reader} {effect : Effect} (given : read reader = (.ok effect, later)) :
    later.cursor.rest = [] := by
  unfold read at given
  split at given
  · cases given
  · rename_i progress read
    cases given
    have ended := rest_declarations (congrArg Prod.fst read)
    rwa [read] at ended

open StateTransition Moment in
/-- From wherever a reader of a source is brought to, with or without a complaint, the steps of the reading come to
an end with what it gives; without an error they come to the end of the source. No step adds to the bytes that are
left, and there are fewer of them whenever a loop comes around or a task inside of it begins. -/
theorem read_ends (source : String) (capacity : LiteralTable.Capacity) (reader : Reader)
    (reached : Reader.Reached (.start source capacity) reader) :
    (∃ last ∈ eval step (start reader), last.result? = some (read reader)) ∧
      (∀ effect later, read reader = (.ok effect, later) →
        later.cursor.position = source.utf8ByteSize ∧ later.cursor.rest = []) ∧
      (∀ moment, Reaches step (start reader) moment →
        moment.left + moment.reader.cursor.position = source.utf8ByteSize) ∧
      (∀ moment next, Reaches step (start reader) moment → step moment = some next → next.left ≤ moment.left) ∧
      ∀ here there, Reaches step (start reader) here → here.task.isLoop → Reaches₁ step here there →
        here.task.Enters there.task → there.left < here.left := by
  have everywhere (moment) (course : Reaches step (start reader) moment) :
      moment.left + moment.reader.cursor.position = source.utf8ByteSize := by
    rw [← Utf8.byteLength_toList]
    exact (within_of_reaches (Reader.within_of_reached reached) course).left_add_position
  refine ⟨exists_mem_eval reader, ?_, everywhere, fun moment next course => left_step_le, ?_⟩
  · intro effect later given
    obtain ⟨last, ends, result⟩ := exists_mem_eval reader
    rw [given] at result
    obtain ⟨-, rfl⟩ := eq_of_result?_ok result
    have ended := rest_of_read given
    have position := everywhere last (mem_eval.mp ends).1
    rw [left, Reader.left, ended, Utf8.byteLength_nil, Nat.zero_add] at position
    exact ⟨position, ended⟩
  · intro here there course loop around enters
    exact left_lt_of_enters loop around enters

open StateTransition Moment in
/-- A reading that begins with a complaint: a number was required where a word stands. -/
theorem read_ends_after_complaint :
    let first := Reader.start "glsl a \x7b pass b" {}
    let reader := (first.expect .number).2
    reader.hasError ∧ Reader.Reached first reader ∧
      ∃ last ∈ eval step (start reader), last.result? = some (read reader) := by
  intro first reader
  have reached : Reader.Reached first reader := .expect .number .refl
  exact ⟨by decide +kernel, reached, (read_ends _ _ reader reached).1⟩

end Document

end EffectLang
