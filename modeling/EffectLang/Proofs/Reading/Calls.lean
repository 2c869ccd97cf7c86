import EffectLang.Proofs.Reading.Agreement
import EffectLang.Proofs.Token.Calls

/-!
A reading as a course of calls on its reader. Each step makes a few calls and comes to the reader behind them, so what
holds of a reader under any use holds of every reading: its complaint is that of the first call that fails.
-/
namespace EffectLang

namespace Reader

/-- The calls that look for a kind of token and go back when another one is there. -/
def lookCalls (reader : Reader) (kind : Token.Kind) : List Call :=
  if reader.next.1.kind = kind then [.mark, .nextIs kind] else [.mark, .nextIs kind, .restore reader.cursor]

/-- The calls for a number and its value. After a complaint the value is not asked for. -/
def numberCalls (reader : Reader) : List Call :=
  if reader.error = none ∧ reader.next.1.kind = .number then [.expect .number, .lastLiteral] else [.expect .number]

/-- The calls for a token of a block, whose brace is missed at the end of the source. -/
def blockCalls (reader : Reader) : List Call :=
  if reader.next.1.kind = .endOfStream then [.next, .report .closeBrace reader.next.1] else [.next]

theorem after_numberCalls (reader : Reader) : reader.after reader.numberCalls = (reader.expect .number).2 := by
  unfold numberCalls
  split <;> rfl

theorem after_lookCalls (reader : Reader) (kind : Token.Kind) :
    reader.after (reader.lookCalls kind) =
      if reader.next.1.kind = kind then reader.next.2 else reader.next.2.restore reader.cursor := by
  unfold lookCalls
  split <;> rfl

theorem after_blockCalls (reader : Reader) :
    reader.after reader.blockCalls =
      if reader.next.1.kind = .endOfStream then reader.next.2.report .closeBrace reader.next.1 else reader.next.2 := by
  unfold blockCalls
  split <;> rfl

theorem next_report (reader : Reader) (kind : Token.Kind) (token : Token) :
    (reader.report kind token).next = (reader.next.1, reader.next.2.report kind token) := by
  simp only [report_eq, error_next]
  simp only [next, keep]
  split <;> rfl

section Ended

variable {reader : Reader} (ended : reader.next.1.kind = .endOfStream)

include ended

theorem next_ended : reader.next.2.next = (reader.next.1, reader.next.2) := by
  rcases reader.cursor.scan_cases with nothing | ⟨trivia, lexeme, rest, unread, run, stuck, read⟩
  · have again : Trivia.Run (reader.cursor.advance reader.cursor.rest []).rest [] := .nil
    simp only [next, Cursor.scan_of_end nothing, keep, Cursor.scan_of_end again]
    simp [Cursor.advance]
  · simp only [next, Cursor.scan_of_read unread run stuck read] at ended
    exact absurd ended (Cursor.kind_ne_endOfStream read)

theorem after_blockCalls_again (count : Nat) :
    let closed := reader.next.2.report .closeBrace reader.next.1
    closed.after (List.replicate count [Call.next, .report .closeBrace reader.next.1]).flatten = closed := by
  intro closed
  have again : closed.next = (reader.next.1, closed) := by
    rw [next_report, next_ended ended]
  have stays : closed.after [.next, .report .closeBrace reader.next.1] = closed := by
    simp only [after, perform, again]
    simp only [closed, report_eq, Option.getD_some]
  induction count with
  | zero => rfl
  | succ count ih => rw [List.replicate_succ, List.flatten_cons, after_append, stays, ih]

theorem after_endCalls (depth : Nat) :
    reader.after ((List.replicate depth [Call.next, .report .closeBrace reader.next.1]).flatten ++ [.next]) =
      if depth = 0 then reader.next.2 else reader.next.2.report .closeBrace reader.next.1 := by
  cases depth with
  | zero => rfl
  | succ depth =>
    have again := after_blockCalls_again ended depth
    simp only [List.replicate_succ, List.flatten_cons, List.cons_append, List.nil_append, after, perform, after_append,
      again, next_report, next_ended ended, Nat.add_one_ne_zero, if_false]

end Ended

end Reader

namespace Document

open StateTransition

/-- Whether the default of a value is the value of a number. -/
def takesNumber : Property.Value → Bool
  | .float _ => true
  | .int _ => true
  | .range _ _ _ => true
  | _ => false

/-- The calls for a part of a property, by the token that the reader stands before. -/
def PropertyTask.calls (reader : Reader) : PropertyTask → List Reader.Call
  | .typeSuffix _ number =>
    [.mark, .next,
      if reader.next.1.kind = .identifier then .join number reader.next.1 else .restore reader.cursor]
  | .bounds _ => reader.lookCalls .openParen
  | .sign _ _ => reader.lookCalls .equals
  | .low _ => reader.numberCalls
  | .high _ _ => reader.numberCalls
  | .default _ value =>
    if takesNumber value ∧ reader.next.1.kind = .number then [.next, .lastLiteral] else [.next]
  | part =>
    match part.required? with
    | some kind => [.expect kind]
    | none => [.next]

/-- The calls of a step. At the end of the source each of the open `effect` blocks reads the end again and misses its
brace, before the last token is read. -/
def Task.calls (depth : Nat) (reader : Reader) : Task → List Reader.Call
  | .declaration =>
    if reader.next.1.kind = .endOfStream then
      (List.replicate depth [.next, .report .closeBrace reader.next.1]).flatten ++ [.next]
    else [.next]
  | .chunk _ _ _ .code => reader.blockCalls
  | .passLine _ _ => reader.blockCalls
  | .propertyName => reader.blockCalls
  | .property _ part => part.calls reader
  | .done _ => []
  | task =>
    match task.required? with
    | some kind => [.expect kind]
    | none => [.next]

namespace Moment

def calls (moment : Moment) : List Reader.Call :=
  moment.task.calls moment.progress.depth moment.reader

theorem after_calls_required (depth : Nat) (reader : Reader) {task : Task} {kind : Token.Kind}
    (required : task.required? = some kind) : reader.after (task.calls depth reader) = (reader.expect kind).2 := by
  cases task with
  | property name part =>
    cases part with
    | low label =>
      cases required
      exact reader.after_numberCalls
    | high label low =>
      cases required
      exact reader.after_numberCalls
    | _ => cases required <;> rfl
  | _ => cases required <;> rfl

section Reads

variable (progress : Progress)

theorem reader_readDeclaration :
    (readDeclaration progress.reader.next.1 (progress.moveTo progress.reader.next.2)).reader =
      progress.reader.after (Task.calls progress.depth progress.reader .declaration) := by
  simp only [Task.calls]
  by_cases ended : progress.reader.next.1.kind = .endOfStream
  · simp only [readDeclaration, ended, if_true, Reader.after_endCalls ended]
    have same : (progress.moveTo progress.reader.next.2).depth = progress.depth := rfl
    rw [same]
    split <;> rfl
  · simp only [readDeclaration, ended, if_false]
    split_ifs <;> rfl

theorem reader_readCode (brace : Token) (braces : Nat) (block : Block) :
    (readCode brace braces block progress.reader.next.1 (progress.moveTo progress.reader.next.2)).reader =
      progress.reader.after progress.reader.blockCalls := by
  rw [Reader.after_blockCalls]
  unfold readCode
  split_ifs <;> rfl

theorem reader_readPass (name : String) (shaders : List Shader) :
    (readPass name shaders progress.reader.next.1 (progress.moveTo progress.reader.next.2)).reader =
      progress.reader.after progress.reader.blockCalls := by
  rw [Reader.after_blockCalls]
  unfold readPass
  split_ifs
  · rfl
  · rfl
  · split <;> rfl
  · rfl

theorem reader_readPropertyName :
    (readPropertyName progress.reader.next.1 (progress.moveTo progress.reader.next.2)).reader =
      progress.reader.after progress.reader.blockCalls := by
  rw [Reader.after_blockCalls]
  unfold readPropertyName
  split_ifs <;> rfl

theorem reader_readProperty (name : String) {part : PropertyTask} (free : part.required? = none) :
    (readProperty progress.reader.cursor name progress.reader.next.1 (progress.moveTo progress.reader.next.2)
        part).reader = progress.reader.after (part.calls progress.reader) := by
  cases part with
  | typeName label =>
    simp only [readProperty]
    split
    · rfl
    · rw [reader_typed]
      rfl
  | typeSuffix label number =>
    simp only [readProperty, PropertyTask.calls]
    split
    · rw [reader_typed]
      rfl
    · rw [reader_typed]
      rfl
  | bounds label =>
    simp only [readProperty, PropertyTask.calls, Reader.after_lookCalls]
    split <;> rfl
  | sign label value =>
    simp only [readProperty, PropertyTask.calls, Reader.after_lookCalls]
    split <;> rfl
  | default label value =>
    simp only [readProperty, PropertyTask.calls, reader_readDefault]
    split <;> rfl
  | group label value depth =>
    simp only [readProperty, reader_readGroup]
    rfl
  | _ => cases free

theorem reader_read {task : Task} (running : task.isDone = false) (free : task.required? = none) :
    (read progress.reader.cursor progress.reader.next.1 (progress.moveTo progress.reader.next.2) task).reader =
      progress.reader.after (task.calls progress.depth progress.reader) := by
  cases task with
  | declaration => exact reader_readDeclaration progress
  | chunk brace braces block part =>
    cases part with
    | code => exact reader_readCode progress brace braces block
    | _ => rfl
  | passLine name shaders => exact reader_readPass progress name shaders
  | propertyName => exact reader_readPropertyName progress
  | property name part => exact reader_readProperty progress name free
  | done error => cases running
  | _ => cases free

end Reads

variable {moment next first last : Moment}

/-- A step comes to the reader behind its calls. -/
theorem reader_step (goes : step moment = some next) : next.reader = moment.reader.after moment.calls := by
  obtain ⟨running, free, rfl⟩ | ⟨kind, required, ⟨token, later, met, rfl⟩ | ⟨error, later, unmet, rfl⟩⟩ :=
    step_cases goes
  · exact reader_read moment.progress running free
  · rw [reader_found, calls, after_calls_required _ _ required, met]
    rfl
  · rw [calls, after_calls_required _ _ required, unmet]
    rfl

/-- Some steps, with all calls that they make. -/
inductive ReachesByCalls : Moment → List Reader.Call → Moment → Prop
  | stay (moment : Moment) : ReachesByCalls moment [] moment
  | step {moment next last : Moment} {calls : List Reader.Call} (goes : Moment.step moment = some next)
      (rest : ReachesByCalls next calls last) : ReachesByCalls moment (moment.calls ++ calls) last

theorem ReachesByCalls.reader_eq {calls : List Reader.Call} (runs : first.ReachesByCalls calls last) :
    last.reader = first.reader.after calls := by
  induction runs with
  | stay => rfl
  | step goes rest ih => rw [ih, reader_step goes, Reader.after_append]

theorem ReachesByCalls.reaches {calls : List Reader.Call} (runs : first.ReachesByCalls calls last) :
    Reaches Moment.step first last := by
  induction runs with
  | stay => exact .refl
  | step goes rest ih => exact .head goes ih

theorem exists_calls_of_reaches (course : Reaches step first last) : ∃ calls, first.ReachesByCalls calls last := by
  induction course using Relation.ReflTransGen.head_induction_on with
  | refl => exact ⟨[], .stay last⟩
  | head goes rest ih =>
    obtain ⟨calls, runs⟩ := ih
    exact ⟨_, .step goes runs⟩

theorem ReachesByCalls.error_eq {reader : Reader} {calls : List Reader.Call}
    (runs : (start reader).ReachesByCalls calls last) (calm : reader.error = none) :
    last.reader.error = (reader.failures calls).head? := by
  have behind := reader.error_after calls
  rw [calm, Option.none_or] at behind
  rw [runs.reader_eq]
  exact behind

theorem ReachesByCalls.error_of_outcome {reader : Reader} {calls : List Reader.Call} {result : Outcome}
    (runs : (start reader).ReachesByCalls calls last) (stops : Moment.step last = none) (calm : reader.error = none)
    (given : outcome reader = .ok result) : result.error = (reader.failures calls).head? := by
  have ended := result?_of_reaches runs.reaches stops
  unfold outcome at given
  split at given
  · cases given
  · rename_i effect later read
    rw [read] at ended
    cases given
    rw [← (eq_of_result?_ok ended).2]
    exact runs.error_eq calm

end Moment

/-- The first failure wins. A complaint that a reader has stays with it whatever it is asked for, and a placeholder
stands in for everything required, while the reader does not move. Without one the complaint is that of the first call
that fails. So it is in every reading, which comes to its end by calls alone. -/
theorem first_failure_wins :
    (∀ (reader : Reader) (complaint : Unexpected) (calls : List Reader.Call), reader.error = some complaint →
        (reader.after calls).error = some complaint ∧
          ∀ front kind back, calls = front ++ .expect kind :: back →
            (reader.after front).perform (.expect kind) =
              (.required (.ok ⟨kind, "", (reader.after front).cursor.position, (reader.after front).cursor.line⟩),
                reader.after front)) ∧
      (∀ (reader : Reader) (calls : List Reader.Call), reader.error = none →
        (reader.after calls).error = (reader.failures calls).head? ∧
          ∀ front call back complaint, calls = front ++ call :: back →
            (reader.after front).failure? call = some complaint →
            ∃ kind found, complaint = ⟨kind, found.kind, found.text, found.line⟩ ∧
              (call = .expect kind ∧ found = (reader.after front).next.1 ∧ found.kind ≠ kind ∨
                call = .report kind found)) ∧
      ∀ (source : String) (capacity : LiteralTable.Capacity),
        let reader := Reader.start source capacity
        (∃ calls last, (Moment.start reader).ReachesByCalls calls last ∧ Moment.step last = none) ∧
          ∀ calls last, (Moment.start reader).ReachesByCalls calls last → Moment.step last = none →
            last.result? = some (read reader) ∧ last.reader = reader.after calls ∧
              ∀ result, parse source capacity = .ok result →
                result.error = (reader.failures calls).head? ∧
                  (result.error = none ↔ reader.failures calls = []) := by
  refine ⟨?_, ?_, ?_⟩
  · intro reader complaint calls has
    refine ⟨Reader.error_after_of_complaint has calls, ?_⟩
    intro front kind back _
    have kept := Reader.error_after_of_complaint has front
    simp only [Reader.perform, Reader.expect_of_complaint (Option.isSome_of_eq_some kept)]
    rfl
  · intro reader calls calm
    constructor
    · rw [Reader.error_after, calm, Option.none_or]
    · intro front call back complaint _ fails
      exact Reader.exists_found_of_failure? fails
  · intro source capacity reader
    constructor
    · obtain ⟨last, ends, -⟩ := Moment.exists_mem_eval reader
      obtain ⟨course, stops⟩ := mem_eval.mp ends
      obtain ⟨calls, runs⟩ := Moment.exists_calls_of_reaches course
      exact ⟨calls, last, runs, stops⟩
    · intro calls last runs stops
      refine ⟨Moment.result?_of_reaches runs.reaches stops, runs.reader_eq, ?_⟩
      intro result given
      have first : result.error = (reader.failures calls).head? := runs.error_of_outcome stops rfl given
      refine ⟨first, ?_⟩
      rw [first, List.head?_eq_none_iff]

/-- A reader that complains about a word goes back and is asked for a string; and two blocks lack their braces, of
which the inner one is complained about. -/
theorem first_failure_wins_unclosed :
    let reader := ((Reader.start "x 1\ny" {}).expect .number).2
    let source := "effect A \x7b\neffect B \x7b"
    let missing : Unexpected := ⟨.closeBrace, .endOfStream, "", 2⟩
    (reader.error = some ⟨.number, .identifier, "x", 1⟩ ∧
        (reader.after [.next, .next, .expect .string, .restore reader.cursor, .report .comma default]).error =
          some ⟨.number, .identifier, "x", 1⟩ ∧
        ((reader.after [.next, .next]).perform (.expect .string)).1 = .required (.ok ⟨.string, "", 5, 2⟩)) ∧
      parse source {} = .ok ⟨{ name := "B" }, some missing⟩ ∧
      ∃ calls last, (Moment.start (.start source {})).ReachesByCalls calls last ∧
        ((Reader.start source {}).failures calls).head? = some missing := by
  intro reader source missing
  obtain ⟨stays, -, readings⟩ := first_failure_wins
  have complains : reader.error = some ⟨.number, .identifier, "x", 1⟩ := by decide +kernel
  obtain ⟨kept, stands⟩ :=
    stays reader _ [.next, .next, .expect .string, .restore reader.cursor, .report .comma default] complains
  have answer := congrArg Prod.fst (stands [.next, .next] .string _ rfl)
  have place : (reader.after [.next, .next]).cursor.position = 5 ∧ (reader.after [.next, .next]).cursor.line = 2 := by
    decide +kernel
  rw [place.1, place.2] at answer
  have found : parse source {} = .ok ⟨{ name := "B" }, some missing⟩ := by decide +kernel
  refine ⟨⟨complains, kept, answer⟩, found, ?_⟩
  obtain ⟨⟨calls, last, runs, stops⟩, all⟩ := readings source {}
  obtain ⟨-, -, first⟩ := all calls last runs stops
  exact ⟨calls, last, runs, (first _ found).1.symm⟩

end Document

end EffectLang
