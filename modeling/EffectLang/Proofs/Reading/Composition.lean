import EffectLang.Proofs.Reading.Embedding
import EffectLang.Proofs.Reading.Ends
import EffectLang.Proofs.Reading.Strays

/-!
Sources one after another. A reading that makes no complaint meets the end of its source between declarations only, so
it holds nothing back there, and a source on the lines behind is read as if it stood by itself.
-/
namespace EffectLang

namespace Reader

variable {reader later : Reader}

theorem next_restore {place : Cursor} (same : place.scan = reader.cursor.scan) :
    (reader.restore place).next = reader.next := by
  simp only [next, restore, keep, same]
  cases reader.cursor.scan.lexeme with
  | none => rfl
  | some lexeme => cases lexeme <;> rfl

namespace Move

theorem ended (move : reader.Move later) (ended : reader.next.1.kind = .endOfStream) :
    later.next.1.kind = .endOfStream := by
  have again : reader.next.2.next.1.kind = .endOfStream := by rwa [next_again ended]
  have complained (kind : Token.Kind) (token : Token) :
      (reader.next.2.report kind token).next.1.kind = .endOfStream := by
    simpa only [Reader.next, cursor_report] using again
  cases move with
  | next => exact again
  | look => exact ended
  | complain _ => exact complained _ _
  | expect kind =>
    obtain ⟨-, given⟩ | ⟨-, -, given⟩ | ⟨-, -, given⟩ := reader.expect_cases kind
    · rwa [given]
    · rwa [given]
    · rw [given]
      exact complained _ _

theorem outside (move : reader.Move later) (outside : ¬reader.cursor.EndsInside) : ¬later.cursor.EndsInside := by
  have next : ¬reader.next.2.cursor.EndsInside := fun inside => outside (.later inside)
  cases move with
  | next => exact next
  | look => exact outside
  | complain _ => rwa [cursor_report]
  | expect kind =>
    obtain ⟨-, given⟩ | ⟨-, -, given⟩ | ⟨-, -, given⟩ := reader.expect_cases kind
    · rwa [given]
    · rwa [given]
    · rwa [given, cursor_report]

theorem capacity (move : reader.Move later) : later.literals.capacity = reader.literals.capacity := by
  have next := reader.capacity_next
  cases move with
  | next => exact next
  | look => exact next
  | complain _ => rwa [report_eq]
  | expect kind =>
    obtain ⟨-, given⟩ | ⟨-, -, given⟩ | ⟨-, -, given⟩ := reader.expect_cases kind
    · rw [given]
    · rwa [given]
    · rwa [given, report_eq]

end Move

end Reader

namespace Document

open StateTransition

theorem Task.required?_ne_endOfStream (task : Task) : task.required? ≠ some .endOfStream := by
  cases task with
  | property name part => cases part <;> simp [required?, PropertyTask.required?]
  | _ => simp [required?]

theorem Task.nesting_pos {task : Task} (inside : task ≠ .declaration) (running : task.isDone = false) :
    0 < task.nesting := by
  cases task with
  | declaration => exact absurd rfl inside
  | done error => cases running
  | chunk brace braces block part => cases part <;> exact Nat.succ_pos _
  | property name part => cases part <;> exact Nat.succ_pos _
  | _ => exact Nat.succ_pos _

theorem Task.nesting_property (name : String) (part : PropertyTask) : 0 < (Task.property name part).nesting :=
  nesting_pos (by simp) rfl

namespace Moment

variable {moment moment' next : Moment}

/-- A reading that comes to no end without a complaint: it has one, it has failed, or its source is over in the middle
of a declaration. -/
def Spoiled (moment : Moment) : Prop :=
  moment.reader.error.isSome ∨ moment.Fails ∨
    moment.reader.next.1.kind = .endOfStream ∧ 0 < moment.task.nesting

theorem spoiled_readProperty (place : Cursor) (progress : Progress) {token : Token} (ended : token.kind = .endOfStream)
    (name : String) (part : PropertyTask) :
    (readProperty place name token progress part).Fails ∨
      0 < (readProperty place name token progress part).task.nesting := by
  have typed (label type : String) (progress : Progress) : 0 < (typed name label type progress).task.nesting := by
    unfold Moment.typed
    split <;> exact Task.nesting_property _ _
  unfold readProperty
  split
  · rw [if_neg (by simp [ended])]
    exact .inr (typed _ _ _)
  · rw [if_neg (by simp [ended])]
    exact .inr (typed _ _ _)
  · rw [if_neg (by simp [ended])]
    exact .inr (Task.nesting_property _ _)
  · rw [if_neg (by simp [ended])]
    exact .inr (Task.nesting_property _ _)
  · unfold readDefault
    rw [if_neg (by simp [ended])]
    split
    · exact .inr (Task.nesting_property _ _)
    · exact .inl ⟨_, rfl⟩
  · rw [readGroup, if_pos ended]
    exact .inr (Task.nesting_property _ _)
  · exact .inr (Task.nesting_property _ _)

/-- In the middle of a declaration the end of the source brings a complaint or an error, or another task inside of the
declaration comes next. -/
theorem spoiled_read (place : Cursor) (progress : Progress) {token : Token} (ended : token.kind = .endOfStream)
    {task : Task} (free : task.required? = none) (inside : 0 < task.nesting) :
    (read place token progress task).reader.error.isSome ∨ (read place token progress task).Fails ∨
      0 < (read place token progress task).task.nesting := by
  cases task with
  | chunk brace braces block part =>
    by_cases code : part = .code
    · subst code
      simp only [read, readCode, if_pos ended]
      exact .inl (Reader.error_report _ _ _)
    · simp only [read]
      exact .inr (.inr (Task.nesting_pos (by simp) rfl))
  | passLine name shaders =>
    simp only [read, readPass, if_pos ended]
    exact .inl (Reader.error_report _ _ _)
  | propertyName =>
    simp only [read, readPropertyName, if_pos ended]
    exact .inl (Reader.error_report _ _ _)
  | property name part =>
    exact .inr (spoiled_readProperty place progress ended name part)
  | declaration => cases inside
  | done error => cases inside
  | _ => cases free

theorem Spoiled.step (spoiled : moment.Spoiled) (goes : step moment = some next) : next.Spoiled := by
  obtain complaint | ⟨error, failed⟩ | ⟨ended, inside⟩ := spoiled
  · exact .inl ((move_of_step goes).error_isSome complaint)
  · simp [Moment.step, failed] at goes
  · have still := (move_of_step goes).ended ended
    obtain ⟨-, free, rfl⟩ | ⟨kind, required, goes⟩ := step_cases goes
    · obtain complaint | failed | inside :=
        spoiled_read moment.reader.cursor (moment.progress.moveTo moment.reader.next.2) ended free inside
      · exact .inl complaint
      · exact .inr (.inl failed)
      · exact .inr (.inr ⟨still, inside⟩)
    -- The end of the source is never what is required.
    · left
      obtain ⟨complaint, given⟩ | ⟨-, met, -⟩ | ⟨-, -, given⟩ := moment.reader.expect_cases kind
      · obtain ⟨token, later, met, rfl⟩ | ⟨error, later, unmet, rfl⟩ := goes
        · cases given.symm.trans met
          rw [reader_found]
          exact complaint
        · cases given.symm.trans unmet
      · rw [ended] at met
        exact absurd (met ▸ required) moment.task.required?_ne_endOfStream
      · obtain ⟨token, later, met, rfl⟩ | ⟨error, later, unmet, rfl⟩ := goes
        · cases given.symm.trans met
        · cases given.symm.trans unmet
          exact Reader.error_report _ _ _

theorem capacity_of_reaches {reader : Reader} (course : Reaches step (start reader) moment) :
    moment.reader.literals.capacity = reader.literals.capacity := by
  induction course with
  | refl => rfl
  | tail _ goes ih => exact (move_of_step goes).capacity.trans ih

/-- What the first moment has and every step keeps, the last moment of a reading has that gives an outcome. -/
theorem exists_settled_of_invariant {holds : Moment → Prop} {reader : Reader} {result : Outcome}
    (given : outcome reader = .ok result) (first : holds (start reader))
    (keeps : ∀ moment next, holds moment → step moment = some next → holds next) :
    ∃ progress, holds ⟨progress, .done none⟩ ∧ progress.effect = result.effect ∧
      progress.reader.error = result.error := by
  obtain ⟨⟨progress, task⟩, course, has, last⟩ := exists_result_of_invariant reader first keeps
  have ended := isDone_of_result? last
  cases task with
  | done error =>
    cases error with
    | none =>
      cases (outcome_of_settled course).symm.trans given
      exact ⟨progress, has, rfl, rfl⟩
    | some error => cases (outcome_of_failed course).symm.trans given
  | _ => cases ended

theorem exists_settled {reader : Reader} {result : Outcome} (given : outcome reader = .ok result) :
    ∃ progress, Reaches step (start reader) ⟨progress, .done none⟩ ∧ progress.effect = result.effect ∧
      progress.reader.error = result.error :=
  exists_settled_of_invariant given .refl fun _ _ front goes => front.tail goes

theorem exists_failed {reader : Reader} {error : Error} (given : outcome reader = .error error) :
    ∃ progress, Reaches step (start reader) ⟨progress, .done (some error)⟩ ∧
      progress.reader = (Document.read reader).2 := by
  obtain ⟨⟨progress, task⟩, ends, last⟩ := exists_mem_eval reader
  have course := (mem_eval.mp ends).1
  have ended := isDone_of_result? last
  cases task with
  | done reason =>
    cases reason with
    | none => cases (outcome_of_settled course).symm.trans given
    | some reason =>
      cases (outcome_of_failed course).symm.trans given
      exact ⟨progress, course, congrArg Prod.snd (Option.some.inj last)⟩
  | _ => cases ended

theorem rest_of_settled {reader : Reader} {progress : Progress}
    (course : Reaches step (start reader) ⟨progress, .done none⟩) : progress.reader.cursor.rest = [] := by
  have given : some (Except.ok progress.effect, progress.reader) = some (Document.read reader) :=
    result?_of_reaches course rfl
  exact rest_of_read (Option.some.inj given).symm

section Before

/-- The reading of a source and that of the source with more on the lines behind it are at the end of the source,
between declarations. -/
structure AtEnd (source back : List Char) (whole : Reader) (progress progress' : Progress) : Prop where
  inStep : InStep [] ('\n' :: back) {} source (start whole) ⟨progress, .declaration⟩ ⟨progress', .declaration⟩
  outside : ¬progress.reader.cursor.EndsInside
  ended : progress.reader.next.1.kind = .endOfStream

/-- What holds along the reading of a source: it is spoiled, or in step with the reading of all, or it has come to the
end in step with it. -/
def Accords (source back : List Char) (whole : Reader) (moment : Moment) : Prop :=
  moment.Spoiled ∨
    (¬moment.reader.cursor.EndsInside ∧
      ∃ moment', InStep [] ('\n' :: back) {} source (start whole) moment moment') ∨
    ∃ progress progress', AtEnd source back whole progress progress' ∧ step ⟨progress, .declaration⟩ = some moment

variable {source back : List Char} {whole : Reader}
  (calm : ∀ moment, Reaches step (start whole) moment → ¬moment.Overflows)

include calm

theorem Accords.step (accords : moment.Accords source back whole) (goes : step moment = some next) :
    next.Accords source back whole := by
  obtain spoiled | ⟨outside, moment', inStep⟩ | ⟨progress, progress', atEnd, came⟩ := accords
  · exact .inl (spoiled.step goes)
  · by_cases more : moment.reader.next.1.kind ≠ .endOfStream
    · obtain failed | inStep := inStep.step (Cursor.apart_of_outside outside more back) calm goes
      · exact .inl (.inr (.inl failed))
      · exact .inr (.inl ⟨(move_of_step goes).outside outside, inStep⟩)
    · have ended := not_ne_iff.mp more
      obtain ⟨progress, task⟩ := moment
      obtain ⟨progress', task'⟩ := moment'
      by_cases outer : task = .declaration
      · subst outer
        obtain rfl : task' = .declaration := inStep.embeds.task.eq_of_isPlain rfl
        exact .inr (.inr ⟨progress, progress', ⟨inStep, outside, ended⟩, goes⟩)
      · have running : task.isDone = false := by
          cases task with
          | done error => cases goes
          | _ => rfl
        have spoiled : Spoiled ⟨progress, task⟩ := .inr (.inr ⟨ended, Task.nesting_pos outer running⟩)
        exact .inl (spoiled.step goes)
  · rw [step_at_end atEnd.ended] at came
    cases came
    cases goes

end Before

section Behind

variable {front source : List Char} {earlier : Effect} {first : Moment}

/-- What holds along the reading of a source behind another one: it has failed, or the reading of all is in step. -/
def Pursued (front : List Char) (earlier : Effect) (source : List Char) (first moment : Moment) : Prop :=
  moment.Fails ∨ ∃ moment', InStep front [] earlier source first moment moment'

variable (calm : ∀ later, Reaches step first later → ¬later.Overflows)

include calm

theorem Pursued.step (pursued : Pursued front earlier source first moment) (goes : step moment = some next) :
    Pursued front earlier source first next := by
  obtain ⟨error, failed⟩ | ⟨moment', inStep⟩ := pursued
  · simp [Moment.step, failed] at goes
  · exact inStep.step (.inl rfl) calm goes

end Behind

section Seam

variable {source back : List Char} {whole : Reader} {progress progress' : Progress}

/-- The moment at which the reading of all has passed the end of a source and the line feed behind it. -/
def seam (gap back : List Char) (progress : Progress) : Moment :=
  ⟨progress.moveTo (progress.reader.restore (progress.reader.cursor.advance gap back)), .declaration⟩

theorem step_seam {gap : List Char} (unread : progress.reader.cursor.rest = gap ++ back) (complete : Trivia.Gap gap) :
    step (seam gap back progress) = step ⟨progress, .declaration⟩ := by
  have next := Reader.next_restore (Cursor.scan_advance unread complete)
  rw [seam, step_read _ rfl rfl, step_read _ rfl rfl]
  simp only [read, Progress.reader_moveTo, next]
  rfl

theorem AtEnd.unread (atEnd : AtEnd source back whole progress progress') :
    progress'.reader.cursor.rest = (progress.reader.cursor.rest ++ ['\n']) ++ back := by
  rw [atEnd.inStep.embeds.progress.reader.cursor, List.append_assoc]
  rfl

theorem AtEnd.complete (atEnd : AtEnd source back whole progress progress') :
    Trivia.Gap (progress.reader.cursor.rest ++ ['\n']) :=
  Cursor.gap_of_outside atEnd.outside atEnd.ended

theorem AtEnd.reaches {last : Moment} (atEnd : AtEnd source back whole progress progress')
    (course : Reaches step (seam (progress.reader.cursor.rest ++ ['\n']) back progress') last) :
    last.task = .declaration ∨ Reaches step (start whole) last := by
  obtain rfl | ⟨next, goes, rest⟩ := Relation.ReflTransGen.cases_head course
  · exact .inl rfl
  · rw [step_seam atEnd.unread atEnd.complete] at goes
    exact .inr (atEnd.inStep.course.trans (.head goes rest))

theorem AtEnd.calm (atEnd : AtEnd source back whole progress progress')
    (calm : ∀ moment, Reaches step (start whole) moment → ¬moment.Overflows) (later : Moment)
    (course : Reaches step (seam (progress.reader.cursor.rest ++ ['\n']) back progress') later) : ¬later.Overflows := by
  rintro ⟨line, overflow⟩
  obtain same | course := atEnd.reaches course
  · cases same.symm.trans overflow
  · exact calm later course ⟨line, overflow⟩

theorem AtEnd.cursor (atEnd : AtEnd source back whole progress progress') :
    progress'.reader.cursor.advance (progress.reader.cursor.rest ++ ['\n']) back =
      (Cursor.start back).between (source ++ ['\n']) [] := by
  obtain ⟨before, rest, rfl, located⟩ := atEnd.inStep.fits.within
  have position : progress.reader.cursor.position = Utf8.byteLength before := located.place.position
  have line : progress.reader.cursor.line = 1 + before.count '\n' := located.line
  have unread : progress.reader.cursor.rest = rest := located.place.rest
  rw [atEnd.inStep.embeds.progress.reader.cursor]
  simp only [Cursor.advance, Cursor.between, Cursor.start, position, line, unread, Utf8.byteLength_append,
    Utf8.byteLength_nil, List.count_append, List.count_nil, List.append_nil, Cursor.mk.injEq, and_true]
  omega

theorem AtEnd.embeds {whole second : String} {capacity : LiteralTable.Capacity}
    (atEnd : AtEnd source second.toList (.start whole capacity) progress progress') (outer : progress.depth = 0)
    (clean : progress.reader.error = none) (small : capacity.maxBytes ≤ 2 ^ 32) :
    (start (.start second capacity)).Embeds (source ++ ['\n']) [] progress'.effect
      (seam (progress.reader.cursor.rest ++ ['\n']) second.toList progress') := by
  have reached := atEnd.inStep.embeds.progress
  have reader : (Reader.start second capacity).Embeds (source ++ ['\n']) []
      (progress'.reader.restore (progress'.reader.cursor.advance (progress.reader.cursor.rest ++ ['\n'])
        second.toList)) :=
    { source := by
        have same : progress.reader.source = source := atEnd.inStep.fits.within.source_eq
        have larger := reached.reader.source
        rw [same] at larger
        simpa [Reader.restore, Reader.start] using larger
      cursor := atEnd.cursor
      error := by
        have none := reached.reader.error
        rw [clean] at none
        exact none
      literals :=
        have same : progress'.reader.literals.capacity = capacity := capacity_of_reaches atEnd.inStep.course
        ⟨same, same.symm ▸ small, Nat.zero_le _⟩ }
  exact ⟨⟨Effect.continues_refl _, reached.depth.trans outer, reader⟩, .same rfl⟩

end Seam

end Moment

open Moment

end Document

end EffectLang
