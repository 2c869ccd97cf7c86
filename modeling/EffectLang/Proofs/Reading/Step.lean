import EffectLang.Proofs.Reading.Course
import EffectLang.Proofs.Token.Located

/-!
All that a step of a reading can do: which of its two forms it has, and what becomes of the reader. No step moves
the reader back or takes a complaint away.
-/
namespace EffectLang

/-- What a step does to a reader: it reads a token, only looks at one, complains about the end of the source, or
requires a kind of token. -/
inductive Reader.Move (reader : Reader) : Reader → Prop
  | next : Move reader reader.next.2
  | look : Move reader (reader.next.2.restore reader.cursor)
  | complain (ended : reader.next.1.kind = .endOfStream) :
      Move reader (reader.next.2.report .closeBrace reader.next.1)
  | expect (kind : Token.Kind) : Move reader (reader.expect kind).2

namespace Reader.Move

variable {reader later : Reader}

theorem error_isSome (move : reader.Move later) (complaint : reader.error.isSome) : later.error.isSome := by
  cases move with
  | next => rwa [error_next]
  | look => simpa only [restore, error_next] using complaint
  | complain ended => exact error_report _ _ _
  | expect kind =>
    obtain ⟨-, given⟩ | ⟨-, -, given⟩ | ⟨-, -, given⟩ := reader.expect_cases kind
    · rwa [given]
    · rwa [given, error_next]
    · rw [given]
      exact error_report _ _ _

theorem within {source : List Char} (move : reader.Move later) (within : reader.Within source) :
    later.Within source := by
  cases move with
  | next => exact within.next
  | look => exact within.next.restore within
  | complain ended => exact within.next.report _ _
  | expect kind => exact within.expect kind

theorem reached {first : Reader} (move : reader.Move later) (reached : Reached first reader) :
    Reached first later := by
  cases move with
  | next => exact reached.next
  | look => exact reached.next.restore reached
  | complain ended => exact reached.next.report _ _
  | expect kind => exact reached.expect kind

end Reader.Move

namespace Document.Moment

open StateTransition

theorem reader_foundInProperty (name : String) (token : Token) (progress : Progress) (part : PropertyTask) :
    (foundInProperty name token progress part).reader = progress.reader := by
  unfold foundInProperty number
  split
  all_goals first | rfl | split; rfl; split <;> rfl

theorem reader_found (token : Token) (progress : Progress) (task : Task) :
    (found token progress task).reader = progress.reader := by
  unfold found
  split
  all_goals first | rfl | exact reader_foundInProperty _ _ _ _

section Reads

variable (progress : Progress)

theorem reader_typed (name label type : String) : (typed name label type progress).reader = progress.reader := by
  unfold typed
  split <;> rfl

theorem reader_readDefault (name label : String) (value : Property.Value) (token : Token) :
    (readDefault name label value token progress).reader = progress.reader := by
  unfold readDefault
  split
  · rfl
  · split <;> rfl

theorem reader_readGroup (name label : String) (value : Property.Value) (depth : Nat) (token : Token) :
    (readGroup name label value depth token progress).reader = progress.reader := by
  unfold readGroup
  split_ifs <;> rfl

theorem move_readDeclaration (reader : Reader) :
    reader.Move (readDeclaration reader.next.1 (progress.moveTo reader.next.2)).reader := by
  unfold readDeclaration
  split_ifs with ended outside
  · exact .next
  · exact .complain ended
  · exact .next
  · exact .next
  · exact .next

theorem move_readCode (brace : Token) (braces : Nat) (block : Block) (reader : Reader) :
    reader.Move (readCode brace braces block reader.next.1 (progress.moveTo reader.next.2)).reader := by
  unfold readCode
  split_ifs with ended
  · exact .complain ended
  all_goals exact .next

theorem move_readPass (name : String) (shaders : List Shader) (reader : Reader) :
    reader.Move (readPass name shaders reader.next.1 (progress.moveTo reader.next.2)).reader := by
  unfold readPass
  split_ifs with ended
  · exact .complain ended
  · exact .next
  · split <;> exact .next
  · exact .next

theorem move_readPropertyName (reader : Reader) :
    reader.Move (readPropertyName reader.next.1 (progress.moveTo reader.next.2)).reader := by
  unfold readPropertyName
  split_ifs with ended
  · exact .complain ended
  all_goals exact .next

theorem move_readProperty (name : String) (part : PropertyTask) (reader : Reader) :
    reader.Move (readProperty reader.cursor name reader.next.1 (progress.moveTo reader.next.2) part).reader := by
  unfold readProperty
  split
  · split
    · exact .next
    · rw [reader_typed]
      exact .next
  · split
    · rw [reader_typed]
      exact .next
    · rw [reader_typed]
      exact .look
  · split
    · exact .next
    · exact .look
  · split
    · exact .next
    · exact .look
  · rw [reader_readDefault]
    exact .next
  · rw [reader_readGroup]
    exact .next
  · exact .next

theorem move_read (task : Task) (reader : Reader) :
    reader.Move (read reader.cursor reader.next.1 (progress.moveTo reader.next.2) task).reader := by
  unfold read
  split
  · exact move_readDeclaration progress reader
  · exact move_readCode progress _ _ _ reader
  · exact .next
  · exact move_readPass progress _ _ reader
  · exact move_readPropertyName progress reader
  · exact move_readProperty progress _ _ reader
  · exact .next

end Reads

variable {moment next : Moment}

/-- The two forms of a step: it reads a token of any kind, or it requires a kind, which may be missing. -/
theorem step_cases (goes : step moment = some next) :
    moment.task.isDone = false ∧ moment.task.required? = none ∧
        next =
          read moment.reader.cursor moment.reader.next.1 (moment.progress.moveTo moment.reader.next.2) moment.task ∨
      ∃ kind, moment.task.required? = some kind ∧
        ((∃ token later, moment.reader.expect kind = (.ok token, later) ∧
            next = found token (moment.progress.moveTo later) moment.task) ∨
          ∃ error later, moment.reader.expect kind = (.error error, later) ∧
            next = ⟨moment.progress.moveTo later, missed moment.task⟩) := by
  obtain ⟨progress, task⟩ := moment
  cases required : task.required? with
  | none =>
    cases running : task.isDone with
    | true =>
      cases task <;> cases running
      cases goes
    | false =>
      rw [step_read progress running required] at goes
      cases goes
      exact .inl ⟨rfl, rfl, rfl⟩
  | some kind =>
    refine .inr ⟨kind, rfl, ?_⟩
    rcases given : progress.reader.expect kind with ⟨error | token, later⟩
    · rw [step_missed progress required given] at goes
      cases goes
      exact .inr ⟨error, later, given, rfl⟩
    · rw [step_found progress required given] at goes
      cases goes
      exact .inl ⟨token, later, given, rfl⟩

/-- What a step does to the reader is one of its moves. -/
theorem move_of_step (goes : step moment = some next) : moment.reader.Move next.reader := by
  obtain ⟨-, -, rfl⟩ | ⟨kind, required, ⟨token, later, met, rfl⟩ | ⟨error, later, unmet, rfl⟩⟩ := step_cases goes
  · exact move_read moment.progress moment.task moment.reader
  · have move : moment.reader.Move (moment.reader.expect kind).2 := .expect kind
    rw [reader_found]
    rwa [met] at move
  · have move : moment.reader.Move (moment.reader.expect kind).2 := .expect kind
    rwa [unmet] at move

theorem within_of_reaches {source : List Char} {reader : Reader} (within : reader.Within source)
    (course : Reaches step (start reader) moment) : moment.reader.Within source := by
  induction course with
  | refl => exact within
  | tail _ goes ih => exact (move_of_step goes).within ih

end Document.Moment

end EffectLang
