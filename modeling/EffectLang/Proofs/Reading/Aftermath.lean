import EffectLang.Proofs.Reading.Calls
import EffectLang.Proofs.Reading.Composition

/-!
What becomes of an effect behind the first complaint. Chunks, passes and properties are only ever added to those that
are there. The name stays as well, unless another `effect` begins: its name is then a placeholder, and empty.
-/
namespace EffectLang

/-- All that an effect lists stands first in a later one. -/
structure Effect.Grows (earlier later : Effect) : Prop where
  chunks : earlier.chunks <+: later.chunks
  passes : earlier.passes <+: later.passes
  properties : earlier.properties <+: later.properties

theorem Effect.Grows.refl (effect : Effect) : effect.Grows effect :=
  ⟨List.prefix_refl _, List.prefix_refl _, List.prefix_refl _⟩

theorem Effect.Grows.trans {first second third : Effect} (front : first.Grows second) (back : second.Grows third) :
    first.Grows third :=
  ⟨front.chunks.trans back.chunks, front.passes.trans back.passes, front.properties.trans back.properties⟩

/-- An effect grows and keeps its name. -/
structure Effect.Extends (earlier later : Effect) : Prop extends earlier.Grows later where
  name : later.name = earlier.name

theorem Effect.Extends.refl (effect : Effect) : effect.Extends effect :=
  ⟨.refl effect, rfl⟩

namespace Document

open StateTransition

section Additions

variable (progress : Progress)

theorem extends_addChunk (chunk : Chunk) : progress.effect.Extends (progress.addChunk chunk).effect :=
  ⟨⟨List.prefix_append _ _, List.prefix_refl _, List.prefix_refl _⟩, rfl⟩

theorem extends_addPass (pass : Pass) : progress.effect.Extends (progress.addPass pass).effect :=
  ⟨⟨List.prefix_refl _, List.prefix_append _ _, List.prefix_refl _⟩, rfl⟩

theorem extends_addProperties (properties : List Property) :
    progress.effect.Extends (progress.addProperties properties).effect :=
  ⟨⟨List.prefix_refl _, List.prefix_refl _, List.prefix_append _ _⟩, rfl⟩

end Additions

namespace Moment

section Reads

variable (progress : Progress)

theorem extends_readDeclaration (token : Token) :
    progress.effect.Extends (readDeclaration token progress).progress.effect := by
  unfold readDeclaration
  split_ifs <;> exact .refl _

theorem extends_readCode (brace : Token) (braces : Nat) (block : Block) (token : Token) :
    progress.effect.Extends (readCode brace braces block token progress).progress.effect := by
  unfold readCode
  split_ifs
  · exact .refl _
  · exact .refl _
  · exact extends_addChunk progress _
  all_goals exact .refl _

theorem extends_readPass (name : String) (shaders : List Shader) (token : Token) :
    progress.effect.Extends (readPass name shaders token progress).progress.effect := by
  unfold readPass
  split_ifs
  · exact extends_addPass (unclosed token progress) _
  · exact extends_addPass progress _
  · split <;> exact .refl _
  · exact .refl _

theorem extends_readPropertyName (token : Token) :
    progress.effect.Extends (readPropertyName token progress).progress.effect := by
  unfold readPropertyName
  split_ifs <;> exact .refl _

theorem extends_typed (name label type : String) :
    progress.effect.Extends (typed name label type progress).progress.effect := by
  unfold typed
  split <;> exact .refl _

theorem extends_readDefault (name label : String) (value : Property.Value) (token : Token) :
    progress.effect.Extends (readDefault name label value token progress).progress.effect := by
  unfold readDefault
  split
  · exact .refl _
  · split
    · exact extends_addProperties progress _
    · exact .refl _

theorem extends_readGroup (name label : String) (value : Property.Value) (depth : Nat) (token : Token) :
    progress.effect.Extends (readGroup name label value depth token progress).progress.effect := by
  unfold readGroup
  split_ifs
  · exact extends_addProperties progress _
  · exact .refl _
  · exact extends_addProperties progress _
  all_goals exact .refl _

theorem extends_readProperty (place : Cursor) (name : String) (token : Token) (part : PropertyTask) :
    progress.effect.Extends (readProperty place name token progress part).progress.effect := by
  unfold readProperty
  split
  · split
    · exact .refl _
    · exact extends_typed progress _ _ _
  · split
    · exact extends_typed progress _ _ _
    · exact extends_typed (progress.moveTo (progress.reader.restore place)) _ _ _
  · split <;> exact .refl _
  · split
    · exact .refl _
    · exact extends_addProperties (progress.moveTo (progress.reader.restore place)) _
  · exact extends_readDefault progress _ _ _ _
  · exact extends_readGroup progress _ _ _ _ _
  · exact .refl _

theorem extends_read (place : Cursor) (token : Token) (task : Task) :
    progress.effect.Extends (read place token progress task).progress.effect := by
  unfold read
  split
  · exact extends_readDeclaration progress token
  · exact extends_readCode progress _ _ _ token
  · exact .refl _
  · exact extends_readPass progress _ _ token
  · exact extends_readPropertyName progress token
  · exact extends_readProperty progress place _ token _
  · exact .refl _

theorem progress_foundInProperty (name : String) (token : Token) (part : PropertyTask) :
    (foundInProperty name token progress part).progress = progress := by
  unfold foundInProperty number
  split
  all_goals first | rfl | split; rfl; split <;> rfl

theorem effect_found (token : Token) {task : Task} (other : task ≠ .effectName) :
    (found token progress task).progress.effect = progress.effect := by
  cases task with
  | effectName => exact absurd rfl other
  | property name part => exact congrArg Progress.effect (progress_foundInProperty progress name token part)
  | _ => rfl

end Reads

variable {moment next first last : Moment}

/-- Only the name of an `effect` is taken over from a token; all other steps keep the name and add to the lists. -/
theorem extends_step (goes : step moment = some next) (other : moment.task ≠ .effectName) :
    moment.progress.effect.Extends next.progress.effect := by
  obtain ⟨-, -, rfl⟩ | ⟨kind, required, ⟨token, later, met, rfl⟩ | ⟨error, later, unmet, rfl⟩⟩ := step_cases goes
  · exact extends_read (moment.progress.moveTo moment.reader.next.2) _ _ _
  · rw [effect_found _ _ other]
    exact .refl _
  · exact .refl _

theorem step_effectName {progress : Progress} (goes : step ⟨progress, .effectName⟩ = some next) :
    (∃ token later, progress.reader.expect .identifier = (.ok token, later) ∧
        next = ⟨⟨{ progress.effect with name := token.text }, progress.depth, later⟩, .effectBrace⟩) ∨
      ∃ error later, progress.reader.expect .identifier = (.error error, later) ∧
        next = ⟨progress.moveTo later, .declaration⟩ := by
  obtain ⟨-, free, -⟩ | ⟨kind, required, ⟨token, later, met, rfl⟩ | ⟨error, later, unmet, rfl⟩⟩ := step_cases goes
  · cases free
  · cases required
    exact .inl ⟨token, later, met, rfl⟩
  · cases required
    exact .inr ⟨error, later, unmet, rfl⟩

theorem grows_step (goes : step moment = some next) : moment.progress.effect.Grows next.progress.effect := by
  obtain ⟨progress, task⟩ := moment
  by_cases heading : task = .effectName
  · subst heading
    obtain ⟨token, later, -, rfl⟩ | ⟨error, later, -, rfl⟩ := step_effectName goes
    · exact ⟨List.prefix_refl _, List.prefix_refl _, List.prefix_refl _⟩
    · exact .refl _
  · exact (extends_step goes heading).toGrows

theorem grows_of_reaches (course : Reaches step first last) : first.progress.effect.Grows last.progress.effect := by
  induction course with
  | refl => exact .refl _
  | tail _ goes ih => exact ih.trans (grows_step goes)

section Complaint

variable {complaint : Unexpected}

theorem error_step (has : moment.reader.error = some complaint) (goes : step moment = some next) :
    next.reader.error = some complaint := by
  rw [reader_step goes]
  exact Reader.error_after_of_complaint has moment.calls

theorem error_of_reaches (has : first.reader.error = some complaint) (course : Reaches step first last) :
    last.reader.error = some complaint :=
  invariant_of_reaches (fun _ _ => error_step) has course

/-- Behind a complaint the name of an `effect` is a placeholder. -/
theorem name_of_heading (has : moment.reader.error = some complaint) (heading : moment.task = .effectName)
    (goes : step moment = some next) : next.progress.effect.name = "" := by
  obtain ⟨progress, task⟩ := moment
  subst heading
  have stands := Reader.expect_of_complaint (Option.isSome_of_eq_some has) .identifier
  obtain ⟨token, later, met, rfl⟩ | ⟨error, later, unmet, rfl⟩ := step_effectName goes
  · cases stands.symm.trans met
    rfl
  · cases stands.symm.trans unmet

theorem name_eq_empty_of_reaches (has : first.reader.error = some complaint) (empty : first.progress.effect.name = "")
    (course : Reaches step first last) : last.progress.effect.name = "" := by
  induction course with
  | refl => exact empty
  | @tail here _ front goes ih =>
    by_cases heading : here.task = .effectName
    · exact name_of_heading (error_of_reaches has front) heading goes
    · exact (extends_step goes heading).name.trans ih

theorem name_eq_of_reaches (course : Reaches step first last)
    (noHeading : ∀ moment, Reaches step first moment → moment.task ≠ .effectName) :
    last.progress.effect.name = first.progress.effect.name := by
  induction course with
  | refl => rfl
  | tail front goes ih => exact (extends_step goes (noHeading _ front)).name.trans ih

end Complaint

/-- The step of a reading that brings the first complaint. -/
structure Complains (reader : Reader) (before after : Moment) (complaint : Unexpected) : Prop where
  course : Reaches step (start reader) before
  calm : before.reader.error = none
  goes : step before = some after
  complaint : after.reader.error = some complaint

theorem exists_complains {reader : Reader} {complaint : Unexpected} (calm : reader.error = none)
    (course : Reaches step (start reader) last) (has : last.reader.error = some complaint) :
    ∃ before after, Complains reader before after complaint := by
  induction course with
  | refl => cases calm.symm.trans has
  | @tail here there front goes ih =>
    cases earlier : here.reader.error with
    | none => exact ⟨here, there, front, earlier, goes, has⟩
    | some first =>
      cases (error_step earlier goes).symm.trans has
      exact ih earlier

/-- The step that brings the complaint takes no name. -/
theorem Complains.name_eq {reader : Reader} {before after : Moment} {complaint : Unexpected}
    (complains : Complains reader before after complaint) :
    after.progress.effect.name = before.progress.effect.name := by
  have goes := complains.goes
  have has := complains.complaint
  have calm := complains.calm
  obtain ⟨progress, task⟩ := before
  by_cases heading : task = .effectName
  · subst heading
    obtain ⟨token, later, met, rfl⟩ | ⟨error, later, unmet, rfl⟩ := step_effectName goes
    · have quiet : later.error = none := by
        obtain ⟨complained, -⟩ | ⟨-, -, given⟩ | ⟨-, -, given⟩ := progress.reader.expect_cases .identifier
        · rw [show progress.reader.error = none from calm] at complained
          cases complained
        · cases given.symm.trans met
          rw [Reader.error_next]
          exact calm
        · cases given.symm.trans met
      cases quiet.symm.trans has
    · rfl
  · exact (extends_step goes heading).name

/-- A reading with a complaint comes to its end from the step that brings it. -/
theorem Complains.reaches_last {reader : Reader} {before after last : Moment} {complaint : Unexpected}
    (complains : Complains reader before after complaint) (ends : last ∈ eval step (start reader)) :
    Reaches step after last := by
  have course : Reaches step (start reader) after := complains.course.tail complains.goes
  rw [reaches_eval course] at ends
  exact (mem_eval.mp ends).1

/-- The moment behind a number of steps. -/
def advance : Nat → Moment → Option Moment
  | 0, moment => some moment
  | count + 1, moment => (step moment).bind (advance count)

theorem reaches_of_advance {count : Nat} (given : advance count first = some last) : Reaches step first last := by
  induction count generalizing first with
  | zero =>
    cases given
    exact .refl
  | succ count ih =>
    obtain ⟨next, goes, rest⟩ := Option.bind_eq_some_iff.mp given
    exact .head goes (ih rest)

/-- Finds the first complaint by counting steps. -/
theorem exists_complains_of_advance {reader : Reader} {complaint : Unexpected} {holds : Moment → Moment → Bool}
    (count : Nat)
    (found : ((advance count (start reader)).any fun before => before.reader.error == none &&
      (step before).any fun after => after.reader.error == some complaint && holds before after) = true) :
    ∃ before after, Complains reader before after complaint ∧ holds before after = true := by
  simp only [Option.any_eq_true, Bool.and_eq_true, beq_iff_eq] at found
  obtain ⟨before, reached, calm, after, goes, has, further⟩ := found
  exact ⟨before, after, ⟨reaches_of_advance reached, calm, goes, has⟩, further⟩

end Moment

open Moment

/-- Behind the first complaint nothing is lost of the effect but its name, and that only to another `effect`. What was
listed at the first complaint stands first in the lists of the result. The name stays unless an `effect` begins later,
and is empty then. -/
theorem parse_behind_complaint {source : String} {capacity : LiteralTable.Capacity} {effect : Effect}
    {complaint : Unexpected} (given : parse source capacity = .ok ⟨effect, some complaint⟩) :
    (∃ before after, Complains (.start source capacity) before after complaint) ∧
      ∀ before after first, Complains (.start source capacity) before after first →
        first = complaint ∧ before.progress.effect.Grows effect ∧
          ((∀ moment, Reaches step after moment → moment.task ≠ .effectName) →
            effect.name = before.progress.effect.name) ∧
          ((∃ moment, Reaches step after moment ∧ moment.task = .effectName) → effect.name = "") := by
  obtain ⟨progress, course, rfl, has⟩ := exists_settled given
  refine ⟨exists_complains rfl course has, ?_⟩
  intro before after first complains
  have later := complains.reaches_last (mem_eval.mpr ⟨course, rfl⟩)
  have kept := error_of_reaches complains.complaint later
  refine ⟨Option.some.inj (kept.symm.trans has), ?_, ?_, ?_⟩
  · exact (grows_step complains.goes).trans (grows_of_reaches later)
  · intro noHeading
    exact (name_eq_of_reaches later noHeading).trans complains.name_eq
  · rintro ⟨moment, reached, heading⟩
    -- The reading goes on behind the heading, for its end is another task.
    have ends : ⟨progress, .done none⟩ ∈ eval step moment := by
      rw [← reaches_eval reached]
      exact mem_eval.mpr ⟨later, rfl⟩
    obtain same | ⟨next, goes, rest⟩ := Relation.ReflTransGen.cases_head (mem_eval.mp ends).1
    · rw [same] at heading
      cases heading
    · have complaining := error_of_reaches complains.complaint reached
      exact name_eq_empty_of_reaches (error_step complaining goes) (name_of_heading complaining heading goes) rest

/-- A chunk and the name are there at the first complaint, and a second `effect` takes the name. -/
theorem parse_behind_complaint_second_effect :
    let source := "glsl a \x7b \x7d effect A \x7b pass ; effect B \x7b glsl b \x7b \x7d \x7d \x7d"
    let complaint : Unexpected := ⟨.identifier, .semicolon, ";", 1⟩
    let effect : Effect := { chunks := [{ name := "a", code := " " }, { name := "", code := " b \x7b \x7d " }] }
    parse source {} = .ok ⟨effect, some complaint⟩ ∧
      ∃ before after, Complains (.start source {}) before after complaint ∧ before.progress.effect.Grows effect ∧
        before.progress.effect = { name := "A", chunks := [{ name := "a", code := " " }] } ∧ effect.name = "" := by
  intro source complaint effect
  have given : parse source {} = .ok ⟨effect, some complaint⟩ := by decide +kernel
  obtain ⟨before, after, complains, there⟩ : ∃ before after, Complains (.start source {}) before after complaint ∧
      (before.progress.effect == { name := "A", chunks := [{ name := "a", code := " " }] } &&
        (advance 1 after).any fun moment => moment.task == .effectName) = true :=
    exists_complains_of_advance 8 (by decide +kernel)
  rw [Bool.and_eq_true, beq_iff_eq, Option.any_eq_true] at there
  obtain ⟨early, moment, reached, heading⟩ := there
  obtain ⟨-, grows, -, loses⟩ := (parse_behind_complaint given).2 before after complaint complains
  exact ⟨given, before, after, complains, grows, early,
    loses ⟨moment, reaches_of_advance reached, beq_iff_eq.mp heading⟩⟩

/-- A name that was read before the first complaint can be lost. -/
theorem parse_loses_name :
    let source := "effect A \x7b pass ; \x7d effect B \x7b \x7d"
    ∃ effect complaint before after, parse source {} = .ok ⟨effect, some complaint⟩ ∧
      Complains (.start source {}) before after complaint ∧ before.progress.effect.name = "A" ∧ effect.name = "" := by
  intro source
  have given : parse source {} = .ok ⟨{}, some ⟨.identifier, .semicolon, ";", 1⟩⟩ := by decide +kernel
  obtain ⟨before, after, complains, named⟩ : ∃ before after,
      Complains (.start source {}) before after ⟨.identifier, .semicolon, ";", 1⟩ ∧
        (before.progress.effect.name == "A") = true :=
    exists_complains_of_advance 4 (by decide +kernel)
  exact ⟨{}, _, before, after, given, complains, beq_iff_eq.mp named, rfl⟩

end Document

end EffectLang
