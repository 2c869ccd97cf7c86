import EffectLang.Document.Chunk
import Mathlib

/-!
The conditionals of a block as a stack. Each `#if defined` pushes a frame, which is for a stage or for none, and each
`#endif` pops one. The table of depths keeps less than the stack does, yet it always tells its height and its tag.
-/
namespace EffectLang.Document

/-- What a directive of a block comes to: a conditional is entered or left, or an include is noted, which may come
from the effect itself. -/
inductive Directive where
  | enter (name : String)
  | leave
  | includes (name : String) (own : Bool)
deriving DecidableEq, Repr

/-- The conditionals that are open, innermost first, and the stage that was opened last unless a stage was closed
since. -/
structure Nest where
  frames : List (Option Stage) := []
  tag : Option Stage := none
deriving DecidableEq, Repr

namespace Nest

/-- The stages that a conditional can be for, by their names. -/
def stages : List (String × Stage) :=
  [("VERTEX", .vertex), ("FRAGMENT", .fragment), ("COMPUTE", .compute)]

def push (frame : Option Stage) (nest : Nest) : Nest :=
  ⟨frame :: nest.frames, frame.or nest.tag⟩

def pop (nest : Nest) : Nest :=
  match nest.frames with
  | [] => nest
  | none :: frames => ⟨frames, nest.tag⟩
  | some _ :: frames => ⟨frames, none⟩

def after (nest : Nest) : Directive → Nest
  | .enter name => nest.push (stages.lookup name)
  | .leave => nest.pop
  | .includes _ _ => nest

/-- The stage of the innermost frame that is for one. -/
def enclosing? (nest : Nest) : Option Stage :=
  nest.frames.findSome? id

end Nest

namespace Conditionals

def after (state : Conditionals) : Directive → Conditionals
  | .enter name => state.enter name
  | .leave => state.leave
  | .includes _ _ => state

/-- The depth that is kept for a stage. -/
def record (state : Conditionals) : Stage → Option Nat
  | .vertex => state.vertex
  | .fragment => state.fragment
  | .compute => state.compute
  | _ => none

variable {state : Conditionals} {nest : Nest}

theorem enter_of_none {name : String} (other : stageOf? name = none) (state : Conditionals) :
    state.enter name = { state with depth := state.depth + 1 } := by
  simp only [enter, other]

theorem stage_enter {name : String} {stage : Stage} (known : stageOf? name = some stage) (state : Conditionals) :
    (state.enter name).stage = some stage ∧ (state.enter name).depth = state.depth + 1 ∧
      ∀ other, (state.enter name).record other =
        if other = stage then some (state.depth + 1) else state.record other := by
  have listed : stage = .vertex ∨ stage = .fragment ∨ stage = .compute := by
    unfold stageOf? at known
    split at known <;> cases known <;> simp
  unfold enter
  rw [known]
  rcases listed with rfl | rfl | rfl
  all_goals
    refine ⟨rfl, rfl, ?_⟩
    intro other
    cases other <;> rfl

theorem leave_of_unrecorded (unrecorded : ∀ stage, state.record stage ≠ some state.depth) :
    state.leave = { state with depth := state.depth - 1 } := by
  have vertex : ¬state.vertex = some state.depth := unrecorded .vertex
  have fragment : ¬state.fragment = some state.depth := unrecorded .fragment
  have compute : ¬state.compute = some state.depth := unrecorded .compute
  simp only [leave, vertex, fragment, compute, if_false]

theorem leave_of_recorded {stage : Stage} (recorded : state.record stage = some state.depth)
    (alone : ∀ other, state.record other = some state.depth → other = stage) :
    state.leave.stage = none ∧ state.leave.depth = state.depth - 1 ∧
      ∀ other, state.leave.record other = if other = stage then none else state.record other := by
  have apart (other : Stage) (different : other ≠ stage) : state.record other ≠ some state.depth :=
    fun same => different (alone other same)
  cases stage with
  | vertex =>
    have vertex : state.vertex = some state.depth := recorded
    simp only [leave, vertex, if_true, true_and]
    intro other
    cases other <;> rfl
  | fragment =>
    have vertex : ¬state.vertex = some state.depth := apart .vertex (by decide)
    have fragment : state.fragment = some state.depth := recorded
    simp only [leave, vertex, fragment, if_true, if_false, true_and]
    intro other
    cases other <;> rfl
  | compute =>
    have vertex : ¬state.vertex = some state.depth := apart .vertex (by decide)
    have fragment : ¬state.fragment = some state.depth := apart .fragment (by decide)
    have compute : state.compute = some state.depth := recorded
    simp only [leave, vertex, fragment, compute, if_true, if_false, true_and]
    intro other
    cases other <;> rfl
  | geometry => cases recorded
  | hull => cases recorded
  | domain => cases recorded

/-- The table follows the stack. Every depth that it keeps is that of a frame for the stage. A frame for a stage may
have lost its depth to another frame for the same stage further in. Then no stage is current any more, or a frame
further in is kept, and no stage will be current when that one is left. -/
structure TracksNest (state : Conditionals) (nest : Nest) : Prop where
  depth : state.depth = nest.frames.length
  stage : state.stage = nest.tag
  recorded : ∀ stage depth, state.record stage = some depth →
    ∃ above below, nest.frames = above ++ some stage :: below ∧ depth = below.length + 1
  lost : ∀ above stage below, nest.frames = above ++ some stage :: below →
    state.record stage = some (below.length + 1) ∨ nest.tag = none ∨
      ∃ other depth, below.length + 1 < depth ∧ state.record other = some depth

theorem TracksNest.depth_le (tracks : state.TracksNest nest) {stage : Stage} {depth : Nat}
    (recorded : state.record stage = some depth) : 0 < depth ∧ depth ≤ state.depth := by
  obtain ⟨above, below, split, rfl⟩ := tracks.recorded stage depth recorded
  rw [tracks.depth, split, List.length_append, List.length_cons]
  omega

/-- What is kept for the current depth is kept for the innermost frame. -/
theorem TracksNest.head_of_recorded (tracks : state.TracksNest nest) {stage : Stage}
    (recorded : state.record stage = some state.depth) : nest.frames.head? = some (some stage) := by
  obtain ⟨above, below, split, size⟩ := tracks.recorded stage _ recorded
  have nothing : above = [] := by
    rw [tracks.depth, split, List.length_append, List.length_cons] at size
    exact List.eq_nil_of_length_eq_zero (by omega)
  rw [split, nothing]
  rfl

theorem TracksNest.enter (tracks : state.TracksNest nest) (name : String) :
    (state.enter name).TracksNest (nest.push (stageOf? name)) := by
  cases known : stageOf? name with
  | none =>
    rw [enter_of_none known]
    refine ⟨?_, ?_, ?_, ?_⟩
    · simp only [Nest.push, List.length_cons, tracks.depth]
    · exact tracks.stage
    · intro stage depth recorded
      obtain ⟨above, below, split, size⟩ := tracks.recorded stage depth recorded
      exact ⟨none :: above, below, by simp only [Nest.push, split, List.cons_append], size⟩
    · intro above stage below split
      cases above with
      | nil => simp [Nest.push] at split
      | cons frame above =>
        simp only [Nest.push, List.cons_append, List.cons.injEq] at split
        exact tracks.lost above stage below split.2
  | some stage =>
    obtain ⟨current, deeper, records⟩ := stage_enter known state
    refine ⟨?_, ?_, ?_, ?_⟩
    · simp only [Nest.push, List.length_cons, deeper, tracks.depth]
    · exact current
    · intro other depth recorded
      rw [records] at recorded
      split_ifs at recorded with same
      · cases recorded
        exact ⟨[], nest.frames, by rw [same]; rfl, by rw [tracks.depth]⟩
      · obtain ⟨above, below, split, size⟩ := tracks.recorded other depth recorded
        exact ⟨some stage :: above, below, by simp only [Nest.push, split, List.cons_append], size⟩
    · intro above other below split
      cases above with
      | nil =>
        simp only [Nest.push, List.nil_append, List.cons.injEq, Option.some.injEq] at split
        obtain ⟨rfl, rfl⟩ := split
        exact .inl (by rw [records, if_pos rfl, tracks.depth])
      | cons frame above =>
        simp only [Nest.push, List.cons_append, List.cons.injEq] at split
        refine .inr (.inr ⟨stage, state.depth + 1, ?_, by rw [records, if_pos rfl]⟩)
        rw [tracks.depth, split.2, List.length_append, List.length_cons]
        omega

section Leaving

variable {frame : Option Stage} {frames : List (Option Stage)} {tag : Option Stage}

theorem TracksNest.recorded_below (tracks : state.TracksNest ⟨frame :: frames, tag⟩) {stage : Stage} {depth : Nat}
    (recorded : state.record stage = some depth) (outer : depth ≠ state.depth) :
    ∃ above below, frames = above ++ some stage :: below ∧ depth = below.length + 1 := by
  obtain ⟨above, below, split, size⟩ := tracks.recorded stage depth recorded
  cases above with
  | nil =>
    rw [List.nil_append, List.cons.injEq] at split
    refine absurd ?_ outer
    rw [size, tracks.depth, List.length_cons, split.2]
  | cons other above =>
    rw [List.cons_append, List.cons.injEq] at split
    exact ⟨above, below, split.2, size⟩

/-- The innermost frame is for no stage when nothing is kept for it and a stage is current. -/
theorem TracksNest.pop_of_unrecorded (tracks : state.TracksNest ⟨frame :: frames, tag⟩)
    (unrecorded : ∀ stage, state.record stage ≠ some state.depth) :
    Nest.pop ⟨frame :: frames, tag⟩ = ⟨frames, tag⟩ := by
  cases frame with
  | none => rfl
  | some stage =>
    have size : state.depth = frames.length + 1 := tracks.depth
    obtain recorded | nothing | ⟨other, depth, deeper, recorded⟩ := tracks.lost [] stage frames rfl
    · exact absurd (size ▸ recorded) (unrecorded stage)
    · exact congrArg (Nest.mk frames) nothing.symm
    · have bound := (tracks.depth_le recorded).2
      omega

theorem TracksNest.leave_unrecorded (tracks : state.TracksNest ⟨frame :: frames, tag⟩)
    (unrecorded : ∀ stage, state.record stage ≠ some state.depth) : state.leave.TracksNest ⟨frames, tag⟩ := by
  rw [leave_of_unrecorded unrecorded]
  refine ⟨?_, tracks.stage, ?_, ?_⟩
  · simp only [tracks.depth, List.length_cons, Nat.add_sub_cancel]
  · intro stage depth recorded
    refine tracks.recorded_below recorded ?_
    rintro rfl
    exact unrecorded stage recorded
  · intro above stage below split
    exact tracks.lost (frame :: above) stage below (by rw [List.cons_append, ← split])

theorem TracksNest.leave_recorded {stage : Stage} (tracks : state.TracksNest ⟨some stage :: frames, tag⟩)
    (recorded : state.record stage = some state.depth) : state.leave.TracksNest ⟨frames, none⟩ := by
  have alone (other : Stage) (same : state.record other = some state.depth) : other = stage := by
    have head := tracks.head_of_recorded same
    simpa using head.symm
  obtain ⟨current, shallower, records⟩ := leave_of_recorded recorded alone
  refine ⟨?_, current, ?_, fun _ _ _ _ => .inr (.inl rfl)⟩
  · simp only [shallower, tracks.depth, List.length_cons, Nat.add_sub_cancel]
  · intro other depth kept
    rw [records] at kept
    split_ifs at kept with same
    refine tracks.recorded_below kept ?_
    rintro rfl
    exact same (alone other kept)

end Leaving

theorem TracksNest.leave (tracks : state.TracksNest nest) : state.leave.TracksNest nest.pop := by
  obtain ⟨frames, tag⟩ := nest
  cases frames with
  | nil =>
    have outside : state.depth = 0 := tracks.depth
    have unrecorded (stage : Stage) : state.record stage ≠ some state.depth := by
      intro recorded
      have bound := tracks.depth_le recorded
      omega
    have stays : state.leave = state := by
      rw [leave_of_unrecorded unrecorded, outside, Nat.zero_sub, ← outside]
    rw [stays]
    exact tracks
  | cons frame frames =>
    by_cases unrecorded : ∀ stage, state.record stage ≠ some state.depth
    · rw [tracks.pop_of_unrecorded unrecorded]
      exact tracks.leave_unrecorded unrecorded
    · obtain ⟨stage, recorded⟩ := not_forall_not.mp unrecorded
      obtain rfl : frame = some stage := by simpa using tracks.head_of_recorded recorded
      exact tracks.leave_recorded recorded

theorem lookup_stages (name : String) : Nest.stages.lookup name = stageOf? name := by
  unfold stageOf?
  split
  · rfl
  · rfl
  · rfl
  · rename_i noVertex noFragment noCompute
    rw [List.lookup_eq_none_iff]
    simpa [Nest.stages] using ⟨noVertex, noFragment, noCompute⟩

theorem TracksNest.after (tracks : state.TracksNest nest) (directive : Directive) :
    (state.after directive).TracksNest (nest.after directive) := by
  cases directive with
  | enter name =>
    rw [Nest.after, lookup_stages]
    exact tracks.enter name
  | leave => exact tracks.leave
  | includes name own => exact tracks

theorem TracksNest.foldl (tracks : state.TracksNest nest) (directives : List Directive) :
    (directives.foldl Conditionals.after state).TracksNest (directives.foldl Nest.after nest) := by
  induction directives generalizing state nest with
  | nil => exact tracks
  | cons directive directives ih => exact ih (tracks.after directive)

end Conditionals

namespace Nest

/-- No conditional for a stage is entered inside another one. -/
def Flat (directives : List Directive) : Prop :=
  ∀ before name rest, directives = before ++ .enter name :: rest → (stages.lookup name).isSome →
    ∀ frame ∈ (before.foldl after {}).frames, frame = none

theorem Flat.front {front rest : List Directive} (flat : Flat (front ++ rest)) : Flat front := by
  intro before name later split
  refine flat before name (later ++ rest) ?_
  rw [split, List.append_assoc, List.cons_append]

/-- At most one frame is for a stage, and the tag tells which one. -/
structure Tells (nest : Nest) : Prop where
  tag : nest.tag = nest.enclosing?
  single : ∀ above stage below, nest.frames = above ++ some stage :: below → ∀ frame ∈ below, frame = none

theorem Tells.push_none {nest : Nest} (tells : nest.Tells) : (nest.push none).Tells where
  tag := by
    simp only [push, enclosing?, Option.none_or, List.findSome?_cons, id]
    exact tells.tag
  single above stage below split := by
    cases above with
    | nil => simp [push] at split
    | cons frame above =>
      simp only [push, List.cons_append, List.cons.injEq] at split
      exact tells.single above stage below split.2

theorem tells_push {nest : Nest} (bare : ∀ frame ∈ nest.frames, frame = none) (stage : Stage) :
    (nest.push (some stage)).Tells where
  tag := rfl
  single above other below split := by
    cases above with
    | nil =>
      simp only [push, List.nil_append, List.cons.injEq] at split
      exact split.2 ▸ bare
    | cons frame above =>
      simp only [push, List.cons_append, List.cons.injEq] at split
      have inside : some other ∈ nest.frames := by
        rw [split.2]
        exact List.mem_append_right _ (.head _)
      cases bare _ inside

theorem Tells.pop {nest : Nest} (tells : nest.Tells) : nest.pop.Tells := by
  obtain ⟨frames, tag⟩ := nest
  cases frames with
  | nil => exact tells
  | cons frame frames =>
    have single (above stage below) (split : frames = above ++ some stage :: below) :
        ∀ frame ∈ below, frame = none := by
      refine tells.single (frame :: above) stage below ?_
      rw [List.cons_append, ← split]
    cases frame with
    | none => exact ⟨tells.tag, single⟩
    | some stage =>
      refine ⟨?_, single⟩
      have bare := tells.single [] stage frames rfl
      refine (List.findSome?_eq_none_iff.mpr ?_).symm
      intro frame member
      exact bare frame member

theorem Flat.tells {directives : List Directive} (flat : Flat directives) : (directives.foldl after {}).Tells := by
  induction directives using List.reverseRecOn with
  | nil =>
    refine ⟨rfl, ?_⟩
    intro above stage below split
    simp at split
  | append_singleton directives directive ih =>
    have tells := ih flat.front
    rw [List.foldl_append, List.foldl_cons, List.foldl_nil]
    cases directive with
    | enter name =>
      cases known : stages.lookup name with
      | none =>
        simp only [after, known]
        exact tells.push_none
      | some stage =>
        simp only [after, known]
        exact tells_push (flat directives name [] rfl (by rw [known]; rfl)) stage
    | leave => exact tells.pop
    | includes name own => exact tells

end Nest

/-- The flag of an include: the stage that is current, or 6 when none is, with the bit 0x10 for an include from the
effect itself. -/
def flagOf (stage : Option Stage) (own : Bool) : UInt32 :=
  (stage.elim 6 Stage.code) ||| (if own then 0x10 else 0)

/-- The includes among some directives, each with the flag for the stage that is current at its place. -/
def noted {σ : Type} (after : σ → Directive → σ) (current : σ → Option Stage) :
    σ → List Directive → List (String × UInt32)
  | _, [] => []
  | state, .includes name own :: rest =>
    (name, flagOf (current state) own) :: noted after current (after state (.includes name own)) rest
  | state, directive :: rest => noted after current (after state directive) rest

section Notes

variable {σ τ : Type} {after : σ → Directive → σ} {current : σ → Option Stage} {after' : τ → Directive → τ}
  {current' : τ → Option Stage}

theorem noted_append (state : σ) (first second : List Directive) :
    noted after current state (first ++ second) =
      noted after current state first ++ noted after current (first.foldl after state) second := by
  induction first generalizing state with
  | nil => rfl
  | cons directive first ih =>
    cases directive with
    | includes name own => simp only [List.cons_append, noted, ih, List.foldl_cons]
    | enter name => simp only [List.cons_append, noted, ih, List.foldl_cons]
    | leave => simp only [List.cons_append, noted, ih, List.foldl_cons]

end Notes

end EffectLang.Document
