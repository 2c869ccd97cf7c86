import EffectLang.Document.Pass
import EffectLang.Proofs.Token.Lexeme

/-!
Well-formed effects: names are words, each include has a flag that stands for a stage, shaders refer to the first
chunk of a name, and what no source can declare is empty. A name may only be missing when there is a complaint
about the source.
-/
namespace EffectLang

def IsName (name : String) : Prop :=
  Lexeme.IsWord name.toList

/-- A name, which only a complaint excuses from being there. -/
def Named (complaint : Option Unexpected) (name : String) : Prop :=
  IsName name ∨ name = "" ∧ complaint.isSome

/-- A vertex, fragment or compute stage, or none of them, with a bit for includes from the effect itself. -/
def IsIncludeFlag (flag : UInt32) : Prop :=
  ∃ stage ∈ [0, 1, 3, 6], flag = stage ∨ flag = stage ||| 0x10

def runStages : List Stage :=
  [.vertex, .fragment, .compute]

structure Chunk.WellFormed (chunk : Chunk) : Prop where
  flagged : chunk.includeFlags.length = chunk.includes.length
  flags : ∀ flag ∈ chunk.includeFlags, IsIncludeFlag flag
  resources : ∀ resource ∈ chunk.resources, resource.kind = .texture ∨ resource.kind = .textureRW

namespace Effect

/-- There is a chunk at an index, and none before it has its name. -/
def IsFirst (effect : Effect) (index : Nat) : Prop :=
  ∃ chunk, effect.chunks[index]? = some chunk ∧ ∀ earlier ∈ effect.chunks.take index, earlier.name ≠ chunk.name

/-- A shader runs a stage, and refers to nothing or to a chunk that is the first of its name. -/
structure CanRun (effect : Effect) (shader : Shader) : Prop where
  stage : shader.stage ∈ runStages
  chunk : shader.chunkIndex = noIndex ∨ ∃ index, effect.IsFirst index ∧ shader.chunkIndex = UInt32.ofNat index

end Effect

structure Pass.WellFormed (effect : Effect) (pass : Pass) : Prop where
  shaders : ∀ shader ∈ pass.shaders, effect.CanRun shader
  kind : pass.kind = .compute ↔ ∃ shader ∈ pass.shaders, shader.stage = .compute
  resourceLists : pass.resourceLists = []
  renderState : pass.renderState = noIndex

structure Effect.WellFormed (effect : Effect) (complaint : Option Unexpected) : Prop where
  name : effect.name = "" ∨ IsName effect.name
  chunkNames : ∀ chunk ∈ effect.chunks, Named complaint chunk.name
  passNames : ∀ pass ∈ effect.passes, Named complaint pass.name
  propertyNames : ∀ property ∈ effect.properties, IsName property.name
  chunks : ∀ chunk ∈ effect.chunks, chunk.WellFormed
  passes : ∀ pass ∈ effect.passes, pass.WellFormed effect
  resourceLists : effect.resourceLists = []
  renderStates : effect.renderStates = []

theorem IsName.not_mem_separators {name : String} (isName : IsName name) : '/' ∉ name.toList ∧ '\\' ∉ name.toList := by
  obtain ⟨c, more, spelled, letter, inside⟩ := isName
  have apart (d : Char) (noLetter : d.isAlphanum = false) (other : d ≠ '_') : d ∉ c :: more := by
    intro member
    rcases List.mem_cons.mp member with rfl | member
    · rw [Char.isAlphanum, letter] at noLetter
      cases noLetter
    · rcases inside d member with word | line
      · rw [noLetter] at word
        cases word
      · exact other line
  rw [spelled]
  exact ⟨apart '/' rfl (by decide), apart '\\' rfl (by decide)⟩

theorem Named.eq_empty_or {complaint : Option Unexpected} {name : String} (named : Named complaint name) :
    name = "" ∨ IsName name :=
  named.elim .inr fun missing => .inl missing.1

theorem Named.mono {complaint later : Option Unexpected} {name : String} (named : Named complaint name)
    (stays : complaint.isSome → later.isSome) : Named later name :=
  named.imp id fun missing => ⟨missing.1, stays missing.2⟩

namespace Effect

variable {effect : Effect} {complaint later : Option Unexpected}

theorem IsFirst.lt_length {index : Nat} (first : effect.IsFirst index) : index < effect.chunks.length := by
  obtain ⟨chunk, there, -⟩ := first
  exact (List.getElem?_eq_some_iff.mp there).1

theorem IsFirst.append {index : Nat} (first : effect.IsFirst index) (more : List Chunk) :
    IsFirst { effect with chunks := effect.chunks ++ more } index := by
  have inside := first.lt_length
  obtain ⟨chunk, there, noEarlier⟩ := first
  refine ⟨chunk, ?_, ?_⟩
  · rw [List.getElem?_append_left inside, there]
  · rwa [List.take_append_of_le_length inside.le]

theorem CanRun.append {shader : Shader} (canRun : effect.CanRun shader) (more : List Chunk) :
    CanRun { effect with chunks := effect.chunks ++ more } shader where
  stage := canRun.stage
  chunk := canRun.chunk.imp id fun ⟨index, first, refers⟩ => ⟨index, first.append more, refers⟩

theorem CanRun.of_chunks {other : Effect} {shader : Shader} (canRun : effect.CanRun shader)
    (same : other.chunks = effect.chunks) : other.CanRun shader := by
  obtain ⟨stage, chunk⟩ := canRun
  refine ⟨stage, ?_⟩
  simpa only [IsFirst, same] using chunk

theorem isFirst_of_findChunk? {name : String} {index : Nat} (found : effect.findChunk? name = some index) :
    effect.IsFirst index := by
  obtain ⟨inside, there, noEarlier⟩ := List.findIdx?_eq_some_iff_getElem.mp found
  refine ⟨effect.chunks[index], List.getElem?_eq_getElem inside, ?_⟩
  intro earlier member
  obtain ⟨place, before, rfl⟩ := List.mem_take_iff_getElem.mp member
  have other := noEarlier place (by omega)
  have named : effect.chunks[index].name = name := by simpa using there
  simpa [named] using other

theorem runs_resolve {stage : Stage} (isRun : stage ∈ runStages) (name : String) :
    effect.CanRun ⟨stage, Document.resolve effect name⟩ where
  stage := isRun
  chunk := by
    unfold Document.resolve
    split
    · rename_i index found
      exact .inr ⟨index, isFirst_of_findChunk? found, rfl⟩
    · exact .inl rfl

namespace WellFormed

theorem mono (formed : effect.WellFormed complaint) (stays : complaint.isSome → later.isSome) :
    effect.WellFormed later :=
  { formed with
    chunkNames := fun chunk member => (formed.chunkNames chunk member).mono stays
    passNames := fun pass member => (formed.passNames pass member).mono stays }

theorem rename (formed : effect.WellFormed complaint) {name : String} (named : name = "" ∨ IsName name) :
    WellFormed { effect with name } complaint :=
  { formed with
    name := named
    passes := fun pass member =>
      { formed.passes pass member with
        shaders := fun shader inside => ((formed.passes pass member).shaders shader inside).of_chunks rfl } }

theorem addChunk (formed : effect.WellFormed complaint) {chunk : Chunk} (named : Named complaint chunk.name)
    (chunkFormed : chunk.WellFormed) :
    WellFormed { effect with chunks := effect.chunks ++ [chunk] } complaint :=
  { formed with
    chunkNames := by
      simpa only [List.forall_mem_append, List.forall_mem_singleton] using ⟨formed.chunkNames, named⟩
    chunks := by
      simpa only [List.forall_mem_append, List.forall_mem_singleton] using ⟨formed.chunks, chunkFormed⟩
    passes := fun pass member =>
      { formed.passes pass member with
        shaders := fun shader inside => ((formed.passes pass member).shaders shader inside).append [chunk] } }

theorem addPass (formed : effect.WellFormed complaint) {name : String} {shaders : List Shader}
    (named : Named complaint name) (run : ∀ shader ∈ shaders, effect.CanRun shader) :
    WellFormed
      { effect with passes := effect.passes ++ [{ name, shaders, kind := Document.passKind shaders }] } complaint := by
  have passFormed : Pass.WellFormed effect { name, shaders, kind := Document.passKind shaders } := by
    refine ⟨run, ?_, rfl, rfl⟩
    unfold Document.passKind
    simp
  have formedPasses : ∀ pass ∈ effect.passes ++ [{ name, shaders, kind := Document.passKind shaders }],
      pass.WellFormed effect := by
    simpa only [List.forall_mem_append, List.forall_mem_singleton] using ⟨formed.passes, passFormed⟩
  exact
    { formed with
      passNames := by
        simpa only [List.forall_mem_append, List.forall_mem_singleton] using ⟨formed.passNames, named⟩
      passes := fun pass member =>
        { formedPasses pass member with
          shaders := fun shader inside => ((formedPasses pass member).shaders shader inside).of_chunks rfl } }

theorem addProperties (formed : effect.WellFormed complaint) {properties : List Property}
    (named : ∀ property ∈ properties, IsName property.name) :
    WellFormed { effect with properties := effect.properties ++ properties } complaint :=
  { formed with
    propertyNames := by simpa only [List.forall_mem_append] using ⟨formed.propertyNames, named⟩
    passes := fun pass member =>
      { formed.passes pass member with
        shaders := fun shader inside => ((formed.passes pass member).shaders shader inside).of_chunks rfl } }

/-- While indices have room for all chunks, the index that a shader holds is that of the first chunk of a name. -/
theorem isFirst_of_index? (formed : effect.WellFormed complaint) (fits : effect.chunks.length ≤ 2 ^ 32)
    {pass : Pass} (member : pass ∈ effect.passes) {shader : Shader} (inside : shader ∈ pass.shaders) {index : Nat}
    (refers : shader.index? = some index) : effect.IsFirst index := by
  unfold Shader.index? at refers
  split at refers
  · cases refers
  · rename_i something
    cases refers
    obtain nothing | ⟨index, first, same⟩ := ((formed.passes pass member).shaders shader inside).chunk
    · exact absurd nothing something
    · rw [same, UInt32.toNat_ofNat_of_lt' (Nat.lt_of_lt_of_le first.lt_length fits)]
      exact first

end WellFormed

end Effect

end EffectLang
