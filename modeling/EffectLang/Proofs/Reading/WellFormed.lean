import EffectLang.Proofs.Document.Crowding
import EffectLang.Proofs.Effect.WellFormed
import EffectLang.Proofs.Reading.Step

/-!
Every reading gives a well-formed effect, with complaints or without. At each moment the effect so far is well
formed, and so is what the task at hand has gathered for it; each step keeps this.
-/
namespace EffectLang.Document

/-- A block whose chunk is well formed so far, and whose conditionals know no other stages than a pass can run. -/
structure Block.Sound (block : Block) : Prop where
  chunk : block.chunk.WellFormed
  stage : ∀ stage ∈ block.conditionals.stage, stage ∈ runStages

def CodeTask.Sound : CodeTask → Prop
  | .includeName flag => IsIncludeFlag flag
  | .resourceName kind => kind = .texture ∨ kind = .textureRW
  | _ => True

/-- What a task has gathered fits into a well-formed effect. -/
def Task.Sound (effect : Effect) (complaint : Option Unexpected) : Task → Prop
  | .chunkBrace name => Named complaint name
  | .chunk _ _ block part => Named complaint block.chunk.name ∧ block.Sound ∧ part.Sound
  | .passBrace name => Named complaint name
  | .passLine name shaders => Named complaint name ∧ ∀ shader ∈ shaders, effect.CanRun shader
  | .shaderSign name shaders stage =>
    Named complaint name ∧ (∀ shader ∈ shaders, effect.CanRun shader) ∧ stage ∈ runStages
  | .shaderName name shaders stage =>
    Named complaint name ∧ (∀ shader ∈ shaders, effect.CanRun shader) ∧ stage ∈ runStages
  | .property name _ => IsName name
  | _ => True

theorem Task.Sound.mono {effect : Effect} {complaint later : Option Unexpected} {task : Task}
    (sound : task.Sound effect complaint) (stays : complaint.isSome → later.isSome) : task.Sound effect later := by
  cases task with
  | chunkBrace name => exact Named.mono sound stays
  | chunk brace braces block part => exact ⟨sound.1.mono stays, sound.2⟩
  | passBrace name => exact Named.mono sound stays
  | passLine name shaders => exact ⟨sound.1.mono stays, sound.2⟩
  | shaderSign name shaders stage => exact ⟨sound.1.mono stays, sound.2⟩
  | shaderName name shaders stage => exact ⟨sound.1.mono stays, sound.2⟩
  | _ => exact sound

section Blocks

theorem Conditionals.enter_stage {conditionals : Conditionals} (word : String)
    (known : ∀ stage ∈ conditionals.stage, stage ∈ runStages) :
    ∀ stage ∈ (conditionals.enter word).stage, stage ∈ runStages := by
  unfold enter
  split <;> simp_all [runStages]

theorem Conditionals.leave_stage {conditionals : Conditionals}
    (known : ∀ stage ∈ conditionals.stage, stage ∈ runStages) :
    ∀ stage ∈ conditionals.leave.stage, stage ∈ runStages := by
  unfold leave
  dsimp only
  split_ifs <;> simp_all

theorem Conditionals.flag_mem {conditionals : Conditionals}
    (known : ∀ stage ∈ conditionals.stage, stage ∈ runStages) : conditionals.flag ∈ [0, 1, 3, 6] := by
  unfold flag
  split
  · rename_i stage current
    have isRun := known stage current
    revert isRun
    cases stage <;> decide
  · decide

theorem isIncludeFlag_of_includeFlag? {conditionals : Conditionals} {word : String} {flag : UInt32}
    (known : ∀ stage ∈ conditionals.stage, stage ∈ runStages) (asked : includeFlag? conditionals word = some flag) :
    IsIncludeFlag flag := by
  have listed := Conditionals.flag_mem known
  unfold includeFlag? at asked
  split at asked
  · cases asked
    exact ⟨_, listed, .inl rfl⟩
  · cases asked
    exact ⟨_, listed, .inr rfl⟩
  · cases asked

theorem kind_of_uniformKind? {type : String} {kind : Resource.Kind} (known : uniformKind? type = some kind) :
    kind = .texture ∨ kind = .textureRW := by
  unfold uniformKind? at known
  split at known
  · cases known
    exact .inl rfl
  · cases known
    exact .inr rfl
  · cases known

variable {block : Block}

theorem Block.Sound.addInclude (sound : block.Sound) (name : String) {flag : UInt32} (isFlag : IsIncludeFlag flag) :
    (block.addInclude name flag).Sound where
  chunk :=
    { flagged := by simp [Block.addInclude, sound.chunk.flagged]
      flags := by
        simpa only [Block.addInclude, List.forall_mem_append, List.forall_mem_singleton]
          using ⟨sound.chunk.flags, isFlag⟩
      resources := sound.chunk.resources }
  stage := sound.stage

theorem Block.Sound.addResource (sound : block.Sound) (name : String) {kind : Resource.Kind}
    (isTexture : kind = .texture ∨ kind = .textureRW) : (block.addResource kind name).Sound where
  chunk :=
    { sound.chunk with
      resources := by
        simpa only [Block.addResource, List.forall_mem_append, List.forall_mem_singleton]
          using ⟨sound.chunk.resources, isTexture⟩ }
  stage := sound.stage

theorem Block.Sound.enter (sound : block.Sound) (word : String) :
    Sound { block with conditionals := block.conditionals.enter word } :=
  ⟨sound.chunk, Conditionals.enter_stage word sound.stage⟩

theorem sound_readItem (sound : block.Sound) {part : CodeTask} (partSound : part.Sound) (token : Token) :
    (Moment.readItem block token part).1.Sound ∧ (Moment.readItem block token part).2.Sound ∧
      (Moment.readItem block token part).1.chunk.name = block.chunk.name := by
  unfold Moment.readItem
  split
  · exact ⟨sound, trivial, rfl⟩
  · split
    · exact ⟨sound, trivial, rfl⟩
    · exact ⟨sound, trivial, rfl⟩
    · exact ⟨⟨sound.chunk, Conditionals.leave_stage sound.stage⟩, trivial, rfl⟩
    · exact ⟨sound, trivial, rfl⟩
  · split <;> exact ⟨sound, trivial, rfl⟩
  · split
    · exact ⟨sound, trivial, rfl⟩
    · exact ⟨sound.enter _, trivial, rfl⟩
  · exact ⟨sound.enter _, trivial, rfl⟩
  · split
    · exact ⟨sound, trivial, rfl⟩
    · rename_i flag asked
      exact ⟨sound, isIncludeFlag_of_includeFlag? sound.stage asked, rfl⟩
  · exact ⟨sound.addInclude _ partSound, trivial, rfl⟩
  · split
    · exact ⟨sound, trivial, rfl⟩
    · rename_i kind known
      exact ⟨sound, kind_of_uniformKind? known, rfl⟩
  · exact ⟨sound.addResource _ partSound, trivial, rfl⟩

end Blocks

theorem mem_runStages_of_lineStage? {word : String} {stage : Stage} (known : lineStage? word = some stage) :
    stage ∈ runStages := by
  unfold lineStage? at known
  split at known <;> cases known <;> decide

def Progress.WellFormed (progress : Progress) : Prop :=
  progress.effect.WellFormed progress.reader.error

theorem Progress.WellFormed.moveTo {progress : Progress} {later : Reader} (formed : progress.WellFormed)
    (stays : progress.reader.error.isSome → later.error.isSome) : (progress.moveTo later).WellFormed :=
  formed.mono stays

namespace Moment

structure Sound (moment : Moment) : Prop where
  progress : moment.progress.WellFormed
  task : moment.task.Sound moment.progress.effect moment.reader.error

theorem Sound.moveTo {moment : Moment} {later : Reader} (sound : moment.Sound)
    (stays : moment.reader.error.isSome → later.error.isSome) :
    Sound ⟨moment.progress.moveTo later, moment.task⟩ :=
  ⟨sound.progress.moveTo stays, sound.task.mono stays⟩

theorem sound_start (reader : Reader) : (start reader).Sound where
  progress := ⟨.inl rfl, nofun, nofun, nofun, nofun, nofun, rfl, rfl⟩
  task := trivial

section Steps

variable {progress : Progress} (formed : progress.WellFormed)

include formed

theorem wellFormed_unclosed (token : Token) : (unclosed token progress).WellFormed :=
  formed.mono fun _ => Reader.error_report _ _ _

theorem sound_addProperty {name : String} (named : IsName name) (label : String) (value : Property.Value) :
    (addProperty name label value progress).Sound :=
  ⟨formed.addProperties (by simpa using named), named⟩

theorem sound_addPass {name : String} {shaders : List Shader} (named : Named progress.reader.error name)
    (run : ∀ shader ∈ shaders, progress.effect.CanRun shader) : (addPass name shaders progress).Sound :=
  ⟨formed.addPass named run, trivial⟩

theorem sound_typed {name : String} (named : IsName name) (label type : String) :
    (typed name label type progress).Sound := by
  unfold typed
  split <;> exact ⟨formed, named⟩

theorem sound_foundInProperty {name : String} (named : IsName name) (token : Token) (part : PropertyTask) :
    (foundInProperty name token progress part).Sound := by
  unfold foundInProperty number
  split
  all_goals first | exact ⟨formed, named⟩ | exact ⟨formed, trivial⟩ | skip
  all_goals
    split
    · exact ⟨formed, named⟩
    · split
      · exact ⟨formed, named⟩
      · exact ⟨formed, trivial⟩

theorem sound_found {task : Task} (sound : task.Sound progress.effect progress.reader.error) {token : Token}
    (named : task.required? = some .identifier → Named progress.reader.error token.text) :
    (found token progress task).Sound := by
  cases task with
  | effectName => exact ⟨formed.rename (named rfl).eq_empty_or, trivial⟩
  | effectBrace => exact ⟨formed, trivial⟩
  | chunkName => exact ⟨formed, named rfl⟩
  | chunkBrace name => exact ⟨formed, sound, ⟨⟨rfl, nofun, nofun⟩, nofun⟩, trivial⟩
  | passName => exact ⟨formed, named rfl⟩
  | passBrace name => exact ⟨formed, sound, nofun⟩
  | shaderSign name shaders stage => exact ⟨formed, sound⟩
  | shaderName name shaders stage =>
    obtain ⟨passNamed, run, isRun⟩ := sound
    refine ⟨formed, passNamed, ?_⟩
    simpa only [List.forall_mem_append, List.forall_mem_singleton]
      using ⟨run, Effect.runs_resolve isRun token.text⟩
  | propertiesBrace => exact ⟨formed, trivial⟩
  | property name part => exact sound_foundInProperty formed sound token part
  | declaration => exact ⟨formed, sound⟩
  | chunk brace braces block part => exact ⟨formed, sound⟩
  | passLine name shaders => exact ⟨formed, sound⟩
  | propertyName => exact ⟨formed, sound⟩
  | done error => exact ⟨formed, sound⟩

omit formed in
/-- A shader without its chunk refers to nothing, so a missing token keeps a task sound. -/
theorem sound_missed {effect : Effect} {complaint : Option Unexpected} {task : Task}
    (sound : task.Sound effect complaint) : (missed task).Sound effect complaint := by
  have bare {stage : Stage} (isRun : stage ∈ runStages) : effect.CanRun ⟨stage, noIndex⟩ := ⟨isRun, .inl rfl⟩
  unfold missed
  split
  · obtain ⟨passNamed, run, isRun⟩ := sound
    exact ⟨passNamed, by simpa only [List.forall_mem_append, List.forall_mem_singleton] using ⟨run, bare isRun⟩⟩
  · obtain ⟨passNamed, run, isRun⟩ := sound
    exact ⟨passNamed, by simpa only [List.forall_mem_append, List.forall_mem_singleton] using ⟨run, bare isRun⟩⟩
  · exact sound
  · exact sound
  · exact sound
  · exact sound
  · trivial
  · trivial

theorem sound_ofWord (word : String) : Sound ⟨progress, .ofWord word⟩ := by
  unfold Task.ofWord
  split <;> exact ⟨formed, trivial⟩

theorem sound_readDeclaration (token : Token) : (readDeclaration token progress).Sound := by
  unfold readDeclaration
  split_ifs
  · exact ⟨formed, trivial⟩
  · exact ⟨wellFormed_unclosed formed token, trivial⟩
  · exact ⟨formed, trivial⟩
  · exact sound_ofWord formed token.text
  · exact ⟨formed, trivial⟩

theorem sound_readCode (brace : Token) (braces : Nat) {block : Block}
    (named : Named progress.reader.error block.chunk.name) (sound : block.Sound) (token : Token) :
    (readCode brace braces block token progress).Sound := by
  unfold readCode
  split_ifs
  · exact ⟨wellFormed_unclosed formed token, trivial⟩
  · exact ⟨formed, named, sound, trivial⟩
  · exact ⟨formed.addChunk named ⟨sound.chunk.flagged, sound.chunk.flags, sound.chunk.resources⟩, trivial⟩
  all_goals exact ⟨formed, named, sound, trivial⟩

theorem sound_readPass {name : String} {shaders : List Shader} (named : Named progress.reader.error name)
    (run : ∀ shader ∈ shaders, progress.effect.CanRun shader) (token : Token) :
    (readPass name shaders token progress).Sound := by
  unfold readPass
  split_ifs
  · exact sound_addPass (wellFormed_unclosed formed token) (named.mono fun _ => Reader.error_report _ _ _) run
  · exact sound_addPass formed named run
  · split
    · exact ⟨formed, named, run⟩
    · rename_i stage known
      exact ⟨formed, named, run, mem_runStages_of_lineStage? known⟩
  · exact ⟨formed, named, run⟩

theorem sound_readPropertyName {token : Token} (word : token.kind = .identifier → IsName token.text) :
    (readPropertyName token progress).Sound := by
  unfold readPropertyName
  split_ifs with ended closing isWord
  · exact ⟨wellFormed_unclosed formed token, trivial⟩
  · exact ⟨formed, trivial⟩
  · exact ⟨formed, word isWord⟩
  · exact ⟨formed, trivial⟩

theorem sound_readDefault {name : String} (named : IsName name) (label : String) (value : Property.Value)
    (token : Token) : (readDefault name label value token progress).Sound := by
  unfold readDefault
  split
  · exact ⟨formed, named⟩
  · split
    · exact sound_addProperty formed named label _
    · exact ⟨formed, trivial⟩

theorem sound_readGroup {name : String} (named : IsName name) (label : String) (value : Property.Value) (depth : Nat)
    (token : Token) : (readGroup name label value depth token progress).Sound := by
  unfold readGroup
  split_ifs
  · exact sound_addProperty formed named label value
  · exact ⟨formed, named⟩
  · exact sound_addProperty formed named label value
  · exact ⟨formed, named⟩
  · exact ⟨formed, named⟩

theorem sound_readProperty (place : Cursor) {name : String} (named : IsName name) (token : Token)
    (part : PropertyTask) : (readProperty place name token progress part).Sound := by
  have back : (progress.moveTo (progress.reader.restore place)).WellFormed := formed
  unfold readProperty
  split
  · split
    · exact ⟨formed, named⟩
    · exact sound_typed formed named _ _
  · split
    · exact sound_typed formed named _ _
    · exact sound_typed back named _ _
  · split
    · exact ⟨formed, named⟩
    · exact ⟨back, named⟩
  · split
    · exact ⟨formed, named⟩
    · exact sound_addProperty back named _ _
  · exact sound_readDefault formed named _ _ token
  · exact sound_readGroup formed named _ _ _ token
  · exact ⟨formed, named⟩

theorem sound_read (place : Cursor) {task : Task} (sound : task.Sound progress.effect progress.reader.error)
    {token : Token} (word : token.kind = .identifier → IsName token.text) :
    (read place token progress task).Sound := by
  unfold read
  split
  · exact sound_readDeclaration formed token
  · exact sound_readCode formed _ _ sound.1 sound.2.1 token
  · obtain ⟨named, block, part⟩ := sound
    obtain ⟨nextBlock, nextPart, sameName⟩ := sound_readItem block part token
    exact ⟨formed, sameName ▸ named, nextBlock, nextPart⟩
  · exact sound_readPass formed sound.1 sound.2 token
  · exact sound_readPropertyName formed word
  · exact sound_readProperty formed place sound token _
  · exact ⟨formed, sound⟩

end Steps

theorem named_of_expect {reader later : Reader} {token : Token} (met : reader.expect .identifier = (.ok token, later)) :
    Named later.error token.text := by
  obtain ⟨complaint, given⟩ | ⟨-, word, given⟩ | ⟨-, -, given⟩ := reader.expect_cases .identifier
  · cases given.symm.trans met
    exact .inr ⟨rfl, complaint⟩
  · cases given.symm.trans met
    exact .inl (Reader.isWord_next word)
  · cases given.symm.trans met

theorem sound_step {moment next : Moment} (sound : moment.Sound) (goes : step moment = some next) : next.Sound := by
  have move := move_of_step goes
  obtain ⟨-, -, rfl⟩ | ⟨kind, required, ⟨token, later, met, rfl⟩ | ⟨error, later, unmet, rfl⟩⟩ := step_cases goes
  · have stays : moment.reader.error.isSome → moment.reader.next.2.error.isSome := by
      rw [Reader.error_next]
      exact id
    have moved := sound.moveTo stays
    exact sound_read moved.progress moment.reader.cursor moved.task Reader.isWord_next
  · have stays : moment.reader.error.isSome → later.error.isSome := by
      have kept := move.error_isSome
      rwa [reader_found] at kept
    have moved := sound.moveTo stays
    refine sound_found moved.progress moved.task fun word => ?_
    cases required.symm.trans word
    exact named_of_expect met
  · have moved := sound.moveTo move.error_isSome
    exact ⟨moved.progress, sound_missed moved.task⟩

end Moment

theorem wellFormed_of_outcome {reader : Reader} {outcome : Outcome} (given : Document.outcome reader = .ok outcome) :
    outcome.effect.WellFormed outcome.error := by
  obtain ⟨last, -, sound, result⟩ :=
    Moment.exists_result_of_invariant reader (Moment.sound_start reader) fun _ _ => Moment.sound_step
  unfold Document.outcome at given
  split at given
  · cases given
  · rename_i effect later read
    cases given
    rw [read] at result
    obtain ⟨rfl, rfl⟩ := Moment.eq_of_result?_ok result
    exact sound.progress

theorem length_chunks_declaration_le (word : String) (progress : Progress) :
    (declaration word progress).2.effect.chunks.length ≤ progress.effect.chunks.length + 1 := by
  unfold declaration
  split
  · unfold heading
    split
    · exact Nat.le_succ _
    · dsimp only
      split <;> exact Nat.le_succ _
  · split
    · exact Nat.le_succ _
    · simp [Progress.addChunk, Progress.moveTo]
  · split <;> exact Nat.le_succ _
  · split <;> exact Nat.le_succ _
  · exact Nat.le_succ _

/-- Each declaration brings one chunk at most, and takes at least the word that it begins with. -/
theorem length_chunks_declarations_le (progress : Progress) :
    (declarations progress).2.effect.chunks.length + (declarations progress).2.reader.remaining ≤
      progress.effect.chunks.length + progress.reader.remaining := by
  fun_induction declarations progress with
  | case1 progress token later ended outside => exact Nat.add_le_add_left progress.reader.remaining_next_le _
  | case2 progress token later ended inside =>
    refine Nat.add_le_add_left ?_ _
    rw [Progress.reader_moveTo, Reader.remaining_report]
    exact progress.reader.remaining_next_le
  | case3 progress token later more closing ih =>
    exact Nat.le_trans ih (Nat.add_le_add_left progress.reader.remaining_next_le _)
  | case4 progress token later more noClosing word item error failed =>
    have one : item.2.effect.chunks.length ≤ progress.effect.chunks.length + 1 := length_chunks_declaration_le _ later
    have shorter : item.2.reader.remaining ≤ progress.reader.next.2.remaining := remaining_declaration_le _ later
    have taken := progress.reader.remaining_next_lt more
    dsimp only
    omega
  | case5 progress token later more noClosing word item given ih =>
    have one : item.2.effect.chunks.length ≤ progress.effect.chunks.length + 1 := length_chunks_declaration_le _ later
    have shorter : item.2.reader.remaining ≤ progress.reader.next.2.remaining := remaining_declaration_le _ later
    have taken := progress.reader.remaining_next_lt more
    omega
  | case6 progress token later more noClosing noWord ih =>
    exact Nat.le_trans ih (Nat.add_le_add_left progress.reader.remaining_next_le _)

theorem length_chunks_le_of_parse {source : String} {capacity : LiteralTable.Capacity} {outcome : Outcome}
    (given : parse source capacity = .ok outcome) : outcome.effect.chunks.length ≤ source.length := by
  have bound := length_chunks_declarations_le ⟨{}, 0, .start source capacity⟩
  unfold parse Document.outcome read at given
  rcases declared : declarations ⟨{}, 0, .start source capacity⟩ with ⟨_ | error, progress⟩
  · rw [declared] at given bound
    cases given
    have whole : (Reader.start source capacity).remaining = source.length := String.length_toList
    simp only [List.length_nil, whole] at bound ⊢
    omega
  · rw [declared] at given
    cases given

/-- Whatever a source holds, and whether there is a complaint about it or not, the effect that is read from it is
well formed. While indices have room for its chunks, of which there are no more than the source has characters, each
shader that refers to one holds the index of the first of its name. No name of the effect, of a chunk or of a pass
leads out of a directory. -/
theorem parse_wellFormed (source : String) (capacity : LiteralTable.Capacity) (outcome : Outcome)
    (given : parse source capacity = .ok outcome) :
    outcome.effect.WellFormed outcome.error ∧ outcome.effect.chunks.length ≤ source.length ∧
      (outcome.effect.chunks.length ≤ 2 ^ 32 → ∀ pass ∈ outcome.effect.passes, ∀ shader ∈ pass.shaders,
        ∀ index, shader.index? = some index → outcome.effect.IsFirst index) ∧
      ∀ name ∈ outcome.effect.name :: (outcome.effect.chunks.map Chunk.name ++ outcome.effect.passes.map Pass.name),
        '/' ∉ name.toList ∧ '\\' ∉ name.toList := by
  have formed := wellFormed_of_outcome given
  refine ⟨formed, length_chunks_le_of_parse given, ?_, ?_⟩
  · intro fits pass member shader inside index
    exact formed.isFirst_of_index? fits member inside
  intro name member
  have named : name = "" ∨ IsName name := by
    simp only [List.mem_cons, List.mem_append, List.mem_map] at member
    obtain rfl | ⟨chunk, inside, rfl⟩ | ⟨pass, inside, rfl⟩ := member
    · exact formed.name
    · exact (formed.chunkNames chunk inside).eq_empty_or
    · exact (formed.passNames pass inside).eq_empty_or
  obtain rfl | isName := named
  · decide
  · exact isName.not_mem_separators

/-- Two chunks of one name, a pass whose first line refers to them, and a pass without a name. -/
theorem parse_wellFormed_doubled :
    let source := "glsl a \x7b#pragma include x\x7d glsl a\x7b\x7d pass p \x7b compute = a vertex = b \x7d pass \x7b"
    let effect : Effect :=
      { passes := [{ name := "p", shaders := [⟨.compute, 0⟩, ⟨.vertex, noIndex⟩], kind := .compute }]
        chunks := [{ name := "a", includes := ["x"], includeFlags := [6], code := "#pragma include x" },
          { name := "a" }] }
    let complaint : Unexpected := ⟨.identifier, .openBrace, "\x7b", 1⟩
    parse source {} = .ok ⟨effect, some complaint⟩ ∧ effect.WellFormed (some complaint) ∧ effect.IsFirst 0 := by
  intro source effect complaint
  have given : parse source {} = .ok ⟨effect, some complaint⟩ := by decide +kernel
  obtain ⟨formed, -, resolved, -⟩ := parse_wellFormed source {} _ given
  refine ⟨given, formed, ?_⟩
  exact resolved (by decide) effect.passes[0] (by decide) ⟨.compute, 0⟩ (by decide) 0 (by decide)

/-- Behind more chunks than an index can count, a shader has a chunk that is not the first of its name. -/
theorem parse_refers_behind_first :
    ∃ source outcome, parse source {} = .ok outcome ∧ ∃ pass ∈ outcome.effect.passes, ∃ shader ∈ pass.shaders,
      ∃ index, shader.index? = some index ∧ ¬outcome.effect.IsFirst index := by
  refine ⟨_, _, Effect.parse_crowd (2 ^ 32), ?_⟩
  rw [Effect.passes_crowded (by decide)]
  exact ⟨_, .head _, ⟨.vertex, 1⟩, .tail _ (.head _), 1, by decide, Effect.not_isFirst_crowded (by decide)⟩

end EffectLang.Document
