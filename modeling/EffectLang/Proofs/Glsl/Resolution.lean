import EffectLang.Proofs.Glsl.StageFiles

/-!
Which effects have stage files. The references of the shaders decide it alone, whatever indices they hold: with a chunk
for each of them there is one file for each of them, in their order, and otherwise the first of them without a chunk is
named.
-/
namespace EffectLang

namespace Lines

/-- What follows the first line of a text. -/
def behindFirst (text : List Char) : List Char :=
  (text.dropWhile (· ≠ '\n')).tail

theorem behindFirst_append {line : List Char} (unbroken : '\n' ∉ line) (text : List Char) :
    behindFirst (line ++ '\n' :: text) = text := by
  have skipped : ∀ c ∈ line, decide (c ≠ '\n') = true := by
    intro c member
    exact decide_eq_true fun feed => unbroken (feed ▸ member)
  rw [behindFirst, List.dropWhile_append_of_pos skipped]
  rfl

end Lines

theorem Glsl.Version.feed_not_mem_header (version : Glsl.Version) : '\n' ∉ version.header.toList := by
  cases version <;> decide

theorem Stage.feed_not_mem_define (stage : Stage) : '\n' ∉ "#define ".toList ++ stage.define.toList := by
  cases stage <;> decide

theorem StageFile.code_of_source (version : Glsl.Version) (chunk : Chunk) (stage : Stage) :
    Lines.behindFirst (Lines.behindFirst (generate version chunk stage).source.toList) = chunk.code.toList := by
  have spelled : (generate version chunk stage).source.toList =
      version.header.toList ++ '\n' :: (("#define ".toList ++ stage.define.toList) ++ '\n' :: chunk.code.toList) := by
    simp [generate]
  rw [spelled, Lines.behindFirst_append version.feed_not_mem_header, Lines.behindFirst_append stage.feed_not_mem_define]

def Pass.entries (pass : Pass) : List (Pass × Shader) :=
  pass.shaders.map fun shader => (pass, shader)

namespace Effect

variable {effect : Effect} {version : Glsl.Version}

/-- The index of a shader is that of a chunk: not the reserved one, and less than the number of chunks. -/
def Resolves (effect : Effect) (shader : Shader) : Prop :=
  shader.chunkIndex ≠ noIndex ∧ shader.chunkIndex.toNat < effect.chunks.length

instance (shader : Shader) : Decidable (effect.Resolves shader) :=
  inferInstanceAs (Decidable (_ ∧ _))

theorem chunk?_of_resolves {shader : Shader} (resolves : effect.Resolves shader) :
    effect.chunk? shader = effect.chunks[shader.chunkIndex.toNat]? := by
  simp only [chunk?, Shader.index?, if_neg resolves.1]

theorem chunk?_eq_none_iff {shader : Shader} : effect.chunk? shader = none ↔ ¬effect.Resolves shader := by
  by_cases reserved : shader.chunkIndex = noIndex
  · simp [chunk?, Shader.index?, Resolves, reserved]
  · simp [chunk?, Shader.index?, Resolves, reserved]

theorem stageFile_eq_error_iff {pass : Pass} {shader : Shader} {error : Error} :
    effect.stageFile version pass shader = .error error ↔
      ¬effect.Resolves shader ∧ error = .unresolvedChunk pass.name shader.stage shader.chunkIndex := by
  rw [← chunk?_eq_none_iff, stageFile]
  cases effect.chunk? shader <;> simp [eq_comm]

theorem stageFile_eq_ok_iff {pass : Pass} {shader : Shader} :
    (∃ file, effect.stageFile version pass shader = .ok file) ↔ effect.Resolves shader := by
  rw [← not_iff_not, ← chunk?_eq_none_iff, stageFile]
  cases effect.chunk? shader <;> simp

theorem shaders_eq_flatMap : effect.shaders = effect.passes.flatMap Pass.entries := rfl

/-- A shader in its place: the passes before and after its own, and the shaders before and after it in its pass. -/
structure Position (effect : Effect) where
  earlier : List Pass
  pass : Pass
  later : List Pass
  before : List Shader
  shader : Shader
  after : List Shader
  passes_eq : effect.passes = earlier ++ pass :: later
  shaders_eq : pass.shaders = before ++ shader :: after

namespace Position

/-- All shaders in front of a position, those of earlier passes first. -/
def preceding (position : effect.Position) : List Shader :=
  position.earlier.flatMap Pass.shaders ++ position.before

def entry (position : effect.Position) : Pass × Shader :=
  (position.pass, position.shader)

def front (position : effect.Position) : List (Pass × Shader) :=
  position.earlier.flatMap Pass.entries ++ position.before.map fun shader => (position.pass, shader)

theorem map_front (position : effect.Position) : position.front.map Prod.snd = position.preceding := by
  simp [front, preceding, Pass.entries, List.map_flatMap, Function.comp_def]

theorem exists_back (position : effect.Position) :
    ∃ back, effect.shaders = position.front ++ position.entry :: back := by
  refine ⟨position.after.map (fun shader => (position.pass, shader)) ++ position.later.flatMap Pass.entries, ?_⟩
  simp [shaders_eq_flatMap, position.passes_eq, Pass.entries, position.shaders_eq, front, entry]

theorem shaders_get (position : effect.Position) :
    effect.shaders[position.preceding.length]? = some position.entry := by
  obtain ⟨back, split⟩ := position.exists_back
  have ranked : position.preceding.length = position.front.length := by
    rw [← position.map_front, List.length_map]
  rw [split, ranked, List.getElem?_append_right le_rfl, Nat.sub_self]
  rfl

end Position

theorem exists_split {passes : List Pass} {front back : List (Pass × Shader)} {entry : Pass × Shader}
    (divided : passes.flatMap Pass.entries = front ++ entry :: back) :
    ∃ earlier pass later before shader after, passes = earlier ++ pass :: later ∧
      pass.shaders = before ++ shader :: after ∧ entry = (pass, shader) ∧
      front = earlier.flatMap Pass.entries ++ before.map fun shader => (pass, shader) := by
  induction passes generalizing front with
  | nil => simp at divided
  | cons pass passes ih =>
    rw [List.flatMap_cons, List.append_eq_append_iff] at divided
    -- The entry stands behind the first pass or in it; a cut right behind the first pass is of the former kind.
    have behindOrInside :
        (∃ more, front = pass.entries ++ more ∧ passes.flatMap Pass.entries = more ++ entry :: back) ∨
        ∃ rest, pass.entries = front ++ entry :: rest := by
      rcases divided with behind | ⟨rest, inside, remaining⟩
      · exact .inl behind
      · cases rest with
        | nil => exact .inl ⟨[], by simpa using inside.symm, remaining.symm⟩
        | cons first rest =>
          cases remaining
          exact .inr ⟨rest, inside⟩
    rcases behindOrInside with ⟨more, rfl, behind⟩ | ⟨rest, inside⟩
    · obtain ⟨earlier, found, later, before, shader, after, rfl, shaders, same, rfl⟩ := ih behind
      exact ⟨pass :: earlier, found, later, before, shader, after, rfl, shaders, same, by simp⟩
    · obtain ⟨before, remaining, shaders, rfl, second⟩ := List.map_eq_append_iff.mp inside
      obtain ⟨shader, after, rfl, rfl, -⟩ := List.map_eq_cons_iff.mp second
      exact ⟨[], pass, passes, before, shader, after, rfl, shaders, rfl, rfl⟩

theorem exists_position {front back : List (Pass × Shader)} {entry : Pass × Shader}
    (divided : effect.shaders = front ++ entry :: back) :
    ∃ position : effect.Position, position.entry = entry ∧ position.front = front := by
  obtain ⟨earlier, pass, later, before, shader, after, passes, shaders, rfl, rfl⟩ := exists_split divided
  exact ⟨⟨earlier, pass, later, before, shader, after, passes, shaders⟩, rfl, rfl⟩

theorem stageFiles_eq_error_iff {error : Error} :
    effect.stageFiles version = .error error ↔ ∃ position : effect.Position, ¬effect.Resolves position.shader ∧
      (∀ shader ∈ position.preceding, effect.Resolves shader) ∧
      error = .unresolvedChunk position.pass.name position.shader.stage position.shader.chunkIndex := by
  have resolved (position : effect.Position) :
      (∀ other ∈ position.front, ∃ file, effect.stageFile version other.1 other.2 = .ok file) ↔
        ∀ shader ∈ position.preceding, effect.Resolves shader := by
    simp only [stageFile_eq_ok_iff, ← position.map_front, List.forall_mem_map]
  rw [stageFiles, mapM_eq_error_iff]
  constructor
  · rintro ⟨front, entry, back, divided, succeeded, failed⟩
    obtain ⟨position, rfl, rfl⟩ := exists_position divided
    obtain ⟨dangling, named⟩ := stageFile_eq_error_iff.mp failed
    exact ⟨position, dangling, (resolved position).mp succeeded, named⟩
  · rintro ⟨position, dangling, before, named⟩
    obtain ⟨back, divided⟩ := position.exists_back
    exact ⟨position.front, position.entry, back, divided, (resolved position).mpr before,
      stageFile_eq_error_iff.mpr ⟨dangling, named⟩⟩

theorem stageFiles_eq_ok_iff :
    (∃ files, effect.stageFiles version = .ok files) ↔
      ∀ pass ∈ effect.passes, ∀ shader ∈ pass.shaders, effect.Resolves shader := by
  constructor
  · rintro ⟨files, made⟩ pass passMember shader inside
    obtain ⟨file, -, given⟩ := (mem_of_mapM made).1 (pass, shader) (mem_shaders_iff.mpr ⟨passMember, inside⟩)
    exact stageFile_eq_ok_iff.mp ⟨file, given⟩
  · intro resolves
    cases made : effect.stageFiles version with
    | ok files => exact ⟨files, rfl⟩
    | error error =>
      obtain ⟨position, dangling, -, -⟩ := stageFiles_eq_error_iff.mp made
      refine absurd (resolves position.pass ?_ position.shader ?_) dangling
      · simp [position.passes_eq]
      · simp [position.shaders_eq]

theorem stageFiles_get {files : List StageFile} (made : effect.stageFiles version = .ok files)
    (position : effect.Position) :
    ∃ chunk, effect.chunks[position.shader.chunkIndex.toNat]? = some chunk ∧
      files[position.preceding.length]? = some (.generate version chunk position.shader.stage) := by
  have related := forall₂_of_mapM made
  obtain ⟨inside, there⟩ := List.getElem?_eq_some_iff.mp position.shaders_get
  have within : position.preceding.length < files.length := related.length_eq ▸ inside
  have given : effect.stageFile version position.pass position.shader = .ok files[position.preceding.length] := by
    have own := related.get inside within
    rwa [List.get_eq_getElem, there] at own
  have resolves : effect.Resolves position.shader := stageFile_eq_ok_iff.mp ⟨_, given⟩
  rw [stageFile, chunk?_of_resolves resolves] at given
  cases there : effect.chunks[position.shader.chunkIndex.toNat]? with
  | none =>
    rw [there] at given
    cases given
  | some chunk =>
    rw [there] at given
    exact ⟨chunk, rfl, by rw [List.getElem?_eq_getElem within, ← Except.ok.inj given]⟩

theorem length_of_stageFiles {files : List StageFile} (made : effect.stageFiles version = .ok files) :
    files.length = (effect.passes.flatMap Pass.shaders).length := by
  rw [← (forall₂_of_mapM made).length_eq, shaders_eq_flatMap, List.length_flatMap, List.length_flatMap]
  simp only [Pass.entries, List.length_map]

/-- Every effect, whatever its indices are. There are stage files exactly if each shader of each pass has the index of a
chunk. Then there is one file for each shader, in their order, named for the chunk and the stage of that shader; without
its first two lines it is the code of the chunk. Otherwise the error tells pass, stage and index of the first shader
that has no chunk. -/
theorem stageFiles_follow_references (effect : Effect) (version : Glsl.Version) :
    ((∃ files, effect.stageFiles version = .ok files) ↔
      ∀ pass ∈ effect.passes, ∀ shader ∈ pass.shaders, effect.Resolves shader) ∧
    (∀ files, effect.stageFiles version = .ok files →
      files.length = (effect.passes.flatMap Pass.shaders).length ∧
      ∀ position : effect.Position, ∃ chunk file,
        effect.chunks[position.shader.chunkIndex.toNat]? = some chunk ∧
        files[position.preceding.length]? = some file ∧
        file.name = chunk.name ++ "_" ++ position.shader.stage.tag ++ ".glsl" ∧
        file.source = version.header ++ "\n#define " ++ position.shader.stage.define ++ "\n" ++ chunk.code ∧
        Lines.behindFirst (Lines.behindFirst file.source.toList) = chunk.code.toList) ∧
    ∀ error, effect.stageFiles version = .error error ↔ ∃ position : effect.Position,
      ¬effect.Resolves position.shader ∧ (∀ shader ∈ position.preceding, effect.Resolves shader) ∧
      error = .unresolvedChunk position.pass.name position.shader.stage position.shader.chunkIndex := by
  refine ⟨stageFiles_eq_ok_iff, ?_, fun error => stageFiles_eq_error_iff⟩
  intro files made
  refine ⟨length_of_stageFiles made, fun position => ?_⟩
  obtain ⟨chunk, there, placed⟩ := stageFiles_get made position
  exact ⟨chunk, _, there, placed, rfl, rfl, StageFile.code_of_source version chunk position.shader.stage⟩

/-- Passes that share a chunk, one of them without shaders. With one index too great and one that is reserved, the error
is about the former, which comes first. -/
theorem stageFiles_follow_references_shared :
    let chunks : List Chunk := [{ name := "a", code := "x" }, { name := "b", code := "\ny\n" }]
    let first : Pass := { name := "p", shaders := [⟨.vertex, 0⟩, ⟨.fragment, 0⟩] }
    let whole : Effect := { passes := [first, { name := "q" }, { name := "r", shaders := [⟨.hull, 1⟩] }], chunks }
    let broken : Effect :=
      { passes := [first, { name := "s", shaders := [⟨.compute, 2⟩, ⟨.domain, noIndex⟩] }], chunks }
    (∃ files, whole.stageFiles .v450 = .ok files ∧ files.length = 3 ∧ ∃ file, files[2]? = some file ∧
      file.name = "b_hl.glsl" ∧ Lines.behindFirst (Lines.behindFirst file.source.toList) = ['\n', 'y', '\n']) ∧
    broken.stageFiles .v450 = .error (.unresolvedChunk "s" .compute 2) := by
  intro chunks first whole broken
  constructor
  · obtain ⟨files, made⟩ := (stageFiles_follow_references whole .v450).1.mpr (by decide)
    obtain ⟨counted, placed⟩ := (stageFiles_follow_references whole .v450).2.1 files made
    obtain ⟨chunk, file, there, atRank, named, -, code⟩ :=
      placed ⟨[first, { name := "q" }], _, [], [], ⟨.hull, 1⟩, [], rfl, rfl⟩
    cases there
    exact ⟨files, made, counted, file, atRank, named, code⟩
  · refine ((stageFiles_follow_references broken .v450).2.2 _).mpr ?_
    exact ⟨⟨[first], _, [], [], ⟨.compute, 2⟩, _, rfl, rfl⟩, by decide, by decide, rfl⟩

end Effect

end EffectLang
