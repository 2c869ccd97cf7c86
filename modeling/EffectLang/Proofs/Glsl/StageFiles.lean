import EffectLang.Compile
import EffectLang.Proofs.Files.Writes
import EffectLang.Proofs.Reading.WellFormed

/-!
Stage files of an effect that was read from a source. The name of a file tells the chunk and the stage, so files of
one name are one file, and each shader finds its own text again whatever the order in which the files are written.
-/
namespace EffectLang

section Attempts

variable {α β ε : Type} {f : α → Except ε β} {items : List α} {results : List β}

theorem forall₂_of_mapM (mapped : items.mapM f = .ok results) :
    List.Forall₂ (fun item result => f item = .ok result) items results := by
  induction items generalizing results with
  | nil =>
    cases mapped
    exact .nil
  | cons item items ih =>
    rw [List.mapM_cons] at mapped
    cases first : f item with
    | error error => simp [first, bind, Except.bind] at mapped
    | ok result =>
      cases rest : items.mapM f with
      | error error => simp [first, rest, bind, Except.bind] at mapped
      | ok more =>
        simp only [first, rest, bind, Except.bind, pure, Except.pure, Except.ok.injEq] at mapped
        subst mapped
        exact .cons first (ih rest)

theorem mem_of_mapM (mapped : items.mapM f = .ok results) :
    (∀ item ∈ items, ∃ result ∈ results, f item = .ok result) ∧
      ∀ result ∈ results, ∃ item ∈ items, f item = .ok result := by
  have related := forall₂_of_mapM mapped
  clear mapped
  induction related with
  | nil => simp
  | cons first _ ih =>
    obtain ⟨given, taken⟩ := ih
    constructor
    · rw [List.forall_mem_cons]
      refine ⟨⟨_, .head _, first⟩, fun other member => ?_⟩
      obtain ⟨found, inside, same⟩ := given other member
      exact ⟨found, .tail _ inside, same⟩
    · rw [List.forall_mem_cons]
      refine ⟨⟨_, .head _, first⟩, fun other member => ?_⟩
      obtain ⟨found, inside, same⟩ := taken other member
      exact ⟨found, .tail _ inside, same⟩

/-- A list of attempts fails with the failure of the first one that fails. -/
theorem mapM_eq_error_iff {error : ε} :
    items.mapM f = .error error ↔ ∃ front item back, items = front ++ item :: back ∧
      (∀ other ∈ front, ∃ result, f other = .ok result) ∧ f item = .error error := by
  induction items with
  | nil => simp [pure, Except.pure]
  | cons first items ih =>
    rw [List.mapM_cons]
    cases given : f first with
    | error other =>
      simp only [bind, Except.bind, Except.error.injEq]
      constructor
      · rintro rfl
        exact ⟨[], first, items, rfl, by simp, given⟩
      · rintro ⟨front, item, back, split, succeeded, failed⟩
        rcases List.cons_eq_append_iff.mp split with ⟨rfl, same⟩ | ⟨more, rfl, -⟩
        · cases same
          exact Except.error.inj (given.symm.trans failed)
        · obtain ⟨result, ok⟩ := succeeded first (.head _)
          cases given.symm.trans ok
    | ok result =>
      have passedOn : (do
          let more ← items.mapM f
          pure (result :: more) : Except ε (List β)) = .error error ↔ items.mapM f = .error error := by
        cases items.mapM f <;> simp [bind, Except.bind, pure, Except.pure]
      refine passedOn.trans (ih.trans ?_)
      constructor
      · rintro ⟨front, item, back, rfl, succeeded, failed⟩
        refine ⟨first :: front, item, back, rfl, ?_, failed⟩
        exact List.forall_mem_cons.mpr ⟨⟨result, given⟩, succeeded⟩
      · rintro ⟨front, item, back, split, succeeded, failed⟩
        rcases List.cons_eq_append_iff.mp split with ⟨rfl, same⟩ | ⟨more, rfl, rest⟩
        · cases same
          cases given.symm.trans failed
        · exact ⟨more, item, back, rest, (List.forall_mem_cons.mp succeeded).2, failed⟩

end Attempts

theorem Stage.tag_injective : Function.Injective Stage.tag := by
  intro first second same
  cases first <;> cases second <;> first | rfl | exact absurd same (by decide)

theorem Stage.length_tag (stage : Stage) : stage.tag.toList.length = 2 := by
  cases stage <;> rfl

namespace StageFile

theorem toList_name (version : Glsl.Version) (chunk : Chunk) (stage : Stage) :
    (generate version chunk stage).name.toList =
      chunk.name.toList ++ ('_' :: (stage.tag.toList ++ ['.', 'g', 'l', 's', 'l'])) := by
  simp [generate, stem]

theorem eq_of_name_eq {version : Glsl.Version} {first second : Chunk} {stage other : Stage}
    (same : (generate version first stage).name = (generate version second other).name) :
    first.name = second.name ∧ stage = other := by
  have spelled := congrArg String.toList same
  rw [toList_name, toList_name] at spelled
  -- The endings are equally long, so they divide both names at the same place.
  obtain ⟨names, endings⟩ := List.append_inj' spelled (by simp [Stage.length_tag])
  have tags : stage.tag.toList = other.tag.toList := by simpa using endings
  exact ⟨String.toList_inj.mp names, Stage.tag_injective (String.toList_inj.mp tags)⟩

/-- No stage has the ending of the local constants, and no stage file that of their defaults. -/
theorem name_ne_constants (version : Glsl.Version) (chunk : Chunk) (stage : Stage) (name : String) :
    (generate version chunk stage).name ≠ name ++ "_constants.glsl" ∧
      (generate version chunk stage).name ≠ name ++ "_defaults.bin" := by
  constructor
  all_goals
    intro same
    have spelled := congrArg (fun text => text.toList.reverse) same
    simp only [toList_name] at spelled
    cases stage <;> simp [Stage.tag] at spelled

theorem isPlain_append {name ending : String} (named : name = "" ∨ IsName name) (slashless : '/' ∉ ending.toList)
    (long : 2 < ending.toList.length) : Path.IsPlain (name ++ ending) := by
  apply Path.isPlain_of_length
  · rw [String.toList_append, List.mem_append, not_or]
    refine ⟨?_, slashless⟩
    rcases named with rfl | isName
    · decide
    · exact isName.not_mem_separators.1
  · rw [String.toList_append, List.length_append]
    omega

theorem isPlain_name (version : Glsl.Version) {chunk : Chunk} (named : chunk.name = "" ∨ IsName chunk.name)
    (stage : Stage) : Path.IsPlain (generate version chunk stage).name := by
  have plain : Path.IsPlain (chunk.name ++ ("_" ++ stage.tag ++ ".glsl")) := by
    apply isPlain_append named <;> cases stage <;> decide
  simpa only [generate, stem, String.append_assoc] using plain

end StageFile

namespace Effect

variable {effect : Effect} {version : Glsl.Version}

theorem stageFile_ok {pass : Pass} {shader : Shader} {file : StageFile}
    (made : effect.stageFile version pass shader = .ok file) :
    ∃ index chunk, shader.index? = some index ∧ effect.chunks[index]? = some chunk ∧
      file = .generate version chunk shader.stage := by
  unfold stageFile chunk? at made
  split at made
  · rename_i chunk there
    cases made
    split at there
    · cases there
    · rename_i index refers
      exact ⟨index, chunk, refers, there, rfl⟩
  · cases made

theorem mem_shaders_iff {entry : Pass × Shader} :
    entry ∈ effect.shaders ↔ entry.1 ∈ effect.passes ∧ entry.2 ∈ entry.1.shaders := by
  obtain ⟨pass, shader⟩ := entry
  simp only [shaders, List.mem_flatMap, List.mem_map, Prod.mk.injEq]
  constructor
  · rintro ⟨pass, member, shader, inside, rfl, rfl⟩
    exact ⟨member, inside⟩
  · rintro ⟨member, inside⟩
    exact ⟨pass, member, shader, inside, rfl, rfl⟩

theorem IsFirst.eq_of_name_eq {first second : Nat} {chunk other : Chunk} (isFirst : effect.IsFirst first)
    (isSecond : effect.IsFirst second) (there : effect.chunks[first]? = some chunk)
    (otherThere : effect.chunks[second]? = some other) (same : chunk.name = other.name) : first = second := by
  have notBefore {i j : Nat} {a b : Chunk} (isFirst : effect.IsFirst j) (atI : effect.chunks[i]? = some a)
      (atJ : effect.chunks[j]? = some b) (named : a.name = b.name) : ¬i < j := by
    intro less
    obtain ⟨found, atJ', noEarlier⟩ := isFirst
    cases atJ.symm.trans atJ'
    refine noEarlier a ?_ named
    rw [List.mem_take_iff_getElem]
    obtain ⟨inside, rfl⟩ := List.getElem?_eq_some_iff.mp atI
    exact ⟨i, by omega, rfl⟩
  have right := notBefore isSecond there otherThere same
  have left := notBefore isFirst otherThere there same.symm
  omega

theorem chunkIndex_of_index? {first second : Shader} {index : Nat} (refers : first.index? = some index)
    (same : second.index? = some index) : first.chunkIndex = second.chunkIndex := by
  unfold Shader.index? at refers same
  split at refers
  · cases refers
  · split at same
    · cases same
    · cases refers
      exact (UInt32.toNat_inj.mp (Option.some.inj same)).symm

/-- In a well-formed effect the name of a stage file tells which shader it is for. -/
theorem WellFormed.eq_of_name_eq {complaint : Option Unexpected} (formed : effect.WellFormed complaint)
    (fits : effect.chunks.length ≤ 2 ^ 32) {first second : Pass × Shader} (member : first ∈ effect.shaders)
    (otherMember : second ∈ effect.shaders) {file other : StageFile}
    (made : effect.stageFile version first.1 first.2 = .ok file)
    (otherMade : effect.stageFile version second.1 second.2 = .ok other) (same : file.name = other.name) :
    first.2.stage = second.2.stage ∧ first.2.chunkIndex = second.2.chunkIndex ∧ file = other := by
  obtain ⟨index, chunk, refers, there, rfl⟩ := stageFile_ok made
  obtain ⟨otherIndex, otherChunk, otherRefers, otherThere, rfl⟩ := stageFile_ok otherMade
  obtain ⟨names, stages⟩ := StageFile.eq_of_name_eq same
  obtain ⟨passMember, inside⟩ := mem_shaders_iff.mp member
  obtain ⟨otherPassMember, otherInside⟩ := mem_shaders_iff.mp otherMember
  have isFirst := formed.isFirst_of_index? fits passMember inside refers
  have otherIsFirst := formed.isFirst_of_index? fits otherPassMember otherInside otherRefers
  obtain rfl := isFirst.eq_of_name_eq otherIsFirst there otherThere names
  cases there.symm.trans otherThere
  exact ⟨stages, chunkIndex_of_index? refers otherRefers, by rw [stages]⟩

/-- A shader finds the text that belongs to it under the name of its file in a directory. -/
def Finds (effect : Effect) (version : Glsl.Version) (directory : String) (tree : FileTree)
    (entry : Pass × Shader) : Prop :=
  ∃ file, effect.stageFile version entry.1 entry.2 = .ok file ∧
    tree.readFile (Path.join directory file.name) = .ok (Utf8.encode file.source)

theorem name_ne_constants_of_mem {files : List StageFile} (generated : effect.stageFiles version = .ok files)
    {file : StageFile} (member : file ∈ files) (name : String) :
    file.name ≠ name ++ "_constants.glsl" ∧ file.name ≠ name ++ "_defaults.bin" := by
  obtain ⟨entry, -, made⟩ := (mem_of_mapM generated).2 file member
  obtain ⟨index, chunk, -, -, rfl⟩ := stageFile_ok made
  exact StageFile.name_ne_constants version chunk _ name

theorem stageSteps_eq (directory : String) (files : List StageFile) :
    stageSteps directory files = .open (.makeDirectories directory) :: files.map
      (FileTree.writeStep StageFile.name (fun file => Utf8.encode file.source) directory
        fun action => Error.cannotOpen action.path) := rfl

section Generated

variable {complaint : Option Unexpected} (formed : effect.WellFormed complaint)
  (fits : effect.chunks.length ≤ 2 ^ 32) {files : List StageFile} (generated : effect.stageFiles version = .ok files)

include formed generated

theorem isPlain_of_mem {file : StageFile} (member : file ∈ files) : Path.IsPlain file.name := by
  obtain ⟨entry, -, made⟩ := (mem_of_mapM generated).2 file member
  obtain ⟨index, chunk, -, there, rfl⟩ := stageFile_ok made
  exact StageFile.isPlain_name version (formed.chunkNames chunk (List.mem_of_getElem? there)).eq_empty_or _

include fits

theorem eq_of_mem_of_name_eq {first second : StageFile} (member : first ∈ files) (otherMember : second ∈ files)
    (same : first.name = second.name) : first = second := by
  obtain ⟨entry, inside, made⟩ := (mem_of_mapM generated).2 first member
  obtain ⟨other, otherInside, otherMade⟩ := (mem_of_mapM generated).2 second otherMember
  exact (formed.eq_of_name_eq fits inside otherInside made otherMade same).2.2

theorem finds_of_perform {order : List StageFile} (permuted : order.Perm files) {directory : String}
    {tree later : FileTree} (done : tree.perform (stageSteps directory order) = (.ok (), later)) {entry : Pass × Shader}
    (member : entry ∈ effect.shaders) : effect.Finds version directory later entry := by
  obtain ⟨file, inside, made⟩ := (mem_of_mapM generated).1 entry member
  rw [stageSteps_eq] at done
  obtain ⟨prepared, -, written⟩ := FileTree.perform_act_ok done
  refine ⟨file, made, ?_⟩
  refine FileTree.readFile_perform StageFile.name (fun file => Utf8.encode file.source) ?_ ?_ written file
    (permuted.mem_iff.mpr inside)
  · intro other within
    exact isPlain_of_mem formed generated (permuted.mem_iff.mp within)
  · intro first within second otherWithin same
    rw [eq_of_mem_of_name_eq formed fits generated (permuted.mem_iff.mp within) (permuted.mem_iff.mp otherWithin) same]

end Generated

/-- The stage files of an effect that was read from a source, whatever complaint there is about it and however often
it declares a name. Indices have to have room for its chunks. Files of one name are equal, as they are for the same
chunk and the same stage. None has the name of the file for the local constants or for their defaults. So when the
files have been written, in their order or in any other, each shader of each pass finds its own text. -/
theorem stageFiles_agree (source : String) (capacity : LiteralTable.Capacity) (outcome : Document.Outcome)
    (version : Glsl.Version) (files : List StageFile) (given : Document.parse source capacity = .ok outcome)
    (fits : outcome.effect.chunks.length ≤ 2 ^ 32) (generated : outcome.effect.stageFiles version = .ok files) :
    (∀ first ∈ files, ∀ second ∈ files, first.name = second.name → first.source = second.source) ∧
      (∀ first ∈ outcome.effect.shaders, ∀ second ∈ outcome.effect.shaders, ∀ file other,
        outcome.effect.stageFile version first.1 first.2 = .ok file →
        outcome.effect.stageFile version second.1 second.2 = .ok other → file.name = other.name →
        first.2.stage = second.2.stage ∧ first.2.chunkIndex = second.2.chunkIndex) ∧
      (∀ file ∈ files, file.name ≠ outcome.effect.name ++ "_constants.glsl" ∧
        file.name ≠ outcome.effect.name ++ "_defaults.bin") ∧
      (∀ (order : List StageFile) (directory : String) (tree later : FileTree), order.Perm files →
        tree.perform (stageSteps directory order) = (.ok (), later) →
        ∀ entry ∈ outcome.effect.shaders, outcome.effect.Finds version directory later entry) ∧
      ∀ directory tree paths later, outcome.effect.generate version directory tree = (.ok paths, later) →
        ∀ entry ∈ outcome.effect.shaders, outcome.effect.Finds version directory later entry := by
  have formed := Document.wellFormed_of_outcome given
  refine ⟨?_, ?_, ?_, ?_, ?_⟩
  · intro first member second otherMember same
    rw [eq_of_mem_of_name_eq formed fits generated member otherMember same]
  · intro first member second otherMember file other made otherMade same
    obtain ⟨stages, indices, -⟩ := formed.eq_of_name_eq fits member otherMember made otherMade same
    exact ⟨stages, indices⟩
  · intro file member
    exact name_ne_constants_of_mem generated member outcome.effect.name
  · intro order directory tree later permuted done entry member
    exact finds_of_perform formed fits generated permuted done member
  · intro directory tree paths later made entry member
    unfold generate at made
    rw [generated] at made
    dsimp only at made
    split at made
    · cases made
    · rename_i unit done
      cases made
      exact finds_of_perform formed fits generated (.refl files) done member

/-- Two chunks of one name in an effect that is not closed. Its passes run the first of them three times, twice as
the same stage. -/
theorem stageFiles_agree_doubled :
    let source := "effect E \x7b glsl a \x7bx\x7d glsl a \x7by\x7d pass p \x7b vertex = a fragment = a \x7d" ++
      " pass q \x7b vertex = a \x7d"
    let effect : Effect :=
      { name := "E"
        passes := [⟨"p", [⟨.vertex, 0⟩, ⟨.fragment, 0⟩], [], noIndex, .graphics⟩,
          ⟨"q", [⟨.vertex, 0⟩], [], noIndex, .graphics⟩]
        chunks := [{ name := "a", code := "x" }, { name := "a", code := "y" }] }
    let made := effect.generate .core330 "out" {}
    Document.parse source {} = .ok ⟨effect, some ⟨.closeBrace, .endOfStream, "", 1⟩⟩ ∧
      made.1 = .ok ["out/a_vt.glsl", "out/a_fg.glsl", "out/a_vt.glsl"] ∧
      ∀ entry ∈ effect.shaders, effect.Finds .core330 "out" made.2 entry := by
  intro source effect made
  have given : Document.parse source {} = .ok ⟨effect, some ⟨.closeBrace, .endOfStream, "", 1⟩⟩ := by decide +kernel
  have paths : made.1 = .ok ["out/a_vt.glsl", "out/a_fg.glsl", "out/a_vt.glsl"] := by decide +kernel
  have files : effect.stageFiles .core330 =
      .ok [.generate .core330 ⟨"a", [], [], [], "x"⟩ .vertex, .generate .core330 ⟨"a", [], [], [], "x"⟩ .fragment,
        .generate .core330 ⟨"a", [], [], [], "x"⟩ .vertex] := by decide +kernel
  obtain ⟨-, -, -, -, finds⟩ := stageFiles_agree source {} _ .core330 _ given (by decide) files
  exact ⟨given, paths, finds "out" {} _ made.2 (Prod.ext paths rfl)⟩

/-- Behind more chunks than an index can count, two shaders have chunks of one name, and their files differ in nothing
but what they hold. -/
theorem stageFiles_differ_behind_first :
    ∃ source outcome files, Document.parse source {} = .ok outcome ∧
      outcome.effect.stageFiles .core330 = .ok files ∧
      ∃ first ∈ files, ∃ second ∈ files, first.name = second.name ∧ first.source ≠ second.source := by
  refine ⟨_, _, _, parse_crowd (2 ^ 32), stageFiles_crowded .core330 (by decide) (by decide), ?_⟩
  exact ⟨_, .head _, _, .tail _ (.head _), by decide, by decide⟩

end Effect

end EffectLang
