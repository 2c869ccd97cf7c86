import EffectLang.Proofs.Blob.Truncation
import EffectLang.Proofs.Compile.Refusal
import EffectLang.Proofs.Files.Frame

/-!
Compilations that succeed. The files of a compilation are written one after another, first those that share the output
directory and then the binary form. Each is found with its own content afterwards, and nothing else has changed.
-/
namespace EffectLang

namespace Effect

variable {effect : Effect} {tree later : FileTree} {ε : Type}

theorem load_of_readFile {path : String} {bytes : List UInt8} (read : tree.readFile path = .ok bytes) :
    load path tree = ofBytes bytes := by
  cases opened : tree.openFile path with
  | error fault =>
    rw [FileTree.readFile, opened] at read
    cases read
  | ok node =>
    have given : node.read = .ok bytes := by rwa [FileTree.readFile, opened] at read
    rw [load, opened]
    dsimp only
    rw [given]

theorem ofBytes_toBytes {bytes : List UInt8} (written : effect.toBytes = .ok bytes) : ofBytes bytes = .ok effect := by
  have read := read_toBytes written []
  rw [List.append_nil] at read
  exact ofBytes_of_read read

theorem loadReported_of_readFile {path : String} {bytes : List UInt8} (written : effect.toBytes = .ok bytes)
    (read : tree.readFile path = .ok bytes) :
    loadReported path tree = .ok effect ∧ ofBytesReported bytes = .ok effect := by
  rw [loadReported, ofBytesReported, load_of_readFile read, ofBytes_toBytes written]
  exact ⟨rfl, rfl⟩

/-- The files that go into the output directory, by their names: those of the stages and, if they are asked for, those
of the local constants. -/
def products (effect : Effect) (constants : Bool) (files : List StageFile) (blob : List UInt8) :
    List (String × List UInt8) :=
  files.map (fun file => (file.name, Utf8.encode file.source)) ++
    if constants then
      [(effect.name ++ "_constants.glsl", Utf8.encode (LocalConstants.ofEffect effect).block),
        (effect.name ++ "_defaults.bin", blob)]
    else []

theorem writes_of_stageSteps {directory : String} {files : List StageFile} {f : Error → ε} {rest : List (Step ε)}
    (done : tree.perform ((stageSteps directory files).map (.mapError f) ++ rest) = (.ok (), later)) :
    ∃ prepared next, tree.makeDirectories directory = (.ok (), prepared) ∧
      prepared.Writes (files.map fun file => (Path.join directory file.name, Utf8.encode file.source)) next ∧
      next.perform rest = (.ok (), later) := by
  obtain ⟨prepared, made, remaining⟩ := FileTree.perform_act_ok done
  suffices written : ∃ next, prepared.Writes (files.map fun file =>
      (Path.join directory file.name, Utf8.encode file.source)) next ∧ next.perform rest = (.ok (), later) by
    obtain ⟨next, written, last⟩ := written
    exact ⟨prepared, next, made, written, last⟩
  clear made done
  induction files generalizing prepared with
  | nil => exact ⟨prepared, .nil prepared, remaining⟩
  | cons file files ih =>
    obtain ⟨between, written, remaining⟩ := FileTree.perform_write_ok remaining
    obtain ⟨next, more, last⟩ := ih between remaining
    exact ⟨next, .cons written more, last⟩

theorem writes_of_constantsSteps {directory : String} {rest : List (Step Report)}
    (done : tree.perform (effect.constantsSteps directory ++ rest) = (.ok (), later)) :
    ∃ blob next, (LocalConstants.ofEffect effect).blob = .ok blob ∧
      tree.Writes [(Path.join directory (effect.name ++ "_constants.glsl"),
          Utf8.encode (LocalConstants.ofEffect effect).block),
        (Path.join directory (effect.name ++ "_defaults.bin"), blob)] next ∧
      next.perform rest = (.ok (), later) := by
  obtain ⟨between, written, done⟩ := FileTree.perform_write_ok done
  cases encoded : (LocalConstants.ofEffect effect).blob with
  | error error =>
    rw [encoded] at done
    cases done
  | ok blob =>
    rw [encoded] at done
    obtain ⟨next, filled, done⟩ := FileTree.perform_write_ok done
    exact ⟨blob, next, rfl, .cons written (.cons filled (.nil next)), done⟩

theorem writes_of_saveSteps {path : String} {f : Error → ε}
    (done : tree.perform ((effect.saveSteps path).map (.mapError f)) = (.ok (), later)) :
    ∃ bytes, effect.toBytes = .ok bytes ∧ tree.Writes [(path, bytes)] later := by
  unfold saveSteps at done
  unfold toBytes Writing.run
  rcases outcome : Codec.effect.write effect {} with ⟨result, sink⟩
  rw [outcome] at done
  obtain ⟨next, written, done⟩ := FileTree.perform_write_ok done
  cases result with
  | error error => cases done
  | ok =>
    cases done
    exact ⟨sink.toList, rfl, .cons written (.nil _)⟩

section Products

variable {complaint : Option Unexpected} (formed : effect.WellFormed complaint) {version : Glsl.Version}
  {files : List StageFile} (generated : effect.stageFiles version = .ok files) {constants : Bool} {blob : List UInt8}

theorem mem_products {entry : String × List UInt8} (member : entry ∈ effect.products constants files blob) :
    (∃ file ∈ files, entry = (file.name, Utf8.encode file.source)) ∨
      entry = (effect.name ++ "_constants.glsl", Utf8.encode (LocalConstants.ofEffect effect).block) ∨
      entry = (effect.name ++ "_defaults.bin", blob) := by
  rcases List.mem_append.mp member with staged | added
  · obtain ⟨file, inside, rfl⟩ := List.mem_map.mp staged
    exact .inl ⟨file, inside, rfl⟩
  · cases constants with
    | false => cases added
    | true => simpa using Or.inr added

include formed generated

theorem isPlain_of_products {entry : String × List UInt8} (member : entry ∈ effect.products constants files blob) :
    Path.IsPlain entry.1 := by
  obtain ⟨file, inside, rfl⟩ | rfl | rfl := mem_products member
  · exact isPlain_of_mem formed generated inside
  · exact StageFile.isPlain_append formed.name (by decide) (by decide)
  · exact StageFile.isPlain_append formed.name (by decide) (by decide)

omit formed in
theorem products_agree_constants {entry other : String × List UInt8}
    (added : entry = (effect.name ++ "_constants.glsl", Utf8.encode (LocalConstants.ofEffect effect).block) ∨
      entry = (effect.name ++ "_defaults.bin", blob))
    (member : other ∈ effect.products constants files blob) (same : other.1 = entry.1) : other.2 = entry.2 := by
  have endings : effect.name ++ "_constants.glsl" ≠ effect.name ++ "_defaults.bin" := by
    intro equal
    have spelled := congrArg (fun text => text.toList.reverse) equal
    simp at spelled
  obtain ⟨file, inside, rfl⟩ | rfl | rfl := mem_products member
  · obtain ⟨noBlock, noDefaults⟩ := name_ne_constants_of_mem generated inside effect.name
    rcases added with rfl | rfl
    · exact absurd same noBlock
    · exact absurd same noDefaults
  · rcases added with rfl | rfl
    · rfl
    · exact absurd same endings
  · rcases added with rfl | rfl
    · exact absurd same.symm endings
    · rfl

theorem products_agree_stages (fits : effect.chunks.length ≤ 2 ^ 32) {file : StageFile} (inside : file ∈ files)
    {other : String × List UInt8} (member : other ∈ effect.products constants files blob) (same : other.1 = file.name) :
    other.2 = Utf8.encode file.source := by
  obtain ⟨noBlock, noDefaults⟩ := name_ne_constants_of_mem generated inside effect.name
  obtain ⟨second, within, rfl⟩ | rfl | rfl := mem_products member
  · rw [eq_of_mem_of_name_eq formed fits generated within inside same]
  · exact absurd same.symm noBlock
  · exact absurd same.symm noDefaults

end Products

end Effect

namespace Compile

variable {path : String} {options : Compile.Options} {tree later : FileTree} {compiled : Compiled}

/-- The paths of the local constants of an effect, if they are asked for: of their block and of their defaults. -/
def constantsPaths (options : Compile.Options) (effect : Effect) : List String :=
  if options.constants then
    [Path.join options.outputDir (effect.name ++ "_constants.glsl"),
      Path.join options.outputDir (effect.name ++ "_defaults.bin")]
  else []

/-- The paths of what a compilation makes, apart from the binary form. -/
def outputPaths (options : Compile.Options) (compiled : Compiled) : List String :=
  compiled.stageFiles ++ constantsPaths options compiled.effect

/-- What a compilation leaves behind, when it has turned one file tree into another. -/
structure Delivers (options : Compile.Options) (compiled : Compiled) (tree later : FileTree) : Prop where
  /-- There is one path for each shader. A stage file holds the code of its own chunk when indices have room for the
  chunks. -/
  stages : List.Forall₂
    (fun entry file => ∃ chunk, compiled.effect.chunk? entry.2 = some chunk ∧
      file = Path.join options.outputDir (chunk.name ++ "_" ++ entry.2.stage.tag ++ ".glsl") ∧
      (compiled.effect.chunks.length ≤ 2 ^ 32 → later.readFile file =
        .ok (Utf8.encode (options.version.header ++ "\n#define " ++ entry.2.stage.define ++ "\n" ++ chunk.code))))
    compiled.effect.shaders compiled.stageFiles
  constants : options.constants → ∃ blob, (LocalConstants.ofEffect compiled.effect).blob = .ok blob ∧
    later.readFile (Path.join options.outputDir (compiled.effect.name ++ "_constants.glsl")) =
      .ok (Utf8.encode (LocalConstants.ofEffect compiled.effect).block) ∧
    later.readFile (Path.join options.outputDir (compiled.effect.name ++ "_defaults.bin")) = .ok blob
  binary : ∀ binary ∈ options.binaryPath, ∃ bytes, compiled.effect.toBytes = .ok bytes ∧
    later.readFile binary = .ok bytes ∧ Effect.loadReported binary later = .ok compiled.effect ∧
    Effect.ofBytesReported bytes = .ok compiled.effect
  /-- Apart from the files, only missing directories on the way to the output directory have come. -/
  others : ∀ place,
    (∀ file ∈ outputPaths options compiled ++ options.binaryPath.toList, later.locate file ≠ .ok place) →
    later.node? place = tree.node? place ∨
      tree.node? place = none ∧ later.node? place = some .directory ∧
        ∃ way ∈ Path.ancestors (Path.segments options.outputDir),
          later.walk (tree.start options.outputDir) way = .ok place

/-- The files of a compilation, in the order in which they are written. -/
def written (options : Compile.Options) (effect : Effect) (files : List StageFile) (blob bytes : List UInt8) :
    List (String × List UInt8) :=
  (effect.products options.constants files blob).map (fun entry => (Path.join options.outputDir entry.1, entry.2)) ++
    options.binaryPath.toList.map fun binary => (binary, bytes)

theorem mem_written_iff {effect : Effect} {files : List StageFile} {blob bytes : List UInt8}
    {file : String × List UInt8} :
    file ∈ written options effect files blob bytes ↔
      (∃ entry ∈ effect.products options.constants files blob,
        file = (Path.join options.outputDir entry.1, entry.2)) ∨
        ∃ binary ∈ options.binaryPath, file = (binary, bytes) := by
  simp only [written, List.mem_append, List.mem_map, Option.mem_toList, Option.mem_def, eq_comm]

theorem run_ok (done : run path options tree = (.ok compiled, later)) :
    ∃ text outcome files context, tree.readFile path = .ok (Utf8.encode text) ∧
      Document.parse text options.capacity = .ok outcome ∧
      outcome.effect.stageFiles options.version = .ok files ∧
      compiled = ⟨outcome.effect, files.map fun file => Path.join options.outputDir file.name, options.binaryPath,
        outcome.error⟩ ∧
      tree.perform ((Effect.stageSteps options.outputDir files).map (.mapError (.ofError context)) ++
        extraSteps options outcome.effect) = (.ok (), later) := by
  unfold run plan at done
  cases sourced : sourceText path (tree.readFile path) with
  | error report =>
    rw [sourced] at done
    cases done
  | ok text =>
    rw [sourced] at done
    dsimp only at done
    cases decided : document path options text with
    | error report =>
      rw [decided] at done
      cases done
    | ok outcome =>
      rw [decided] at done
      dsimp only at done
      cases generated : outcome.effect.stageFiles options.version with
      | error error =>
        rw [generated] at done
        cases done
      | ok files =>
        rw [generated] at done
        dsimp only at done
        split at done
        · cases done
        · rename_i performed
          cases done
          exact ⟨text, outcome, files, _, eq_of_sourceText sourced, outcome_of_document decided, generated, rfl,
            performed⟩

theorem run_of_perform {text : String} {effect : Effect} {files : List StageFile}
    (read : tree.readFile path = .ok (Utf8.encode text))
    (given : Document.parse text options.capacity = .ok ⟨effect, none⟩)
    (generated : effect.stageFiles options.version = .ok files)
    (performed : tree.perform ((Effect.stageSteps options.outputDir files).map
        (.mapError (.ofError ("Failed to generate shaders for " ++ path))) ++ extraSteps options effect) =
      (.ok (), later)) :
    run path options tree = (.ok ⟨effect, files.map fun file => Path.join options.outputDir file.name,
      options.binaryPath, none⟩, later) := by
  have decided : document path options text = .ok ⟨effect, none⟩ := by simp only [document, given]
  simp only [run, plan, read, sourceText_encode, decided, generated, performed]

theorem writes_of_binary {effect : Effect} (done : tree.perform (match options.binaryPath with
      | none => []
      | some path => (effect.saveSteps path).map (.mapError (Report.ofError ("Failed to write " ++ path)))) =
        (.ok (), later)) :
    ∃ bytes, (options.binaryPath.isSome → effect.toBytes = .ok bytes) ∧
      tree.Writes (options.binaryPath.toList.map fun binary => (binary, bytes)) later := by
  cases asked : options.binaryPath with
  | none =>
    rw [asked] at done
    cases done
    exact ⟨[], by simp, .nil _⟩
  | some binary =>
    rw [asked] at done
    obtain ⟨bytes, encoded, saved⟩ := Effect.writes_of_saveSteps done
    exact ⟨bytes, fun _ => encoded, saved⟩

theorem writes_of_extraSteps {effect : Effect} {files : List StageFile} {before : FileTree}
    (staged : before.Writes (files.map fun file =>
      (Path.join options.outputDir file.name, Utf8.encode file.source)) tree)
    (done : tree.perform (extraSteps options effect) = (.ok (), later)) :
    ∃ blob bytes, (options.constants → (LocalConstants.ofEffect effect).blob = .ok blob) ∧
      (options.binaryPath.isSome → effect.toBytes = .ok bytes) ∧
      before.Writes (written options effect files blob bytes) later := by
  unfold extraSteps at done
  unfold written Effect.products
  cases wanted : options.constants with
  | false =>
    rw [wanted] at done
    obtain ⟨bytes, encoded, saved⟩ := writes_of_binary done
    refine ⟨[], bytes, by simp, encoded, ?_⟩
    simpa [Function.comp_def] using staged.append saved
  | true =>
    rw [wanted] at done
    obtain ⟨blob, middle, filled, added, done⟩ := Effect.writes_of_constantsSteps done
    obtain ⟨bytes, encoded, saved⟩ := writes_of_binary done
    refine ⟨blob, bytes, fun _ => filled, encoded, ?_⟩
    simpa [Function.comp_def] using (staged.append added).append saved

section Written

variable {effect : Effect} {complaint : Option Unexpected} (formed : effect.WellFormed complaint)
  {files : List StageFile} (generated : effect.stageFiles options.version = .ok files) {blob bytes : List UInt8}
  (writes : tree.Writes (written options effect files blob bytes) later)
  (apart : ∀ binary ∈ options.binaryPath, ∀ entry ∈ effect.products options.constants files blob,
    later.locate binary ≠ later.locate (Path.join options.outputDir entry.1))

include formed generated writes apart

/-- What goes into the output directory is found there when all that has the same name agrees with it. -/
theorem readFile_of_products {name : String} {content : List UInt8}
    (member : (name, content) ∈ effect.products options.constants files blob)
    (agree : ∀ other ∈ effect.products options.constants files blob, other.1 = name → other.2 = content) :
    later.readFile (Path.join options.outputDir name) = .ok content := by
  have inside : (Path.join options.outputDir name, content) ∈ written options effect files blob bytes :=
    mem_written_iff.mpr (.inl ⟨(name, content), member, rfl⟩)
  obtain ⟨-, place, -, located⟩ := writes.exists_place inside
  refine writes.readFile inside ?_
  intro other within same
  obtain ⟨second, secondMember, rfl⟩ | ⟨binary, asked, rfl⟩ := mem_written_iff.mp within
  · apply agree second secondMember
    exact FileTree.eq_of_locate_join (Effect.isPlain_of_products formed generated secondMember)
      (Effect.isPlain_of_products formed generated member) (same.trans located) located
  · exact absurd same (apart binary asked (name, content) member)

theorem readFile_of_stage (fits : effect.chunks.length ≤ 2 ^ 32) {file : StageFile} (inside : file ∈ files) :
    later.readFile (Path.join options.outputDir file.name) = .ok (Utf8.encode file.source) := by
  apply readFile_of_products formed generated writes apart
  · exact List.mem_append_left _ (List.mem_map.mpr ⟨file, inside, rfl⟩)
  · intro other within
    exact Effect.products_agree_stages formed generated fits inside within

theorem forall₂_of_stages :
    List.Forall₂
      (fun entry file => ∃ chunk, effect.chunk? entry.2 = some chunk ∧
        file = Path.join options.outputDir (chunk.name ++ "_" ++ entry.2.stage.tag ++ ".glsl") ∧
        (effect.chunks.length ≤ 2 ^ 32 → later.readFile file =
          .ok (Utf8.encode (options.version.header ++ "\n#define " ++ entry.2.stage.define ++ "\n" ++ chunk.code))))
      effect.shaders (files.map fun file => Path.join options.outputDir file.name) := by
  rw [List.forall₂_map_right_iff]
  have related := List.forall₂_and_left (p := fun entry => entry ∈ effect.shaders)
    effect.shaders files |>.mpr ⟨fun _ member => member, forall₂_of_mapM generated⟩
  refine related.imp ?_
  rintro ⟨pass, shader⟩ file ⟨member, stage⟩
  obtain ⟨index, chunk, refers, there, rfl⟩ := Effect.stageFile_ok stage
  refine ⟨chunk, by rw [Effect.chunk?, refers]; exact there, rfl, ?_⟩
  intro fits
  obtain ⟨file, inside, same⟩ := (mem_of_mapM generated).1 _ member
  cases stage.symm.trans same
  exact readFile_of_stage formed generated writes apart fits inside

theorem readFile_of_constants (wanted : options.constants = true) {name : String} {content : List UInt8}
    (added : (name, content) =
        (effect.name ++ "_constants.glsl", Utf8.encode (LocalConstants.ofEffect effect).block) ∨
      (name, content) = (effect.name ++ "_defaults.bin", blob)) :
    later.readFile (Path.join options.outputDir name) = .ok content := by
  apply readFile_of_products formed generated writes apart
  · rw [Effect.products, wanted]
    exact List.mem_append_right _ (by simpa using added)
  · intro other within
    exact Effect.products_agree_constants generated added within

omit formed generated in
theorem readFile_of_binary {binary : String} (asked : binary ∈ options.binaryPath) :
    later.readFile binary = .ok bytes := by
  have inside : (binary, bytes) ∈ written options effect files blob bytes :=
    mem_written_iff.mpr (.inr ⟨binary, asked, rfl⟩)
  refine writes.readFile inside ?_
  intro other within same
  obtain ⟨entry, member, rfl⟩ | ⟨second, -, rfl⟩ := mem_written_iff.mp within
  · exact absurd same.symm (apart binary asked entry member)
  · rfl

end Written

/-- What goes into the output directory goes to the paths that are told. -/
theorem paths_products (options : Compile.Options) (effect : Effect) (files : List StageFile) (blob : List UInt8)
    (complaint : Option Unexpected) :
    (effect.products options.constants files blob).map (fun entry => Path.join options.outputDir entry.1) =
      outputPaths options ⟨effect, files.map fun file => Path.join options.outputDir file.name, options.binaryPath,
        complaint⟩ := by
  unfold outputPaths constantsPaths Effect.products
  cases options.constants <;> simp [Function.comp_def]

/-- A compilation that succeeds has made what its source says and leaves it in its files, when the binary form goes to
a place of its own. All that is not among them stays as it was. -/
theorem run_delivers (path : String) (options : Compile.Options) (tree later : FileTree) (compiled : Compiled)
    (done : run path options tree = (.ok compiled, later))
    (apart : ∀ binary ∈ options.binaryPath, ∀ other ∈ outputPaths options compiled,
      later.locate binary ≠ later.locate other) :
    (∃ text, tree.readFile path = .ok (Utf8.encode text) ∧
      Document.parse text options.capacity = .ok ⟨compiled.effect, compiled.parseError⟩) ∧
      compiled.binaryPath = options.binaryPath ∧ Delivers options compiled tree later := by
  obtain ⟨text, ⟨effect, complaint⟩, files, context, read, given, generated, rfl, performed⟩ := run_ok done
  have formed : effect.WellFormed complaint := Document.wellFormed_of_outcome given
  obtain ⟨prepared, staged, made, stageWrites, more⟩ := Effect.writes_of_stageSteps performed
  obtain ⟨blob, bytes, filled, encoded, writes⟩ := writes_of_extraSteps stageWrites more
  have paths := paths_products options effect files blob complaint
  have separate : ∀ binary ∈ options.binaryPath, ∀ entry ∈ effect.products options.constants files blob,
      later.locate binary ≠ later.locate (Path.join options.outputDir entry.1) := by
    intro binary asked entry member
    apply apart binary asked
    rw [← paths]
    exact List.mem_map.mpr ⟨entry, member, rfl⟩
  refine ⟨⟨text, read, given⟩, rfl, forall₂_of_stages formed generated writes separate, ?_, ?_, ?_⟩
  · intro wanted
    exact ⟨blob, filled wanted, readFile_of_constants formed generated writes separate wanted (.inl rfl),
      readFile_of_constants formed generated writes separate wanted (.inr rfl)⟩
  · intro binary asked
    have saved := readFile_of_binary writes separate asked
    have whole : effect.toBytes = .ok bytes := encoded (Option.isSome_of_mem asked)
    exact ⟨bytes, whole, saved, Effect.loadReported_of_readFile whole saved⟩
  · intro place untouched
    have prepares := tree.prepares_makeDirectories options.outputDir
    rw [made] at prepares
    apply prepares.node?_of_writes writes
    intro file within
    apply untouched
    rw [← paths, List.mem_append]
    obtain ⟨entry, member, rfl⟩ | ⟨binary, asked, rfl⟩ := mem_written_iff.mp within
    · exact .inl (List.mem_map.mpr ⟨entry, member, rfl⟩)
    · exact .inr (Option.mem_toList.mpr asked)

/-- Three shaders and two paths between them, the local constants beside them and a binary form elsewhere. The output
directory is told from the root and the binary form from the working directory. Of the two directories on the way to the
output one is there already, and so is a file that stays. -/
theorem run_delivers_doubled :
    let source := "properties \x7b x(\"X\", Float = 1) \x7d glsl a \x7bx\x7d" ++
      " pass p \x7b vertex = a fragment = a \x7d pass q \x7b vertex = a \x7d"
    let options : Compile.Options := { outputDir := "/new/out", binaryPath := some "../e.bin", constants := true }
    let tree : FileTree :=
      ⟨["work"], [(["work"], .directory), (["work", "e.hfx"], .file (Utf8.encode source)), (["new"], .directory),
        (["new", "kept"], .file [1, 2])]⟩
    let effect : Effect :=
      { passes := [⟨"p", [⟨.vertex, 0⟩, ⟨.fragment, 0⟩], [], noIndex, .graphics⟩,
          ⟨"q", [⟨.vertex, 0⟩], [], noIndex, .graphics⟩]
        chunks := [{ name := "a", code := "x" }]
        properties := [⟨"x", "X", .float ⟨0x3F800000⟩⟩] }
    let compiled : Compiled :=
      { effect
        stageFiles := ["/new/out/a_vt.glsl", "/new/out/a_fg.glsl", "/new/out/a_vt.glsl"]
        binaryPath := some "../e.bin"
        parseError := none }
    let made := run "e.hfx" options tree
    made.1 = .ok compiled ∧ Delivers options compiled tree made.2 ∧ made.2.readFile "/new/kept" = .ok [1, 2] := by
  intro source options tree effect compiled made
  have evaluated : made.1 = .ok compiled ∧ made.2.readFile "/new/kept" = .ok [1, 2] ∧
      ∀ other ∈ outputPaths options compiled, made.2.locate "../e.bin" ≠ made.2.locate other := by
    decide +kernel
  obtain ⟨succeeds, kept, apart⟩ := evaluated
  refine ⟨succeeds, ?_, kept⟩
  refine (run_delivers "e.hfx" options tree made.2 compiled (Prod.ext succeeds rfl) ?_).2.2
  intro binary asked
  obtain rfl : "../e.bin" = binary := Option.some.inj asked
  exact apart

/-- A compilation of a crowded file writes the same stage file twice, and the second time with the code of another
chunk. -/
theorem run_crowded {copies : Nat} (positive : 0 < copies) (wraps : (copies + 1) % 2 ^ 32 = 1) :
    ∃ tree later, run "e.hfx" { outputDir := "" } tree =
        (.ok ⟨.crowded copies, ["a_vt.glsl", "a_vt.glsl"], none, none⟩, later) ∧
      later.readFile "a_vt.glsl" =
        .ok (Utf8.encode (StageFile.generate .core330 { name := "a" } .vertex).source) := by
  let text := String.ofList (Source.spaced (Source.crowd copies).atoms)
  let tree : FileTree := { entries := [(["e.hfx"], .file (Utf8.encode text))] }
  have sourcePlain : Path.IsPlain "e.hfx" := Path.isPlain_of_length (by decide) (by decide)
  have source : tree.locate "e.hfx" = .ok ["e.hfx"] :=
    FileTree.locate_of_isPlain sourcePlain (by decide) (by decide) rfl
  have read : tree.readFile "e.hfx" = .ok (Utf8.encode text) :=
    FileTree.readFile_eq_ok_iff.mpr ⟨by decide, _, source, rfl⟩
  have targetPlain : Path.IsPlain "a_vt.glsl" := Path.isPlain_of_length (by decide) (by decide)
  have target : tree.locate "a_vt.glsl" = .ok ["a_vt.glsl"] :=
    FileTree.locate_of_isPlain targetPlain (by decide) (by decide) rfl
  have free : tree.node? ["a_vt.glsl"] ≠ some .directory := by
    simp [tree, FileTree.node?, List.lookup]
  obtain ⟨later, performed, found⟩ := FileTree.perform_rewrite (by decide) target free
    (Utf8.encode (StageFile.generate .core330 { name := "a", code := "x" } .vertex).source)
    (Utf8.encode (StageFile.generate .core330 { name := "a" } .vertex).source)
    (Report.ofError "Failed to generate shaders for e.hfx" ∘ Error.cannotOpen "a_vt.glsl")
    (Report.ofError "Failed to generate shaders for e.hfx" ∘ Error.cannotOpen "a_vt.glsl")
  refine ⟨tree, later, ?_, found⟩
  refine run_of_perform read (Effect.parse_crowd copies)
    (Effect.stageFiles_crowded _ positive wraps) ?_
  rw [← performed]
  change FileTree.perform tree (.act (.makeDirectories "") _ :: _) = _
  rw [FileTree.perform, FileTree.apply, tree.makeDirectories_empty]
  rfl

/-- Behind more chunks than an index can count, a stage file need not hold the code of its shader. -/
theorem run_delivers_other_code :
    ∃ path options tree compiled later, run path options tree = (.ok compiled, later) ∧ options.binaryPath = none ∧
      ¬List.Forall₂
        (fun entry file => ∃ chunk, compiled.effect.chunk? entry.2 = some chunk ∧ later.readFile file =
          .ok (Utf8.encode (options.version.header ++ "\n#define " ++ entry.2.stage.define ++ "\n" ++ chunk.code)))
        compiled.effect.shaders compiled.stageFiles := by
  have wraps : (2 ^ 32 + 1) % 2 ^ 32 = 1 := by decide
  obtain ⟨tree, later, done, found⟩ := run_crowded (by decide) wraps
  refine ⟨_, _, tree, _, later, done, rfl, ?_⟩
  rw [Effect.shaders, Effect.passes_crowded wraps]
  rintro (_ | ⟨⟨chunk, there, holds⟩, -⟩)
  obtain rfl : { name := "a", code := "x" } = chunk := Option.some.inj there
  exact absurd (Except.ok.inj (found.symm.trans holds)) (by decide +kernel)

end Compile

end EffectLang
