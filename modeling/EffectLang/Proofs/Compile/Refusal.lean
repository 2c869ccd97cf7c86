import EffectLang.Compile
import EffectLang.Proofs.Glsl.Resolution

/-!
Compilations that are refused. Whatever is wrong with the source, with its text or with the references of its passes
is found before the first directory is made or the first file is opened, so the file tree stays as it was.
-/
namespace EffectLang

namespace Effect

variable {effect : Effect} {version : Glsl.Version}

/-- One shader without a chunk is enough to have no stage files at all, wherever it stands. -/
theorem stageFiles_fail_iff :
    (∃ error, effect.stageFiles version = .error error) ↔
      ∃ pass ∈ effect.passes, ∃ shader ∈ pass.shaders, effect.chunk? shader = none := by
  have decided : (∃ error, effect.stageFiles version = .error error) ↔
      ¬∃ files, effect.stageFiles version = .ok files := by
    cases effect.stageFiles version <;> simp
  simp only [decided, stageFiles_eq_ok_iff, chunk?_eq_none_iff, not_forall, exists_prop]

end Effect

namespace Compile

/-- What a compilation is refused for: its source is not there or is no text, the text cannot be read as an effect, it
brings a complaint in a strict compilation, or a shader of the effect refers to no chunk. -/
inductive Refused (path : String) (options : Compile.Options) (tree : FileTree) : Prop
  | unreadable (fault : StreamFault) (failed : tree.readFile path = .error fault)
  | noText (bytes : List UInt8) (read : tree.readFile path = .ok bytes) (other : ∀ text, Utf8.encode text ≠ bytes)
  | noEffect (text : String) (error : Error) (read : tree.readFile path = .ok (Utf8.encode text))
      (failed : Document.parse text options.capacity = .error error)
  | complaint (text : String) (outcome : Document.Outcome) (read : tree.readFile path = .ok (Utf8.encode text))
      (given : Document.parse text options.capacity = .ok outcome) (strict : options.strict)
      (found : outcome.error.isSome)
  | unresolved (text : String) (outcome : Document.Outcome) (read : tree.readFile path = .ok (Utf8.encode text))
      (given : Document.parse text options.capacity = .ok outcome) (pass : Pass)
      (member : pass ∈ outcome.effect.passes) (shader : Shader) (inside : shader ∈ pass.shaders)
      (missing : outcome.effect.chunk? shader = none)

section Decisions

variable {path : String} {options : Compile.Options} {text : String} {outcome : Document.Outcome}

theorem sourceText_encode : sourceText path (.ok (Utf8.encode text)) = .ok text := by
  simp only [sourceText, Utf8.decode?_encode]

theorem sourceText_eq_error_iff {read : Except StreamFault (List UInt8)} :
    (∃ report, sourceText path read = .error report) ↔
      (∃ fault, read = .error fault) ∨ ∃ bytes, read = .ok bytes ∧ ∀ text, Utf8.encode text ≠ bytes := by
  constructor
  · rintro ⟨report, failed⟩
    cases read with
    | error fault => exact .inl ⟨fault, rfl⟩
    | ok bytes =>
      refine .inr ⟨bytes, rfl, ?_⟩
      rintro text rfl
      cases sourceText_encode.symm.trans failed
  · rintro (⟨fault, rfl⟩ | ⟨bytes, rfl, other⟩)
    · exact ⟨_, rfl⟩
    · cases decoded : Utf8.decode? bytes with
      | none => exact ⟨_, by simp only [sourceText, decoded]; rfl⟩
      | some text => exact absurd (Utf8.encode_of_decode? decoded) (other text)

theorem eq_of_sourceText {read : Except StreamFault (List UInt8)} (sourced : sourceText path read = .ok text) :
    read = .ok (Utf8.encode text) := by
  cases read with
  | error fault => cases sourced
  | ok bytes =>
    unfold sourceText at sourced
    dsimp only at sourced
    split at sourced
    · cases sourced
    · rename_i decoded
      cases sourced
      rw [Utf8.encode_of_decode? decoded]

theorem document_eq_error_iff :
    (∃ report, document path options text = .error report) ↔
      (∃ error, Document.parse text options.capacity = .error error) ∨
        ∃ outcome, Document.parse text options.capacity = .ok outcome ∧ options.strict ∧ outcome.error.isSome := by
  unfold document
  cases Document.parse text options.capacity with
  | error error => simp
  | ok outcome => cases found : outcome.error <;> cases options.strict <;> simp [found]

theorem outcome_of_document (decided : document path options text = .ok outcome) :
    Document.parse text options.capacity = .ok outcome := by
  unfold document at decided
  split at decided
  · cases decided
  · rename_i given
    split at decided
    · split at decided
      · cases decided
      · cases decided
        exact given
    · cases decided
      exact given

end Decisions

variable {path : String} {options : Compile.Options} {tree : FileTree}

/-- Nothing else than a refusal keeps a compilation from having a plan. -/
theorem plan_eq_error_iff :
    (∃ report, plan path options (tree.readFile path) = .error report) ↔ Refused path options tree := by
  constructor
  · rintro ⟨report, failed⟩
    unfold plan at failed
    split at failed
    · rename_i report' unread
      obtain ⟨fault, failed⟩ | ⟨bytes, read, other⟩ := sourceText_eq_error_iff.mp ⟨report', unread⟩
      · exact .unreadable fault failed
      · exact .noText bytes read other
    · rename_i text sourced
      have read : tree.readFile path = .ok (Utf8.encode text) := eq_of_sourceText sourced
      split at failed
      · rename_i report' undecided
        obtain ⟨error, failed⟩ | ⟨outcome, given, strict, found⟩ := document_eq_error_iff.mp ⟨report', undecided⟩
        · exact .noEffect text error read failed
        · exact .complaint text outcome read given strict found
      · rename_i outcome decided
        dsimp only at failed
        split at failed
        · rename_i error unresolved
          obtain ⟨pass, member, shader, inside, missing⟩ := Effect.stageFiles_fail_iff.mp ⟨error, unresolved⟩
          exact .unresolved text outcome read (outcome_of_document decided) pass member shader inside missing
        · cases failed
  · rintro (⟨fault, failed⟩ | ⟨bytes, read, other⟩ | ⟨text, error, read, failed⟩ |
      ⟨text, outcome, read, given, strict, found⟩ |
      ⟨text, outcome, read, given, pass, member, shader, inside, missing⟩)
    · obtain ⟨report, unread⟩ := sourceText_eq_error_iff.mpr (.inl ⟨fault, failed⟩)
      exact ⟨report, by rw [plan, unread]⟩
    · obtain ⟨report, unread⟩ := sourceText_eq_error_iff.mpr (.inr ⟨bytes, read, other⟩)
      exact ⟨report, by rw [plan, unread]⟩
    · obtain ⟨report, undecided⟩ : ∃ report, document path options text = .error report :=
        document_eq_error_iff.mpr (.inl ⟨error, failed⟩)
      exact ⟨report, by simp only [plan, read, sourceText_encode, undecided]⟩
    · obtain ⟨report, undecided⟩ : ∃ report, document path options text = .error report :=
        document_eq_error_iff.mpr (.inr ⟨outcome, given, strict, found⟩)
      exact ⟨report, by simp only [plan, read, sourceText_encode, undecided]⟩
    -- A complaint in a strict compilation comes first; without one the missing chunk is found.
    · cases decided : document path options text with
      | error report => exact ⟨report, by simp only [plan, read, sourceText_encode, decided]⟩
      | ok outcome' =>
        cases given.symm.trans (outcome_of_document decided)
        obtain ⟨error, failed⟩ : ∃ error, outcome.effect.stageFiles options.version = .error error :=
          Effect.stageFiles_fail_iff.mpr ⟨pass, member, shader, inside, missing⟩
        exact ⟨_, by simp only [plan, read, sourceText_encode, decided, failed]; rfl⟩

/-- A compilation that is refused fails and leaves the file tree as it was, whatever its options ask for: nothing is
made and nothing is written, not even when only the last of many shaders lacks its chunk. Any other compilation goes on
to its steps, the first of which makes the output directory. -/
theorem run_of_refused (path : String) (options : Compile.Options) (tree : FileTree) :
    (Refused path options tree → ∃ report, run path options tree = (.error report, tree)) ∧
      (¬Refused path options tree → ∃ compiled blame steps,
        plan path options (tree.readFile path) =
          .ok (compiled, .act (.makeDirectories options.outputDir) blame :: steps)) := by
  constructor
  · intro refused
    obtain ⟨report, failed⟩ := plan_eq_error_iff.mpr refused
    exact ⟨report, by rw [run, failed]⟩
  · intro accepted
    cases planned : plan path options (tree.readFile path) with
    | error report => exact absurd (plan_eq_error_iff.mp ⟨report, planned⟩) accepted
    | ok decision =>
      unfold plan at planned
      split at planned
      · cases planned
      · split at planned
        · cases planned
        · dsimp only at planned
          split at planned
          · cases planned
          · cases planned
            exact ⟨_, _, _, rfl⟩

/-- Three shaders have their chunk and the last one has none. The source lies outside the working directory. The stage
file of an earlier compilation is kept, and no binary form appears. -/
theorem run_of_refused_last_shader :
    let source := "glsl a \x7bx\x7d pass p \x7b vertex = a fragment = a \x7d pass q \x7b vertex = a compute = b \x7d"
    let options : Compile.Options := { outputDir := "out", binaryPath := some "/src/e.bin", constants := true }
    let tree : FileTree :=
      ⟨["work"], [(["src"], .directory), (["src", "e.hfx"], .file (Utf8.encode source)), (["work"], .directory),
        (["work", "out"], .directory), (["work", "out", "a_vt.glsl"], .file [1, 2])]⟩
    Refused "/src/e.hfx" options tree ∧ ∃ report, run "/src/e.hfx" options tree = (.error report, tree) := by
  intro source options tree
  have read : tree.readFile "/src/e.hfx" = .ok (Utf8.encode source) := by decide +kernel
  have refused : Refused "/src/e.hfx" options tree := by
    refine .unresolved source
      ⟨{ passes := [⟨"p", [⟨.vertex, 0⟩, ⟨.fragment, 0⟩], [], noIndex, .graphics⟩,
          ⟨"q", [⟨.vertex, 0⟩, ⟨.compute, noIndex⟩], [], noIndex, .compute⟩]
         chunks := [{ name := "a", code := "x" }] }, none⟩
      read (by decide +kernel) _ (.tail _ (.head _)) _ (.tail _ (.head _)) (by decide)
  exact ⟨refused, (run_of_refused "/src/e.hfx" options tree).1 refused⟩

end Compile

end EffectLang
