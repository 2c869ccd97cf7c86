import EffectLang.Blob.Effect
import EffectLang.Document.Basic
import EffectLang.Files.Plan
import EffectLang.Glsl.Constants
import EffectLang.Glsl.StageFile

/-!
Compiling: from an effect file to its stage files and, where asked for, its local constants and its binary
form. Everything that can fail without touching a file is decided first; only then is anything written.
-/
namespace EffectLang

structure Compile.Options where
  outputDir : String := "."
  binaryPath : Option String := none
  version : Glsl.Version := .core330
  strict : Bool := false
  constants : Bool := false
  capacity : LiteralTable.Capacity := {}
deriving DecidableEq, Repr, Inhabited

structure Compiled where
  effect : Effect
  stageFiles : List String
  binaryPath : Option String
  parseError : Option Unexpected
deriving DecidableEq, Repr, Inhabited

namespace Effect

def stageSteps (directory : String) (files : List StageFile) : List (Step Error) :=
  .open (.makeDirectories directory)
    :: files.map fun file => .open (.write (Path.join directory file.name) (Utf8.encode file.source))

/-- The steps that save an effect in binary form. When it has no binary form, what was written of it stays. -/
def saveSteps (path : String) (effect : Effect) : List (Step Error) :=
  let (result, sink) := Codec.effect.write effect {}
  .open (.write path sink.toList) ::
    match result with
    | .ok _ => []
    | .error error => [.stop error]

def constantsSteps (directory : String) (effect : Effect) : List (Step Report) :=
  let constants := LocalConstants.ofEffect effect
  let blockPath := Path.join directory (effect.name ++ "_constants.glsl")
  let defaultsPath := Path.join directory (effect.name ++ "_defaults.bin")
  .act (.write blockPath (Utf8.encode constants.block)) (.ofFault ("Failed to write " ++ blockPath)) ::
    match constants.blob with
    | .ok blob => [.act (.write defaultsPath blob) (.ofFault ("Failed to write " ++ defaultsPath))]
    | .error error => [.stop ⟨none, .ofError error⟩]

def generate (effect : Effect) (version : Glsl.Version) (directory : String) (tree : FileTree) :
    Except Error (List String) × FileTree :=
  match effect.stageFiles version with
  | .error error => (.error error, tree)
  | .ok files =>
    match tree.perform (stageSteps directory files) with
    | (.error error, tree) => (.error error, tree)
    | (.ok _, tree) => (.ok (files.map fun file => Path.join directory file.name), tree)

def save (effect : Effect) (path : String) (tree : FileTree) : Except Error Unit × FileTree :=
  tree.perform (saveSteps path effect)

def load (path : String) (tree : FileTree) : Except Error Effect :=
  match tree.openFile path with
  | .error fault => .error (.cannotOpen path fault)
  | .ok node =>
    match node.read with
    | .error fault => .error (.stream fault)
    | .ok bytes => ofBytes bytes

def loadReported (path : String) (tree : FileTree) : Except Report Effect :=
  (load path tree).mapError (.ofError ("Failed to load effect binary " ++ path))

def ofBytesReported (bytes : List UInt8) : Except Report Effect :=
  (ofBytes bytes).mapError (.ofError "Failed to decode effect binary")

end Effect

namespace Compile

def sourceText (path : String) (read : Except StreamFault (List UInt8)) : Except Report String :=
  let context := "Failed to read HFX source " ++ path
  match read with
  | .error fault => .error (.ofFault context fault)
  | .ok bytes =>
    match Utf8.decode? bytes with
    | none => .error (.ofFault context .notUtf8)
    | some text => .ok text

/-- The effect of a source text. A complaint about the text is an error when the compilation is strict. -/
def document (path : String) (options : Compile.Options) (text : String) : Except Report Document.Outcome :=
  match Document.parse text options.capacity with
  | .error error => .error (.ofError ("Failed to parse " ++ path) error)
  | .ok outcome =>
    match outcome.error with
    | some found =>
      if options.strict then .error (.ofText (path ++ ": " ++ (Error.unexpectedToken found).message))
      else .ok outcome
    | none => .ok outcome

def extraSteps (options : Compile.Options) (effect : Effect) : List (Step Report) :=
  (if options.constants then effect.constantsSteps options.outputDir else [])
    ++ match options.binaryPath with
      | none => []
      | some path => (effect.saveSteps path).map (.mapError (.ofError ("Failed to write " ++ path)))

/-- Decides on a compilation: what it makes, and the steps that write it. -/
def plan (path : String) (options : Compile.Options) (read : Except StreamFault (List UInt8)) :
    Except Report (Compiled × List (Step Report)) :=
  match sourceText path read with
  | .error report => .error report
  | .ok text =>
    match document path options text with
    | .error report => .error report
    | .ok outcome =>
      let context := "Failed to generate shaders for " ++ path
      match outcome.effect.stageFiles options.version with
      | .error error => .error (.ofError context error)
      | .ok files =>
        let compiled : Compiled :=
          { effect := outcome.effect
            stageFiles := files.map fun file => Path.join options.outputDir file.name
            binaryPath := options.binaryPath
            parseError := outcome.error }
        let steps := (Effect.stageSteps options.outputDir files).map (.mapError (.ofError context))
        .ok (compiled, steps ++ extraSteps options outcome.effect)

def run (path : String) (options : Compile.Options) (tree : FileTree) : Except Report Compiled × FileTree :=
  match plan path options (tree.readFile path) with
  | .error report => (.error report, tree)
  | .ok (compiled, steps) =>
    match tree.perform steps with
    | (.error report, tree) => (.error report, tree)
    | (.ok _, tree) => (.ok compiled, tree)

end Compile

end EffectLang
