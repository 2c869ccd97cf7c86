import EffectLang.Compile
import EffectLang.Effect.Summary

/-!
The command line: what its arguments ask for, and what a run prints. Options may stand in any order around the
one input file; of an option that is given twice the last one counts.
-/
namespace EffectLang.CommandLine

structure Request where
  input : String
  options : Compile.Options
  dump : Bool
deriving DecidableEq, Repr, Inhabited

structure Output where
  exitCode : UInt32
  stdout : String
  stderr : String
deriving DecidableEq, Repr, Inhabited

def usage : String :=
  "usage: hfxc <input.hfx> [-o <dir>] [--bin <file>] [--glsl <330|430|450|460>] [--strict] [--constants] [--dump]"

structure Arguments where
  input : Option String := none
  options : Compile.Options := {}
  dump : Bool := false
deriving DecidableEq, Repr, Inhabited

def parseFrom (arguments : Arguments) : List String → Except Report Arguments
  | [] => .ok arguments
  | "-o" :: rest | "--out" :: rest =>
    match rest with
    | directory :: rest =>
      parseFrom { arguments with options := { arguments.options with outputDir := directory } } rest
    | [] => .error (.ofText "-o needs a directory")
  | "--bin" :: rest =>
    match rest with
    | path :: rest =>
      parseFrom { arguments with options := { arguments.options with binaryPath := some path } } rest
    | [] => .error (.ofText "--bin needs a file")
  | "--glsl" :: rest =>
    match rest with
    | number :: rest =>
      match Glsl.Version.ofNumber? number with
      | some version => parseFrom { arguments with options := { arguments.options with version } } rest
      | none => .error (.ofText ("unsupported GLSL version " ++ number))
    | [] => .error (.ofText "--glsl needs a version")
  | "--strict" :: rest => parseFrom { arguments with options := { arguments.options with strict := true } } rest
  | "--constants" :: rest =>
    parseFrom { arguments with options := { arguments.options with constants := true } } rest
  | "--dump" :: rest => parseFrom { arguments with dump := true } rest
  | "-h" :: _ | "--help" :: _ => .error (.ofText usage)
  | argument :: rest =>
    if argument.toList.head? = some '-' then .error (.ofText ("unknown option " ++ argument ++ "\n" ++ usage))
    else
      match arguments.input with
      | none => parseFrom { arguments with input := some argument } rest
      | some _ => .error (.ofText ("only one input file is accepted\n" ++ usage))

def parse (arguments : List String) : Except Report Request :=
  match parseFrom {} arguments with
  | .error report => .error report
  | .ok read =>
    match read.input with
    | none => .error (.ofText usage)
    | some input => .ok ⟨input, read.options, read.dump⟩

def failure (report : Report) : Output :=
  ⟨1, "", "hfxc: " ++ report.message ++ "\n"⟩

/-- What a successful run prints: the summary where asked for, and the path of every file that an effect can be
loaded from. -/
def success (request : Request) (compiled : Compiled) : Output :=
  let summary := if request.dump then compiled.effect.summary else ""
  let paths := compiled.stageFiles ++ compiled.binaryPath.toList
  ⟨0, summary ++ String.join (paths.map (· ++ "\n")), ""⟩

def run (arguments : List String) (tree : FileTree) : Output × FileTree :=
  match parse arguments with
  | .error report => (failure report, tree)
  | .ok request =>
    match Compile.run request.input request.options tree with
    | (.error report, tree) => (failure report, tree)
    | (.ok compiled, tree) => (success request compiled, tree)

end EffectLang.CommandLine
