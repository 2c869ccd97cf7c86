import EffectLang.CommandLine

/-!
The program: runs a command line on the files of the system.
-/
namespace EffectLang.CommandLine

def faultOf : IO.Error → StreamFault
  | .invalidArgument _ code details => if code = 36 then .nameTooLong else .other details code
  | .noFileOrDirectory _ _ _ => .notFound
  | .alreadyExists _ _ _ => .alreadyExists
  | .inappropriateType _ code details =>
    if code = 20 then .notDirectory else if code = 21 then .isDirectory else .other details code
  | .permissionDenied _ code details => .other details code
  | error => .other (toString error) 0

def attempt {α : Type} (path : String) (action : IO α) : IO (Except StreamFault α) := do
  match FileTree.pathFault? path with
  | some fault => return .error fault
  | none =>
    try
      return .ok (← action)
    catch error =>
      return .error (faultOf error)

/-- Makes a directory; one that is there already will do. Only a directory has a place under the name of a
dot, so that a plain file is told apart. -/
def ensureDirectory (path : String) : IO (Except StreamFault Unit) := do
  match ← attempt path (IO.FS.createDir path) with
  | .ok _ => return .ok ()
  | .error fault =>
    match ← attempt path (IO.FS.createDir (path ++ "/.")) with
    | .error .alreadyExists => return .ok ()
    | _ => return .error fault

def makeInnermost : List String → IO (Except StreamFault Unit)
  | [] => return .ok ()
  | path :: around => do
    match ← ensureDirectory path with
    | .error .notFound =>
      match ← makeInnermost around with
      | .error fault => return .error fault
      | .ok _ => ensureDirectory path
    | result => return result

def applyAction : FileAction → IO (Except StreamFault Unit)
  | .makeDirectories path =>
    match FileTree.pathFault? path with
    | some fault => return .error fault
    | none => makeInnermost ((Path.ancestors (Path.segments path)).map (Path.ofSegments path))
  | .write path content => attempt path (IO.FS.writeBinFile path ⟨content.toArray⟩)

def performSteps : List (Step Report) → IO (Except Report Unit)
  | [] => return .ok ()
  | .stop report :: _ => return .error report
  | .act action blame :: steps => do
    match ← applyAction action with
    | .error fault => return .error (blame fault)
    | .ok _ => performSteps steps

def compile (request : Request) : IO (Except Report Compiled) := do
  let bytes ← attempt request.input (IO.FS.readBinFile request.input)
  match Compile.plan request.input request.options (bytes.map fun content => content.data.toList) with
  | .error report => return .error report
  | .ok (compiled, steps) => return (← performSteps steps).map fun _ => compiled

end EffectLang.CommandLine

open EffectLang.CommandLine in
def main (arguments : List String) : IO UInt32 := do
  let output ← match parse arguments with
    | .error report => pure (failure report)
    | .ok request => do
      match ← compile request with
      | .error report => pure (failure report)
      | .ok compiled => pure (success request compiled)
  IO.print output.stdout
  IO.eprint output.stderr
  return output.exitCode
