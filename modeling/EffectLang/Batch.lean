import EffectLang.Compile
import EffectLang.Text.Lines

/-!
Batches: several effect files of one directory, each compiled into a directory of its own. A batch is strict and
makes everything there is to make. The first failure ends it.
-/
namespace EffectLang.Batch

structure Entry where
  file : String
  name : String
deriving DecidableEq, Repr, Inhabited

def options (out : String) (entry : Entry) : Compile.Options where
  outputDir := Path.join out entry.name
  binaryPath := some (Path.join out (entry.name ++ ".hfxb"))
  version := .v430
  strict := true
  constants := true

def failure (path : String) (report : Report) : String :=
  "Failed to compile HFX effect " ++ Quoted.text path ++ ": " ++ report.message

def compileInto (directory out : String) : List Entry → FileTree → Except String Unit × FileTree
  | [], tree => (.ok (), tree)
  | entry :: entries, tree =>
    let path := Path.join directory entry.file
    match Compile.run path (options out entry) tree with
    | (.error report, tree) => (.error (failure path report), tree)
    | (.ok _, tree) => compileInto directory out entries tree

def watchText (directory : String) (tree : FileTree) : String :=
  String.join (((tree.names? directory).getD []).filterMap fun name =>
    if Path.extension? name = some "hfx" then
      some ("cargo:rerun-if-changed=" ++ Path.join directory name ++ "\n")
    else none)

/-- In ascending order, since a directory lists its names in no order. A name may hold line ends of its own. -/
def watchLines (directory : String) (tree : FileTree) : List String :=
  (Lines.split (watchText directory tree)).mergeSort

def build (directory : String) (out : Option String) (entries : List Entry) (tree : FileTree) :
    Except String (List String) × FileTree :=
  match out with
  | none =>
    (.error "OUT_DIR is not set; call this from a build script: environment variable not found", tree)
  | some out =>
    match compileInto directory out entries tree with
    | (.error text, tree) => (.error text, tree)
    | (.ok _, tree) => (.ok (watchLines directory tree), tree)

end EffectLang.Batch
