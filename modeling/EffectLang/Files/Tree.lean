import EffectLang.Error
import EffectLang.Files.Path

/-!
File trees: a finite map from places to directories and file contents, and the place of the working directory. A
place is the list of names on the way from the root, which itself is always there. Paths lead to places through
directories that exist, absolute ones from the root and the others from the working directory.
-/
namespace EffectLang

inductive Node where
  | directory
  | file (content : List UInt8)
deriving DecidableEq, Repr, Inhabited

structure FileTree where
  home : List String := []
  entries : List (List String × Node) := []
deriving DecidableEq, Repr, Inhabited

/-- The bytes of a node that was opened for reading. A directory opens, but cannot be read. -/
def Node.read : Node → Except StreamFault (List UInt8)
  | .directory => .error .isDirectory
  | .file content => .ok content

namespace FileTree

def node? (tree : FileTree) (place : List String) : Option Node :=
  if place = [] then some .directory else tree.entries.lookup place

def put (tree : FileTree) (place : List String) (node : Node) : FileTree :=
  { tree with entries := (place, node) :: tree.entries.filter fun entry => entry.1 ≠ place }

/-- Follows segments from a place. Every place that is left on the way has to be a directory; the last one may
be missing. The root is its own parent. -/
def walk (tree : FileTree) (place : List String) : List String → Except StreamFault (List String)
  | [] => .ok place
  | segment :: rest =>
    match tree.node? place with
    | none => .error .notFound
    | some (.file _) => .error .notDirectory
    | some .directory =>
      if segment = "." then tree.walk place rest
      else if segment = ".." then tree.walk place.dropLast rest
      else if Path.maxSegment < segment.utf8ByteSize then .error .nameTooLong
      else tree.walk (place ++ [segment]) rest

def pathFault? (path : String) : Option StreamFault :=
  if '\x00' ∈ path.toList then some .nulInPath
  else if Path.maxLength < path.utf8ByteSize then some .nameTooLong
  else none

def start (tree : FileTree) (path : String) : List String :=
  if Path.isAbsolute path then [] else tree.home

def reach (tree : FileTree) (path : String) (segments : List String) : Except StreamFault (List String) :=
  match pathFault? path with
  | some fault => .error fault
  | none => if path = "" then .error .notFound else tree.walk (tree.start path) segments

def locate (tree : FileTree) (path : String) : Except StreamFault (List String) :=
  tree.reach path (Path.segments path)

def openFile (tree : FileTree) (path : String) : Except StreamFault Node :=
  match tree.locate path with
  | .error fault => .error fault
  | .ok place =>
    match tree.node? place with
    | none => .error .notFound
    | some .directory => .ok .directory
    | some (.file content) => if Path.endsWithSlash path then .error .notDirectory else .ok (.file content)

def readFile (tree : FileTree) (path : String) : Except StreamFault (List UInt8) :=
  match tree.openFile path with
  | .error fault => .error fault
  | .ok node => node.read

/-- Writes a file, in place of one that is there already. A path that ends with a slash can only mean a
directory, so its last segment is never looked at. -/
def writeFile (tree : FileTree) (path : String) (content : List UInt8) : Except StreamFault FileTree :=
  if Path.endsWithSlash path then
    match tree.reach path ((Path.segments path).dropLast ++ ["."]) with
    | .error fault => .error fault
    | .ok _ => .error .isDirectory
  else
    match tree.locate path with
    | .error fault => .error fault
    | .ok place =>
      if tree.node? place = some .directory then .error .isDirectory
      else .ok (tree.put place (.file content))

def makeDirectory (tree : FileTree) (start segments : List String) : Except StreamFault FileTree :=
  match tree.walk start segments with
  | .error fault => .error fault
  | .ok place =>
    match tree.node? place with
    | some _ => .error .alreadyExists
    | none => .ok (tree.put place .directory)

def isDirectory (tree : FileTree) (start segments : List String) : Bool :=
  match tree.walk start segments with
  | .error _ => false
  | .ok place => tree.node? place = some .directory

def ensureDirectory (tree : FileTree) (start segments : List String) : Except StreamFault Unit × FileTree :=
  match tree.makeDirectory start segments with
  | .ok made => (.ok (), made)
  | .error fault => (if tree.isDirectory start segments then .ok () else .error fault, tree)

/-- Makes the first of some directories, each of which lies in the next. The ones around it are made when it has
no place yet, and they stay when it cannot be made after all. -/
def makeInnermost (tree : FileTree) (start : List String) : List (List String) → Except StreamFault Unit × FileTree
  | [] => (.ok (), tree)
  | segments :: around =>
    match tree.makeDirectory start segments with
    | .error .notFound =>
      match tree.makeInnermost start around with
      | (.error fault, tree) => (.error fault, tree)
      | (.ok _, tree) => tree.ensureDirectory start segments
    | _ => tree.ensureDirectory start segments

/-- Makes the directory of a path and those that lead to it. The empty path is the working directory. -/
def makeDirectories (tree : FileTree) (path : String) : Except StreamFault Unit × FileTree :=
  match pathFault? path with
  | some fault => (.error fault, tree)
  | none => tree.makeInnermost (tree.start path) (Path.ancestors (Path.segments path))

def names? (tree : FileTree) (path : String) : Option (List String) :=
  match tree.locate path with
  | .error _ => none
  | .ok place =>
    if tree.node? place = some .directory then
      some ((tree.entries.filterMap fun (entry, _) =>
        match entry.getLast? with
        | some name => if entry.dropLast = place then some name else none
        | none => none).mergeSort)
    else none

@[simp] theorem start_put (tree : FileTree) (place : List String) (node : Node) (path : String) :
    (tree.put place node).start path = tree.start path := rfl

@[simp] theorem node?_root (tree : FileTree) : tree.node? [] = some .directory := rfl

theorem node?_put_self (tree : FileTree) (place : List String) (node : Node) (inside : place ≠ []) :
    (tree.put place node).node? place = some node := by
  simp [node?, put, inside]

theorem node?_put_of_ne (tree : FileTree) {place other : List String} (node : Node) (different : other ≠ place) :
    (tree.put place node).node? other = tree.node? other := by
  have kept : (tree.entries.filter fun entry => entry.1 ≠ place).lookup other = tree.entries.lookup other := by
    induction tree.entries with
    | nil => rfl
    | cons entry entries ih =>
      obtain ⟨key, value⟩ := entry
      by_cases same : key = place
      · subst same
        have : (other == key) = false := by simpa using different
        simpa [List.lookup_cons, this] using ih
      · simp only [List.filter_cons, same, List.lookup_cons, ne_eq, not_false_eq_true, decide_true, if_true]
        split
        · rfl
        · exact ih
  unfold node?
  split
  · rfl
  · have : (other == place) = false := by simpa using different
    simp only [put, List.lookup_cons, this]
    exact kept

end FileTree

end EffectLang
