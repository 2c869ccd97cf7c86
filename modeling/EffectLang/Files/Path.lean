/-!
File paths: texts whose segments are divided by slashes. The segment `.` stays where it is and `..` goes to
the parent directory.
-/
namespace EffectLang.Path

def isAbsolute (path : String) : Bool :=
  path.toList.head? == some '/'

/-- Whether a path ends with a slash, so that it can only mean a directory. -/
def endsWithSlash (path : String) : Bool :=
  path.toList.getLast? == some '/'

/-- The path of a name in a directory. An absolute name stands for itself. -/
def join (directory name : String) : String :=
  if isAbsolute name then name
  else if directory = "" ∨ endsWithSlash directory then directory ++ name
  else directory ++ "/" ++ name

def splitFrom (part : List Char) : List Char → List (List Char)
  | [] => [part.reverse]
  | c :: rest => if c = '/' then part.reverse :: splitFrom [] rest else splitFrom (c :: part) rest

def segments (path : String) : List String :=
  ((splitFrom [] path.toList).filter (· ≠ [])).map String.ofList

/-- Segments without the dots at their end; of nothing but dots one is left. -/
def trimDots (segments : List String) : List String :=
  match segments.reverse.dropWhile (· = ".") with
  | [] => segments.take 1
  | kept => kept.reverse

def parent (segments : List String) : List String :=
  trimDots (trimDots segments).dropLast

theorem length_trimDots_le (segments : List String) : (trimDots segments).length ≤ segments.length := by
  have shorter := (List.dropWhile_suffix (fun segment : String => decide (segment = "."))
    (l := segments.reverse)).length_le
  unfold trimDots
  split
  · simp only [List.length_take]
    omega
  · simpa using shorter

theorem length_parent_lt (segments : List String) (nonempty : segments ≠ []) :
    (parent segments).length < segments.length := by
  have outer := length_trimDots_le (trimDots segments).dropLast
  have inner := length_trimDots_le segments
  have positive := List.length_pos_iff.mpr nonempty
  simp only [List.length_dropLast] at outer
  unfold parent
  omega

def ofSegments (path : String) (segments : List String) : String :=
  (if isAbsolute path then "/" else "") ++ "/".intercalate segments

def ancestors (segments : List String) : List (List String) :=
  if segments = [] then [] else segments :: ancestors (parent segments)
termination_by segments.length
decreasing_by exact length_parent_lt segments ‹_›

def maxSegment : Nat := 255

def maxLength : Nat := 4095

/-- What follows the last dot of a file name, unless the name starts with that dot. -/
def extension? (name : String) : Option String :=
  let reversed := name.toList.reverse
  match reversed.dropWhile (· ≠ '.') with
  | [] => none
  | [_] => none
  | _ :: _ => some (String.ofList (reversed.takeWhile (· ≠ '.')).reverse)

end EffectLang.Path
