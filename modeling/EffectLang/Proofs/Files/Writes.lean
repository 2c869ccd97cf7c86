import EffectLang.Files.Plan
import Mathlib

/-!
Files that are written into one directory. A file is found again under its path, and writing another one beside it
changes nothing about it. So after a run of writes each path holds what was written there, when no two writes
disagree about a name.
-/
namespace EffectLang

namespace Path

/-- A name that stands for a file in the directory at hand. -/
structure IsPlain (name : String) : Prop where
  slashless : '/' ∉ name.toList
  nonempty : name ≠ ""
  dotless : name ≠ "." ∧ name ≠ ".."

theorem isPlain_of_length {name : String} (slashless : '/' ∉ name.toList) (long : 2 < name.toList.length) :
    IsPlain name := by
  have other {short : String} (less : short.toList.length ≤ 2) : name ≠ short := by
    rintro rfl
    omega
  exact ⟨slashless, other (by decide), other (by decide), other (by decide)⟩

theorem splitFrom_slash (part left right : List Char) :
    splitFrom part (left ++ '/' :: right) = splitFrom part left ++ splitFrom [] right := by
  induction left generalizing part with
  | nil => simp [splitFrom]
  | cons c left ih =>
    simp only [List.cons_append, splitFrom]
    split
    · rw [ih, List.cons_append]
    · rw [ih]

theorem splitFrom_slashless (part : List Char) {text : List Char} (slashless : '/' ∉ text) :
    splitFrom part text = [part.reverse ++ text] := by
  induction text generalizing part with
  | nil => simp [splitFrom]
  | cons c text ih =>
    rw [List.mem_cons, not_or] at slashless
    rw [splitFrom, if_neg (Ne.symm slashless.1), ih _ slashless.2]
    simp

theorem segments_of_isPlain {name : String} (plain : IsPlain name) : segments name = [name] := by
  have some : name.toList ≠ [] := by simpa using plain.nonempty
  simp [segments, splitFrom_slashless [] plain.slashless, some]

theorem segments_slash (left right : String) : segments (left ++ "/" ++ right) = segments left ++ segments right := by
  simp [segments, splitFrom_slash]

theorem isAbsolute_of_isPlain {name : String} (plain : IsPlain name) : isAbsolute name = false := by
  have slashless := plain.slashless
  unfold isAbsolute
  cases text : name.toList with
  | nil => rfl
  | cons c rest =>
    rw [text, List.mem_cons, not_or] at slashless
    simpa using Ne.symm slashless.1

theorem segments_join (directory : String) {name : String} (plain : IsPlain name) :
    segments (join directory name) = segments directory ++ [name] := by
  have single := segments_of_isPlain plain
  rw [join, isAbsolute_of_isPlain plain, if_neg Bool.false_ne_true]
  split
  · rename_i closed
    rcases closed with rfl | closed
    · simpa [segments, splitFrom] using single
    · obtain ⟨front, slashed⟩ : ∃ front, directory = front ++ "/" ++ "" := by
        unfold endsWithSlash at closed
        obtain ⟨front, spelled⟩ := List.getLast?_eq_some_iff.mp (beq_iff_eq.mp closed)
        refine ⟨String.ofList front, ?_⟩
        rw [← String.toList_inj, spelled]
        simp
      rw [slashed, String.append_empty, segments_slash, single]
      have nothing := segments_slash front ""
      rw [String.append_empty] at nothing
      rw [nothing]
      simp [segments, splitFrom]
  · rw [segments_slash, single]

end Path

namespace FileTree

variable {tree later : FileTree}

theorem walk_concat {start place : List String} {segments : List String} {name : String} (plain : Path.IsPlain name)
    (walked : tree.walk start (segments ++ [name]) = .ok place) :
    ∃ directory, tree.walk start segments = .ok directory ∧ place = directory ++ [name] := by
  induction segments generalizing start with
  | nil =>
    rw [List.nil_append, walk] at walked
    split at walked
    · cases walked
    · cases walked
    · rw [if_neg plain.dotless.1, if_neg plain.dotless.2] at walked
      split at walked
      · cases walked
      · cases walked
        exact ⟨start, rfl, rfl⟩
  | cons segment segments ih =>
    rw [List.cons_append, walk] at walked
    rw [walk]
    split at walked
    · cases walked
    · cases walked
    · split_ifs at walked ⊢
      · exact ih walked
      · exact ih walked
      · exact ih walked

/-- A way leads through directories, so it stays open when a file is put where none of them is. -/
theorem walk_put {other : List String} (free : tree.node? other ≠ some .directory) (node : Node)
    {start place : List String} {segments : List String} (walked : tree.walk start segments = .ok place) :
    (tree.put other node).walk start segments = .ok place := by
  induction segments generalizing start with
  | nil => exact walked
  | cons segment segments ih =>
    rw [walk] at walked ⊢
    split at walked
    · cases walked
    · cases walked
    · rename_i directory
      have apart : start ≠ other := by
        rintro rfl
        exact free directory
      rw [node?_put_of_ne tree node apart, directory]
      dsimp only
      split_ifs at walked ⊢
      · exact ih walked
      · exact ih walked
      · exact ih walked

theorem locate_ok {path : String} {place : List String} (located : tree.locate path = .ok place) :
    pathFault? path = none ∧ path ≠ "" ∧ tree.walk (tree.start path) (Path.segments path) = .ok place := by
  unfold locate reach at located
  split at located
  · cases located
  · rename_i sound
    split at located
    · cases located
    · rename_i some
      exact ⟨sound, some, located⟩

theorem locate_of_isPlain {name : String} (plain : Path.IsPlain name) (sound : pathFault? name = none)
    (short : name.utf8ByteSize ≤ Path.maxSegment) (home : tree.node? tree.home = some .directory) :
    tree.locate name = .ok (tree.home ++ [name]) := by
  have start : tree.start name = tree.home := by
    rw [FileTree.start, Path.isAbsolute_of_isPlain plain, if_neg Bool.false_ne_true]
  simp only [locate, reach, sound, if_neg plain.nonempty, start, Path.segments_of_isPlain plain, walk, home,
    if_neg plain.dotless.1, if_neg plain.dotless.2, if_neg short.not_gt]

theorem locate_put {other : List String} (free : tree.node? other ≠ some .directory) (node : Node) {path : String}
    {place : List String} (located : tree.locate path = .ok place) :
    (tree.put other node).locate path = .ok place := by
  obtain ⟨sound, some, walked⟩ := locate_ok located
  simp only [locate, reach, sound, if_neg some, start_put]
  exact walk_put free node walked

theorem writeFile_of_locate {path : String} {place : List String} (noSlash : Path.endsWithSlash path = false)
    (located : tree.locate path = .ok place) (free : tree.node? place ≠ some .directory) (content : List UInt8) :
    tree.writeFile path content = .ok (tree.put place (.file content)) := by
  simp only [writeFile, noSlash, located, if_neg free, if_neg Bool.false_ne_true]

theorem writeFile_ok {path : String} {content : List UInt8} (written : tree.writeFile path content = .ok later) :
    Path.endsWithSlash path = false ∧ ∃ place, tree.locate path = .ok place ∧
      tree.node? place ≠ some .directory ∧ later = tree.put place (.file content) := by
  unfold writeFile at written
  split at written
  · split at written <;> cases written
  · rename_i noSlash
    refine ⟨by simpa using noSlash, ?_⟩
    split at written
    · cases written
    · rename_i place located
      split at written
      · cases written
      · rename_i free
        cases written
        exact ⟨place, located, free, rfl⟩

theorem readFile_eq_ok_iff {path : String} {content : List UInt8} :
    tree.readFile path = .ok content ↔
      Path.endsWithSlash path = false ∧ ∃ place, tree.locate path = .ok place ∧
        tree.node? place = some (.file content) := by
  unfold readFile openFile
  constructor
  · intro read
    split at read
    · cases read
    · rename_i node opened
      split at opened
      · cases opened
      · rename_i place located
        split at opened
        · cases opened
        · cases opened
          cases read
        · rename_i there
          split at opened
          · cases opened
          · rename_i noSlash
            cases opened
            cases read
            exact ⟨by simpa using noSlash, place, located, there⟩
  · rintro ⟨noSlash, place, located, there⟩
    simp [located, there, noSlash, Node.read]

theorem readFile_writeFile {path : String} {content : List UInt8} (written : tree.writeFile path content = .ok later) :
    later.readFile path = .ok content := by
  obtain ⟨noSlash, place, located, free, rfl⟩ := writeFile_ok written
  have inside : place ≠ [] := by
    rintro rfl
    exact free tree.node?_root
  exact readFile_eq_ok_iff.mpr ⟨noSlash, place, locate_put free _ located, tree.node?_put_self place _ inside⟩

/-- In one directory different names lead to different places. -/
theorem eq_of_locate_join {directory first second : String} {place : List String} (firstPlain : Path.IsPlain first)
    (secondPlain : Path.IsPlain second) (located : tree.locate (Path.join directory first) = .ok place)
    (same : tree.locate (Path.join directory second) = .ok place) : first = second := by
  have way := (locate_ok located).2.2
  have otherWay := (locate_ok same).2.2
  rw [Path.segments_join directory firstPlain] at way
  rw [Path.segments_join directory secondPlain] at otherWay
  obtain ⟨front, -, rfl⟩ := walk_concat firstPlain way
  obtain ⟨otherFront, -, ends⟩ := walk_concat secondPlain otherWay
  simpa using congrArg List.getLast? ends

/-- Writing a file changes nothing about another one in the same directory. -/
theorem readFile_writeFile_of_ne {directory first second : String} (firstPlain : Path.IsPlain first)
    (secondPlain : Path.IsPlain second) (different : first ≠ second) {content other : List UInt8}
    (read : tree.readFile (Path.join directory first) = .ok content)
    (written : tree.writeFile (Path.join directory second) other = .ok later) :
    later.readFile (Path.join directory first) = .ok content := by
  obtain ⟨noSlash, place, located, there⟩ := readFile_eq_ok_iff.mp read
  obtain ⟨-, target, targeted, free, rfl⟩ := writeFile_ok written
  have apart : place ≠ target := by
    rintro rfl
    exact different (eq_of_locate_join firstPlain secondPlain located targeted)
  refine readFile_eq_ok_iff.mpr ⟨noSlash, place, locate_put free _ located, ?_⟩
  rw [node?_put_of_ne tree _ apart, there]

theorem makeDirectories_empty (tree : FileTree) : tree.makeDirectories "" = (.ok (), tree) := by
  have sound : pathFault? "" = none := by decide
  have segments : Path.segments "" = [] := by decide
  rw [makeDirectories, sound, segments, Path.ancestors]
  rfl

section Runs

variable {ε α : Type} {directory : String} (name : α → String) (content : α → List UInt8)

theorem perform_act_ok {action : FileAction} {blame : StreamFault → ε} {steps : List (Step ε)}
    (done : tree.perform (.act action blame :: steps) = (.ok (), later)) :
    ∃ next, tree.apply action = (.ok (), next) ∧ next.perform steps = (.ok (), later) := by
  rw [perform] at done
  split at done
  · cases done
  · rename_i next applied
    exact ⟨next, applied, done⟩

def writeStep (directory : String) (blame : FileAction → StreamFault → ε) (item : α) : Step ε :=
  .act (.write (Path.join directory (name item)) (content item))
    (blame (.write (Path.join directory (name item)) (content item)))

theorem perform_write_ok {path : String} {bytes : List UInt8} {blame : StreamFault → ε} {steps : List (Step ε)}
    (done : tree.perform (.act (.write path bytes) blame :: steps) = (.ok (), later)) :
    ∃ next, tree.writeFile path bytes = .ok next ∧ next.perform steps = (.ok (), later) := by
  obtain ⟨next, applied, rest⟩ := perform_act_ok done
  unfold apply at applied
  dsimp only at applied
  split at applied
  · cases applied
  · rename_i written
    cases applied
    exact ⟨next, written, rest⟩

theorem perform_write {path : String} {bytes : List UInt8} (written : tree.writeFile path bytes = .ok later)
    (blame : StreamFault → ε) (steps : List (Step ε)) :
    tree.perform (.act (.write path bytes) blame :: steps) = later.perform steps := by
  simp only [perform, apply, written]

/-- A file that is written twice holds what came last. -/
theorem perform_rewrite {path : String} {place : List String} (noSlash : Path.endsWithSlash path = false)
    (located : tree.locate path = .ok place) (free : tree.node? place ≠ some .directory) (first second : List UInt8)
    (blame other : StreamFault → ε) :
    ∃ later, tree.perform [.act (.write path first) blame, .act (.write path second) other] = (.ok (), later) ∧
      later.readFile path = .ok second := by
  have inside : place ≠ [] := by
    rintro rfl
    exact free tree.node?_root
  have still : (tree.put place (.file first)).node? place ≠ some .directory := by
    simp [node?_put_self _ _ _ inside]
  have again := writeFile_of_locate noSlash (locate_put free (.file first) located) still second
  refine ⟨_, ?_, readFile_writeFile again⟩
  rw [perform_write (writeFile_of_locate noSlash located free first), perform_write again, perform]

theorem perform_writeStep_ok {blame : FileAction → StreamFault → ε} {item : α} {steps : List (Step ε)}
    (done : tree.perform (writeStep name content directory blame item :: steps) = (.ok (), later)) :
    ∃ next, tree.writeFile (Path.join directory (name item)) (content item) = .ok next ∧
      next.perform steps = (.ok (), later) :=
  perform_write_ok done

theorem readFile_perform_of_ne {blame : FileAction → StreamFault → ε} {items : List α} {first : String}
    {text : List UInt8} (firstPlain : Path.IsPlain first) (plain : ∀ item ∈ items, Path.IsPlain (name item))
    (different : ∀ item ∈ items, first ≠ name item) (read : tree.readFile (Path.join directory first) = .ok text)
    (done : tree.perform (items.map (writeStep name content directory blame)) = (.ok (), later)) :
    later.readFile (Path.join directory first) = .ok text := by
  induction items generalizing tree with
  | nil =>
    cases done
    exact read
  | cons item items ih =>
    obtain ⟨next, written, rest⟩ := perform_writeStep_ok name content done
    rw [List.forall_mem_cons] at plain different
    exact ih plain.2 different.2 (readFile_writeFile_of_ne firstPlain plain.1 different.1 read written) rest

/-- After a run of writes that agree about each name, every file is found with its own content. -/
theorem readFile_perform {blame : FileAction → StreamFault → ε} {items : List α}
    (plain : ∀ item ∈ items, Path.IsPlain (name item))
    (agree : ∀ first ∈ items, ∀ second ∈ items, name first = name second → content first = content second)
    (done : tree.perform (items.map (writeStep name content directory blame)) = (.ok (), later)) :
    ∀ item ∈ items, later.readFile (Path.join directory (name item)) = .ok (content item) := by
  induction items generalizing tree with
  | nil => exact nofun
  | cons first items ih =>
    obtain ⟨next, written, rest⟩ := perform_writeStep_ok name content done
    rw [List.forall_mem_cons] at plain
    have later := ih plain.2 (fun a inside b within => agree a (.tail _ inside) b (.tail _ within)) rest
    intro item member
    rcases List.mem_cons.mp member with rfl | member
    -- A file that is written again later agrees with this one, and otherwise no later file touches it.
    · by_cases again : ∃ other ∈ items, name item = name other
      · obtain ⟨other, inside, same⟩ := again
        rw [same, agree item (.head _) other (.tail _ inside) same]
        exact later other inside
      · exact readFile_perform_of_ne name content plain.1 plain.2
          (fun other inside same => again ⟨other, inside, same⟩) (readFile_writeFile written) rest
    · exact later item member

end Runs

end FileTree

end EffectLang
