import EffectLang.Proofs.Files.Writes

/-!
What a plan leaves alone. Files that are written one after another change the places that their paths lead to and no
other. Directories are made only where nothing was, on the way that was asked for.
-/
namespace EffectLang.FileTree

variable {tree later : FileTree}

/-- The files of a list are written in its order, each with its content. -/
inductive Writes : FileTree → List (String × List UInt8) → FileTree → Prop
  | nil (tree : FileTree) : Writes tree [] tree
  | cons {tree next later : FileTree} {path : String} {content : List UInt8} {files : List (String × List UInt8)}
      (written : tree.writeFile path content = .ok next) (rest : Writes next files later) :
      Writes tree ((path, content) :: files) later

namespace Writes

variable {files : List (String × List UInt8)}

theorem append {next : FileTree} {others : List (String × List UInt8)} (first : Writes tree files next)
    (second : Writes next others later) : Writes tree (files ++ others) later := by
  induction first with
  | nil => exact second
  | cons written _ ih => exact .cons written (ih second)

theorem walk {start place segments : List String} (writes : Writes tree files later)
    (walked : tree.walk start segments = .ok place) : later.walk start segments = .ok place := by
  induction writes with
  | nil => exact walked
  | cons written _ ih =>
    obtain ⟨-, target, -, free, rfl⟩ := writeFile_ok written
    exact ih (walk_put free _ walked)

theorem locate {path : String} {place : List String} (writes : Writes tree files later)
    (located : tree.locate path = .ok place) : later.locate path = .ok place := by
  induction writes with
  | nil => exact located
  | cons written _ ih =>
    obtain ⟨-, target, -, free, rfl⟩ := writeFile_ok written
    exact ih (locate_put free _ located)

/-- A place that no written path leads to is as it was. -/
theorem node?_of_ne {place : List String} (writes : Writes tree files later)
    (apart : ∀ file ∈ files, later.locate file.1 ≠ .ok place) : later.node? place = tree.node? place := by
  induction writes with
  | nil => rfl
  | cons written rest ih =>
    rw [List.forall_mem_cons] at apart
    obtain ⟨-, target, targeted, free, rfl⟩ := writeFile_ok written
    have different : place ≠ target := by
      rintro rfl
      exact apart.1 (rest.locate (locate_put free _ targeted))
    rw [ih apart.2, node?_put_of_ne _ _ different]

theorem exists_place {file : String × List UInt8} (writes : Writes tree files later) (member : file ∈ files) :
    Path.endsWithSlash file.1 = false ∧ ∃ place, place ≠ [] ∧ later.locate file.1 = .ok place := by
  induction writes with
  | nil => cases member
  | cons written rest ih =>
    rcases List.mem_cons.mp member with rfl | member
    · obtain ⟨noSlash, place, located, free, rfl⟩ := writeFile_ok written
      refine ⟨noSlash, place, ?_, rest.locate (locate_put free _ located)⟩
      rintro rfl
      exact free (node?_root _)
    · exact ih member

theorem node?_eq {file : String × List UInt8} {place : List String} (writes : Writes tree files later)
    (member : file ∈ files) (located : later.locate file.1 = .ok place)
    (agree : ∀ other ∈ files, later.locate other.1 = .ok place → other.2 = file.2) :
    later.node? place = some (.file file.2) := by
  induction writes generalizing file with
  | nil => cases member
  | @cons tree next later path content files written rest ih =>
    by_cases again : ∃ other ∈ files, later.locate other.1 = .ok place
    -- The last file that is written there decides, and it agrees with the others.
    · obtain ⟨other, inside, same⟩ := again
      have equal : other.2 = file.2 := agree other (.tail _ inside) same
      rw [← equal]
      refine ih inside same ?_
      intro third within reached
      rw [equal]
      exact agree third (.tail _ within) reached
    · have last : file = (path, content) := by
        rcases List.mem_cons.mp member with same | inside
        · exact same
        · exact absurd ⟨file, inside, located⟩ again
      subst last
      obtain ⟨-, target, targeted, free, rfl⟩ := writeFile_ok written
      obtain rfl : target = place := Except.ok.inj ((rest.locate (locate_put free _ targeted)).symm.trans located)
      have inside : target ≠ [] := by
        rintro rfl
        exact free (node?_root _)
      rw [rest.node?_of_ne fun other within reached => again ⟨other, within, reached⟩]
      exact node?_put_self tree target _ inside

/-- A file is found with its content when no other one was written over it with another content. -/
theorem readFile {path : String} {content : List UInt8} (writes : Writes tree files later)
    (member : (path, content) ∈ files)
    (agree : ∀ other ∈ files, later.locate other.1 = later.locate path → other.2 = content) :
    later.readFile path = .ok content := by
  obtain ⟨noSlash, place, -, located⟩ := writes.exists_place member
  refine readFile_eq_ok_iff.mpr ⟨noSlash, place, located, writes.node?_eq member located ?_⟩
  intro other inside same
  exact agree other inside (same.trans located.symm)

end Writes

section Directories

variable {start : List String}

/-- Every place is as it was, or nothing was there and one of some ways leads to a directory there now. -/
def Prepares (tree later : FileTree) (start : List String) (ways : List (List String)) : Prop :=
  ∀ place, later.node? place = tree.node? place ∨
    tree.node? place = none ∧ later.node? place = some .directory ∧ ∃ way ∈ ways, later.walk start way = .ok place

theorem makeDirectory_ok {segments : List String} (made : tree.makeDirectory start segments = .ok later) :
    ∃ place, tree.walk start segments = .ok place ∧ tree.node? place = none ∧ later = tree.put place .directory := by
  unfold makeDirectory at made
  split at made
  · cases made
  · rename_i place walked
    split at made
    · cases made
    · rename_i free
      cases made
      exact ⟨place, walked, free, rfl⟩

theorem ensureDirectory_cases (tree : FileTree) (start segments : List String) :
    (tree.ensureDirectory start segments).2 = tree ∨ ∃ place, tree.walk start segments = .ok place ∧
      tree.node? place = none ∧ (tree.ensureDirectory start segments).2 = tree.put place .directory := by
  unfold ensureDirectory
  split
  · rename_i made
    exact .inr (makeDirectory_ok made)
  · exact .inl rfl

theorem Prepares.refl (tree : FileTree) (ways : List (List String)) : tree.Prepares tree start ways :=
  fun _ => .inl rfl

/-- Files that are written after the directories were made touch no place but their own. -/
theorem Prepares.node?_of_writes {prepared : FileTree} {ways : List (List String)} {files : List (String × List UInt8)}
    (prepares : tree.Prepares prepared start ways) (writes : prepared.Writes files later) {place : List String}
    (untouched : ∀ file ∈ files, later.locate file.1 ≠ .ok place) :
    later.node? place = tree.node? place ∨
      tree.node? place = none ∧ later.node? place = some .directory ∧
        ∃ way ∈ ways, later.walk start way = .ok place := by
  rw [writes.node?_of_ne untouched]
  obtain same | ⟨fresh, directory, way, member, leads⟩ := prepares place
  · exact .inl same
  · exact .inr ⟨fresh, directory, way, member, writes.walk leads⟩

theorem Prepares.cons {ways : List (List String)} (prepares : tree.Prepares later start ways)
    (segments : List String) : tree.Prepares later start (segments :: ways) := by
  intro place
  obtain kept | ⟨fresh, directory, way, member, leads⟩ := prepares place
  · exact .inl kept
  · exact .inr ⟨fresh, directory, way, .tail _ member, leads⟩

theorem Prepares.ensureDirectory {ways : List (List String)} (prepares : tree.Prepares later start ways)
    (segments : List String) : tree.Prepares (later.ensureDirectory start segments).2 start (segments :: ways) := by
  obtain same | ⟨target, walked, free, made⟩ := later.ensureDirectory_cases start segments
  · rw [same]
    exact prepares.cons segments
  · have passable : later.node? target ≠ some .directory := by simp [free]
    rw [made]
    intro place
    by_cases there : place = target
    · subst there
      have inside : place ≠ [] := by
        rintro rfl
        cases free
      have fresh : tree.node? place = none := by
        obtain kept | ⟨fresh, -⟩ := prepares place
        · exact kept.symm.trans free
        · exact fresh
      exact .inr ⟨fresh, node?_put_self later place _ inside, segments, .head _, walk_put passable _ walked⟩
    · rw [node?_put_of_ne later _ there]
      obtain kept | ⟨fresh, directory, way, member, leads⟩ := prepares place
      · exact .inl kept
      · exact .inr ⟨fresh, directory, way, .tail _ member, walk_put passable _ leads⟩

theorem prepares_makeInnermost (tree : FileTree) (start : List String) (ways : List (List String)) :
    tree.Prepares (tree.makeInnermost start ways).2 start ways := by
  induction ways with
  | nil => exact .refl tree []
  | cons segments around ih =>
    unfold makeInnermost
    split
    · split
      · rename_i failed
        rw [failed] at ih
        exact ih.cons segments
      · rename_i made
        rw [made] at ih
        exact ih.ensureDirectory segments
    · exact (Prepares.refl tree around).ensureDirectory segments

/-- Making directories fills free places on the way and touches nothing else, whether it succeeds or not. -/
theorem prepares_makeDirectories (tree : FileTree) (path : String) :
    tree.Prepares (tree.makeDirectories path).2 (tree.start path) (Path.ancestors (Path.segments path)) := by
  unfold makeDirectories
  split
  · exact .refl tree _
  · exact prepares_makeInnermost tree _ _

end Directories

end EffectLang.FileTree
