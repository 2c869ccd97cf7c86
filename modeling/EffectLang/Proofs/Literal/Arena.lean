import EffectLang.Literal.Arena
import EffectLang.Proofs.Blob.RoundTrip
import EffectLang.Proofs.Token.Numbers

/-!
A literal arena is a list of values that only grows and stops at one length. Its offsets and bytes stand for the values
that were added, up to the room that there is, and every answer of the arena can be read off that list. So whatever the
capacity is, it does what the literal table does. As long as the bytes end within the reach of an offset, each value is
found under its own index.
-/
namespace EffectLang

open LiteralTable (entrySize offsetCount)

namespace LiteralTable

/-- The table after some values have been added in turn. -/
def after (table : LiteralTable) (values : List Double) : LiteralTable :=
  values.foldl (fun table value => (table.add value).2) table

theorem get?_eq (table : LiteralTable) (index : UInt32) :
    table.get? index =
      if index.toNat < table.toList.length then table.toList[index.toNat % offsetCount]? else none := by
  rw [get?, toList, Array.length_toList, Array.getElem?_toList]

variable (capacity : Capacity)

/-- A table holds the first of the values that were added, as many as it has room for. -/
theorem toList_after (values : List Double) :
    ((empty capacity).after values).capacity = capacity ∧
      ((empty capacity).after values).toList = values.take capacity.room := by
  induction values using List.reverseRecOn with
  | nil =>
    rw [List.take_nil]
    exact ⟨rfl, rfl⟩
  | append_singleton values value ih =>
    obtain ⟨same, kept⟩ := ih
    have last : (empty capacity).after (values ++ [value]) = (((empty capacity).after values).add value).2 :=
      List.foldl_concat _ _ _ _
    rw [last, capacity_add, toList_add_of_take (by rw [same, kept]), same]
    exact ⟨rfl, rfl⟩

end LiteralTable

namespace LiteralArena

/-- The arena after some values have been added in turn. -/
def after (arena : LiteralArena) (values : List Double) : LiteralArena :=
  values.foldl (fun arena value => (arena.add value).2) arena

@[simp] theorem capacity_add (arena : LiteralArena) (value : Double) :
    (arena.add value).2.capacity = arena.capacity := by
  unfold add
  split
  · rfl
  · split <;> rfl

theorem length_of_mem_entries {values : List Double} : ∀ bytes ∈ values.map entryBytes, bytes.length = entrySize := by
  intro bytes member
  obtain ⟨value, -, rfl⟩ := List.mem_map.mp member
  exact length_littleEndian entrySize value.bits.toNat

theorem ofEntryBytes_entryBytes (value : Double) : ofEntryBytes (entryBytes value) = value := by
  have bound : value.bits.toNat < 256 ^ entrySize := value.bits.toNat_lt
  rw [ofEntryBytes, entryBytes, ofLittleEndian_littleEndian bound, UInt64.ofNat_toNat]

/-- The values that an arena stands for: their bytes one behind the other, and the offset of each. -/
structure Holds (arena : LiteralArena) (values : List Double) : Prop where
  offsets : arena.offsets.toList = (List.range values.length).map fun index => UInt32.ofNat (entrySize * index)
  data : arena.data.toList = (values.map entryBytes).flatten

theorem holds_empty (capacity : LiteralTable.Capacity) : (empty capacity).Holds [] :=
  ⟨rfl, rfl⟩

section Held

variable {arena : LiteralArena} {values : List Double} (holds : arena.Holds values)

include holds

theorem Holds.size_offsets : arena.offsets.size = values.length := by
  rw [← Array.length_toList, holds.offsets, List.length_map, List.length_range]

theorem Holds.size_data : arena.data.size = entrySize * values.length := by
  have widths : (values.map entryBytes).map List.length = (values.map entryBytes).map fun _ => entrySize :=
    List.map_congr_left length_of_mem_entries
  rw [← Array.length_toList, holds.data, List.length_flatten, widths, List.map_const', List.length_map,
    List.sum_replicate, smul_eq_mul, Nat.mul_comm]

/-- With room for it, a value goes behind the others and is named by their number. -/
theorem Holds.add_of_room (room : values.length < arena.capacity.room) (value : Double) :
    (arena.add value).1 = UInt32.ofNat values.length ∧ (arena.add value).2.Holds (values ++ [value]) := by
  obtain ⟨entries, bytes⟩ := (arena.capacity.holds_iff _).mpr (Nat.succ_le_of_lt room)
  rw [Nat.mul_succ] at bytes
  have entry : ¬arena.capacity.maxEntries ≤ arena.offsets.size := by
    rw [holds.size_offsets]
    omega
  have fits : ¬arena.capacity.maxBytes < arena.data.size + entrySize := by
    rw [holds.size_data]
    omega
  rw [add, if_neg entry, if_neg fits]
  refine ⟨congrArg UInt32.ofNat holds.size_offsets, ?_, ?_⟩
  · simp only [Array.toList_push, holds.offsets, holds.size_data, List.length_append, List.length_singleton,
      List.range_succ, List.map_append, List.map_singleton]
  · simp only [Array.toList_appendList, holds.data, List.map_append, List.map_singleton, List.flatten_append,
      List.flatten_singleton]

theorem Holds.add_of_full (full : arena.capacity.room ≤ values.length) (value : Double) :
    arena.add value = (noIndex, arena) := by
  have past : ¬arena.capacity.Holds (values.length + 1) := by
    rw [LiteralTable.Capacity.holds_iff]
    omega
  rw [add]
  split_ifs with entries bytes
  · rfl
  · rfl
  · rw [holds.size_offsets] at entries
    rw [holds.size_data] at bytes
    exact absurd ⟨by omega, by rw [Nat.mul_succ]; omega⟩ past

theorem Holds.entryAt?_eq {place : Nat} {value : Double} (found : values[place]? = some value) :
    arena.entryAt? (entrySize * place) = some (entryBytes value) := by
  obtain ⟨inside, -⟩ := List.getElem?_eq_some_iff.mp found
  have ends : entrySize * place + entrySize ≤ arena.data.size := by
    rw [holds.size_data]
    exact Nat.mul_le_mul_left entrySize inside
  have listed : (values.map entryBytes)[place]? = some (entryBytes value) := by
    rw [List.getElem?_map, found]
    rfl
  rw [entryAt?, if_pos ends, Array.toList_extract, List.extract_eq_take_drop, Nat.add_sub_cancel_left, holds.data,
    take_drop_flatten length_of_mem_entries listed]

/-- An entry is found where its offset leads. Offsets come round, so that is the place of the first entry with the
same offset. -/
theorem Holds.get?_eq (index : UInt32) :
    arena.get? index = if index.toNat < values.length then values[index.toNat % offsetCount]? else none := by
  have named : arena.offsets[index.toNat]? =
      if index.toNat < values.length then some (UInt32.ofNat (entrySize * index.toNat)) else none := by
    rw [← Array.getElem?_toList, holds.offsets, List.getElem?_map]
    by_cases inside : index.toNat < values.length
    · simp [inside]
    · simp [inside]
  rw [get?, named]
  split
  · rename_i inside
    have place : index.toNat % offsetCount < values.length := Nat.lt_of_le_of_lt (Nat.mod_le _ _) inside
    have found : values[index.toNat % offsetCount]? = some values[index.toNat % offsetCount] :=
      List.getElem?_eq_getElem place
    have wraps : (UInt32.ofNat (entrySize * index.toNat)).toNat = entrySize * (index.toNat % offsetCount) :=
      Nat.mul_mod_mul_left entrySize index.toNat offsetCount
    simp only [Option.bind_eq_bind, Option.bind_some, wraps, holds.entryAt?_eq found, ofEntryBytes_entryBytes, found]
  · rfl

/-- An offset is exact while the bytes end within its reach, so it leads back to the value. -/
theorem Holds.get?_of_reach (reach : entrySize * values.length ≤ 2 ^ 32) (index : UInt32) :
    arena.get? index = values[index.toNat]? := by
  have few : 8 * values.length ≤ 2 ^ 32 := reach
  have count : offsetCount = 2 ^ 29 := rfl
  rw [holds.get?_eq]
  split
  · rw [Nat.mod_eq_of_lt (by omega)]
  · rename_i outside
    exact (List.getElem?_eq_none (Nat.le_of_not_lt outside)).symm

theorem Holds.last?_eq (reach : entrySize * values.length ≤ 2 ^ 32) : arena.last? = values.getLast? := by
  rw [last?, lastIndex?, holds.size_offsets]
  split
  · rename_i nothing
    rw [List.eq_nil_of_length_eq_zero nothing]
    rfl
  · have fewer : values.length ≤ entrySize * values.length := Nat.le_mul_of_pos_left _ (by decide)
    have exact : (UInt32.ofNat (values.length - 1)).toNat = values.length - 1 :=
      UInt32.toNat_ofNat_of_lt' (by simp only [UInt32.size]; omega)
    rw [Option.bind_some, holds.get?_of_reach reach, exact, List.getLast?_eq_getElem?]

end Held

/-- An arena that stands for the values of a table. -/
structure Mirrors (arena : LiteralArena) (table : LiteralTable) : Prop where
  capacity : arena.capacity = table.capacity
  holds : arena.Holds table.toList

theorem Mirrors.size_eq {arena : LiteralArena} {table : LiteralTable} (mirrors : arena.Mirrors table) :
    arena.offsets.size = table.values.size :=
  mirrors.holds.size_offsets.trans Array.length_toList

theorem Mirrors.add {arena : LiteralArena} {table : LiteralTable} (mirrors : arena.Mirrors table) (value : Double) :
    (arena.add value).1 = (table.add value).1 ∧
      (arena.add value).2.Mirrors (table.add value).2 := by
  have same := mirrors.capacity
  have counted : table.toList.length = table.size := Array.length_toList
  have room := table.hasRoom_iff_lt
  cases left : table.hasRoom with
  | true =>
    have less : table.toList.length < arena.capacity.room := by rwa [counted, same, ← room]
    obtain ⟨index, holds⟩ := mirrors.holds.add_of_room less value
    rw [counted] at index
    have grown : (table.add value).2.toList = table.toList ++ [value] := by rw [LiteralTable.toList_add, if_pos left]
    refine ⟨?_, ?_, ?_⟩
    · rw [index, LiteralTable.add_of_room left]
      rfl
    · rw [capacity_add, LiteralTable.capacity_add, same]
    · rwa [grown]
  | false =>
    have full : arena.capacity.room ≤ table.toList.length := by
      rw [left] at room
      rw [counted, same]
      exact Nat.le_of_not_lt fun less => Bool.false_ne_true (room.mpr less)
    rw [mirrors.holds.add_of_full full value, LiteralTable.add_of_full left]
    exact ⟨rfl, mirrors⟩

theorem Mirrors.after {arena : LiteralArena} {table : LiteralTable} (mirrors : arena.Mirrors table)
    (values : List Double) : (arena.after values).Mirrors (table.after values) := by
  induction values generalizing arena table with
  | nil => exact mirrors
  | cons value values ih => exact ih (mirrors.add value).2

theorem mirrors_empty (capacity : LiteralTable.Capacity) : (empty capacity).Mirrors (.empty capacity) :=
  ⟨rfl, holds_empty capacity⟩

/-- An arena that gives the answers of a table. -/
structure AnswersAs (arena : LiteralArena) (table : LiteralTable) : Prop where
  size : arena.size = table.size
  isEmpty : arena.isEmpty = table.isEmpty
  lastIndex? : arena.lastIndex? = table.lastIndex?
  last? : arena.last? = table.last?
  get? : ∀ index, arena.get? index = table.get? index
  add : ∀ value, (arena.add value).1 = (table.add value).1

theorem Mirrors.answersAs {arena : LiteralArena} {table : LiteralTable} (mirrors : arena.Mirrors table) :
    arena.AnswersAs table := by
  have gets (index : UInt32) : arena.get? index = table.get? index := by
    rw [mirrors.holds.get?_eq, LiteralTable.get?_eq]
  have last : arena.lastIndex? = table.lastIndex? := by
    rw [lastIndex?, LiteralTable.lastIndex?, mirrors.size_eq]
  exact
    { size := mirrors.size_eq
      isEmpty := congrArg (fun count => decide (count = 0)) mirrors.size_eq
      lastIndex? := last
      last? := by rw [last?, LiteralTable.last?, last, funext gets]
      get? := gets
      add := fun value => (mirrors.add value).1 }

variable {capacity : LiteralTable.Capacity}

theorem mirrors_after (capacity : LiteralTable.Capacity) (values : List Double) :
    ((empty capacity).after values).Mirrors ((LiteralTable.empty capacity).after values) :=
  (mirrors_empty capacity).after values

theorem holds_after (capacity : LiteralTable.Capacity) (values : List Double) :
    ((empty capacity).after values).Holds (values.take capacity.room) := by
  rw [← (LiteralTable.toList_after capacity values).2]
  exact (mirrors_after capacity values).holds

theorem reach_of_room (small : capacity.maxBytes ≤ 2 ^ 32) {count : Nat} (few : count ≤ capacity.room) :
    entrySize * count ≤ 2 ^ 32 :=
  Nat.le_trans ((capacity.holds_iff count).mpr few).2 small

theorem lt_noIndex_of_room (small : capacity.maxBytes ≤ 2 ^ 32) {count : Nat} (few : count ≤ capacity.room) :
    count < noIndex.toNat := by
  have reach : 8 * count ≤ 2 ^ 32 := reach_of_room small few
  have greatest : noIndex.toNat = 2 ^ 32 - 1 := rfl
  omega

/-- The next call: with room the index is the number of calls before, and else nothing changes. -/
theorem add_after (small : capacity.maxBytes ≤ 2 ^ 32) (values : List Double) (value : Double) :
    (values.length < capacity.room → (((empty capacity).after values).add value).1.toNat = values.length) ∧
      (capacity.room ≤ values.length →
        ((empty capacity).after values).add value = (noIndex, (empty capacity).after values)) := by
  have held := holds_after capacity values
  have same : ((empty capacity).after values).capacity = capacity := by
    rw [(mirrors_after capacity values).capacity, (LiteralTable.toList_after capacity values).1]
  constructor
  · intro room
    rw [List.take_of_length_le room.le] at held
    rw [(held.add_of_room (by rwa [same]) value).1]
    exact UInt32.toNat_ofNat_of_lt' (Nat.lt_trans (lt_noIndex_of_room small room.le) (by decide))
  · intro full
    exact held.add_of_full (by rw [same, List.length_take, Nat.min_eq_left full]) value

/-- An arena whose bytes are within the reach of an offset keeps the first values that are added, bit for bit, up to one
length; the calls past it are refused and change nothing. The table does the same. -/
theorem arena_keeps_first (small : capacity.maxBytes ≤ 2 ^ 32) (values : List Double) :
    let room := min capacity.maxEntries (capacity.maxBytes / 8)
    let arena := (empty capacity).after values
    (∀ before value later, values = before ++ value :: later →
      let reached := (empty capacity).after before
      (before.length < room → (reached.add value).1.toNat = before.length) ∧
        (room ≤ before.length → reached.add value = (noIndex, reached))) ∧
      arena.size = min values.length room ∧
      (∀ index : UInt32, arena.get? index = if index.toNat < arena.size then values[index.toNat]? else none) ∧
      arena.get? noIndex = none ∧
      arena.last? = (if arena.size = 0 then none else values[arena.size - 1]?) ∧
      arena.AnswersAs ((LiteralTable.empty capacity).after values) := by
  intro room arena
  have held : arena.Holds (values.take room) := holds_after capacity values
  have few : (values.take room).length ≤ room := by
    rw [List.length_take]
    exact Nat.min_le_left _ _
  have reach := reach_of_room small few
  have size : arena.size = min values.length room := by
    rw [LiteralArena.size, held.size_offsets, List.length_take, Nat.min_comm]
  have got (index : UInt32) : arena.get? index = if index.toNat < arena.size then values[index.toNat]? else none := by
    rw [held.get?_of_reach reach, List.getElem?_take, size]
    grind
  refine ⟨fun before value later _ => add_after small before value, size, got, ?_, ?_, ?_⟩
  · have beyond : ¬noIndex.toNat < arena.size := by
      have below := lt_noIndex_of_room small (show arena.size ≤ capacity.room from size ▸ Nat.min_le_right _ _)
      omega
    rw [got, if_neg beyond]
  · rw [held.last?_eq reach, List.getLast?_eq_getElem?, List.length_take, List.getElem?_take, Nat.min_comm, ← size]
    grind
  · exact (mirrors_after capacity values).answersAs

/-- Entries for three values and bytes for two and a half: a NaN keeps its payload, and a negative zero is refused. -/
theorem arena_keeps_first_two :
    let capacity : LiteralTable.Capacity := ⟨3, 20⟩
    let first : Double := ⟨0x3FF8000000000000⟩
    let second : Double := ⟨0x7FF8000000000001⟩
    let third : Double := ⟨0x8000000000000000⟩
    let arena := (empty capacity).after [first, second, third]
    let reached := (empty capacity).after [first, second]
    capacity.maxBytes ≤ 2 ^ 32 ∧ (((empty capacity).after [first]).add second).1.toNat = 1 ∧
      reached.add third = (noIndex, reached) ∧ arena.size = 2 ∧ arena.get? 0 = some first ∧
      arena.get? 1 = some second ∧ arena.get? 2 = none ∧ arena.get? noIndex = none ∧ arena.last? = some second := by
  intro capacity first second third arena reached
  have small : capacity.maxBytes ≤ 2 ^ 32 := by decide
  obtain ⟨calls, counted, got, refused, last, -⟩ := arena_keeps_first small [first, second, third]
  have size : arena.size = 2 := counted.trans (by decide)
  rw [size] at got last
  exact ⟨small, (calls [first] second [third] rfl).1 (by decide), (calls [first, second] third [] rfl).2 (by decide),
    size, got 0, got 1, got 2, refused, last⟩

end LiteralArena

end EffectLang
