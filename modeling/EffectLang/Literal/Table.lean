import EffectLang.Effect.Basic

/-!
The literal table: the values of the numerals of one source, in order. It has room for a number of entries
and for a number of bytes, eight to an entry; a value that does not fit is dropped. Entries are named by 32-bit
indices and found at 32-bit offsets, so a table beyond their reach finds an earlier value in place of a later one.
-/
namespace EffectLang

structure LiteralTable.Capacity where
  maxEntries : Nat := 1024
  maxBytes : Nat := 8192
deriving DecidableEq, Repr, Inhabited

structure LiteralTable where
  capacity : LiteralTable.Capacity := {}
  values : Array Double := #[]
deriving DecidableEq, Repr, Inhabited

namespace LiteralTable

def entrySize : Nat := 8

/-- How many entries have an offset of their own; those behind them share theirs. -/
def offsetCount : Nat := 0x100000000 / entrySize

def empty (capacity : LiteralTable.Capacity) : LiteralTable :=
  ⟨capacity, #[]⟩

def hasRoom (table : LiteralTable) : Bool :=
  decide (table.values.size < table.capacity.maxEntries)
    && decide (entrySize * table.values.size + entrySize ≤ table.capacity.maxBytes)

/-- Adds a value and gives its index. Without room the table stays as it is, and the index refers to nothing. -/
def add (table : LiteralTable) (value : Double) : UInt32 × LiteralTable :=
  if table.hasRoom then
    (UInt32.ofNat table.values.size, { table with values := table.values.push value })
  else
    (noIndex, table)

def get? (table : LiteralTable) (index : UInt32) : Option Double :=
  if index.toNat < table.values.size then table.values[index.toNat % offsetCount]? else none

def valueAt? (table : LiteralTable) (index : UInt32) : Option Double :=
  if index = noIndex then none else table.get? index

def size (table : LiteralTable) : Nat :=
  table.values.size

def isEmpty (table : LiteralTable) : Bool :=
  table.values.isEmpty

def lastIndex? (table : LiteralTable) : Option UInt32 :=
  if table.values.size = 0 then none else some (UInt32.ofNat (table.values.size - 1))

def last? (table : LiteralTable) : Option Double :=
  table.lastIndex?.bind table.get?

def toList (table : LiteralTable) : List Double :=
  table.values.toList

@[simp] theorem toList_empty (capacity : LiteralTable.Capacity) : (empty capacity).toList = [] := rfl

theorem toList_add (table : LiteralTable) (value : Double) :
    (table.add value).2.toList = if table.hasRoom then table.toList ++ [value] else table.toList := by
  unfold add
  split <;> simp [toList]

@[simp] theorem capacity_add (table : LiteralTable) (value : Double) :
    (table.add value).2.capacity = table.capacity := by
  unfold add
  split <;> rfl

theorem add_of_room {table : LiteralTable} (room : table.hasRoom = true) (value : Double) :
    table.add value = (UInt32.ofNat table.values.size, { table with values := table.values.push value }) :=
  if_pos room

theorem add_of_full {table : LiteralTable} (full : table.hasRoom = false) (value : Double) :
    table.add value = (noIndex, table) := by
  simp only [add, full, Bool.false_eq_true, if_false]

theorem valueAt?_noIndex (table : LiteralTable) : table.valueAt? noIndex = none :=
  if_pos rfl

/-- What is found under the index of a value that was just added: the value at the place that its offset leads to. -/
theorem valueAt?_add {table : LiteralTable} (room : table.hasRoom = true) (named : table.size < noIndex.toNat)
    (value : Double) :
    (table.add value).2.valueAt? (table.add value).1 = (table.toList ++ [value])[table.size % offsetCount]? := by
  have size : (UInt32.ofNat table.values.size).toNat = table.values.size :=
    UInt32.toNat_ofNat_of_lt' (Nat.lt_trans named (by decide))
  have other : UInt32.ofNat table.values.size ≠ noIndex := by
    intro same
    rw [← same, size] at named
    exact Nat.lt_irrefl _ named
  have inside : table.values.size < (table.values.push value).size := by
    rw [Array.size_push]
    exact Nat.lt_succ_self _
  rw [add_of_room room, valueAt?, if_neg other, get?, size, if_pos inside, ← Array.getElem?_toList, Array.toList_push]
  rfl

theorem valueAt?_add_of_lt {table : LiteralTable} (room : table.hasRoom = true) (exact : table.size < offsetCount)
    (value : Double) : (table.add value).2.valueAt? (table.add value).1 = some value := by
  rw [valueAt?_add room (Nat.lt_trans exact (by decide)), Nat.mod_eq_of_lt exact]
  exact List.getElem?_concat_length

end LiteralTable

end EffectLang
