import EffectLang.Blob.Codec
import EffectLang.Literal.Table

/-!
Literal arenas: a literal table as it lies in memory. The values stand one behind the other as bytes, the lowest byte
of each first, and a list of 32-bit offsets tells where they start. An entry is named by its place in that list.
-/
namespace EffectLang

/-- The bytes of some values, where each of them starts, and how much there is room for. -/
structure LiteralArena where
  capacity : LiteralTable.Capacity := {}
  offsets : Array UInt32 := #[]
  data : Array UInt8 := #[]
deriving DecidableEq, Repr, Inhabited

namespace LiteralArena

open LiteralTable (entrySize)

def empty (capacity : LiteralTable.Capacity) : LiteralArena :=
  ⟨capacity, #[], #[]⟩

def entryBytes (value : Double) : List UInt8 :=
  littleEndian entrySize value.bits.toNat

def ofEntryBytes (bytes : List UInt8) : Double :=
  ⟨UInt64.ofNat (ofLittleEndian bytes)⟩

/-- Adds a value and gives its index. Without an entry or bytes for it the arena stays as it is, and the answer is no
index. -/
def add (arena : LiteralArena) (value : Double) : UInt32 × LiteralArena :=
  if arena.capacity.maxEntries ≤ arena.offsets.size then (noIndex, arena)
  else if arena.capacity.maxBytes < arena.data.size + entrySize then (noIndex, arena)
  else
    (UInt32.ofNat arena.offsets.size,
      { arena with
        offsets := arena.offsets.push (UInt32.ofNat arena.data.size)
        data := arena.data ++ entryBytes value })

def entryAt? (arena : LiteralArena) (start : Nat) : Option (List UInt8) :=
  if start + entrySize ≤ arena.data.size then some (arena.data.extract start (start + entrySize)).toList else none

def get? (arena : LiteralArena) (index : UInt32) : Option Double := do
  let offset ← arena.offsets[index.toNat]?
  let bytes ← arena.entryAt? offset.toNat
  some (ofEntryBytes bytes)

def size (arena : LiteralArena) : Nat :=
  arena.offsets.size

def isEmpty (arena : LiteralArena) : Bool :=
  arena.offsets.isEmpty

def lastIndex? (arena : LiteralArena) : Option UInt32 :=
  if arena.offsets.size = 0 then none else some (UInt32.ofNat (arena.offsets.size - 1))

def last? (arena : LiteralArena) : Option Double :=
  arena.lastIndex?.bind arena.get?

end LiteralArena

end EffectLang
