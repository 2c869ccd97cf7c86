import EffectLang.Proofs.Token.SideBySide

/-!
The numbers of a source and the literal table. A table that was given the values of some numbers in order holds the
first of them, as many as it has room for.
-/
namespace EffectLang

namespace Token

def isNumber (token : Token) : Bool :=
  token.kind == .number

/-- The value that the text of a number spells. -/
def value (token : Token) : Double :=
  (Numeral.scan token.text.toList).1.value

/-- The numbers of a source, among its plain tokens. -/
def numbersIn (source : String) : List Token :=
  (Cursor.start source.toList).tokens.filter isNumber

theorem isNumber_iff {token : Token} : token.isNumber = true ↔ token.kind = .number :=
  beq_iff_eq

end Token

namespace LiteralTable

/-- How many values fit: one for each entry that has its bytes. -/
def Capacity.room (capacity : Capacity) : Nat :=
  min capacity.maxEntries (capacity.maxBytes / entrySize)

/-- How many values come before the first one that seems to be missing. With room beyond all indices that is the value
whose index is the one which refers to nothing. -/
def Capacity.sure (capacity : Capacity) : Nat :=
  min capacity.room noIndex.toNat

theorem Capacity.sure_eq_room {capacity : Capacity} (small : capacity.maxBytes ≤ 2 ^ 32) :
    capacity.sure = capacity.room := by
  have fewer : capacity.room ≤ capacity.maxBytes / 8 := Nat.min_le_right _ _
  have greatest : noIndex.toNat = 2 ^ 32 - 1 := rfl
  rw [sure]
  omega

theorem Capacity.holds_iff (capacity : Capacity) (count : Nat) : capacity.Holds count ↔ count ≤ capacity.room := by
  have positive : 0 < entrySize := by decide
  rw [Holds, room, Nat.le_min, Nat.le_div_iff_mul_le positive, Nat.mul_comm]

theorem hasRoom_iff_lt (table : LiteralTable) : table.hasRoom = true ↔ table.size < table.capacity.room := by
  rw [hasRoom_iff, Capacity.holds_iff, Nat.succ_le_iff]

/-- A value that is added seems to be missing when there was no room for it, or no index but the one that refers to
nothing. -/
theorem valueAt?_add_eq_none_iff (table : LiteralTable) (value : Double) :
    (table.add value).2.valueAt? (table.add value).1 = none ↔
      table.capacity.room ≤ table.size ∨ UInt32.ofNat table.size = noIndex := by
  have room := table.hasRoom_iff_lt
  cases left : table.hasRoom with
  | true =>
    have inside : (UInt32.ofNat table.values.size).toNat < table.values.size + 1 :=
      Nat.lt_succ_of_le (Nat.mod_le _ _)
    have under : (UInt32.ofNat table.values.size).toNat % offsetCount < table.values.size + 1 :=
      Nat.lt_of_le_of_lt (Nat.mod_le _ _) inside
    have there : (table.values.push value)[(UInt32.ofNat table.values.size).toNat % offsetCount]? ≠ none := by
      rw [ne_eq, Array.getElem?_eq_none_iff, Array.size_push]
      exact Nat.not_le.mpr under
    rw [add_of_room left, valueAt?, ite_eq_left_iff, get?, Array.size_push, if_pos inside]
    constructor
    · intro missing
      by_contra other
      exact there (missing fun same => other (.inr same))
    · rintro (full | same) other
      · exact absurd (room.mp left) (Nat.not_lt.mpr full)
      · exact absurd same other
  | false =>
    rw [left] at room
    have full : table.capacity.room ≤ table.size := by simpa using room
    rw [add_of_full left, valueAt?_noIndex]
    exact iff_of_true rfl (.inl full)

variable {table : LiteralTable} {values : List Double}

theorem size_of_take (kept : table.toList = values.take table.capacity.room) :
    table.size = min table.capacity.room values.length := by
  rw [← List.length_take, ← kept]
  exact Array.length_toList.symm

/-- A table that holds the first of some values holds the first of these and one more, when that is added. -/
theorem toList_add_of_take (kept : table.toList = values.take table.capacity.room) (value : Double) :
    (table.add value).2.toList = (values ++ [value]).take table.capacity.room := by
  have size := size_of_take kept
  rw [toList_add]
  split
  · rename_i room
    have short : values.length < table.capacity.room := by
      have less := (hasRoom_iff_lt table).mp room
      omega
    rw [kept, List.take_of_length_le short.le, List.take_of_length_le]
    simpa using short
  · rename_i full
    have long : table.capacity.room ≤ values.length := by
      have reached := mt (hasRoom_iff_lt table).mpr full
      omega
    rw [kept, List.take_append_of_le_length long]

end LiteralTable

namespace Reader

/-- The numbers among the tokens that lie ahead. -/
def numbersLeft (reader : Reader) : List Token :=
  reader.ahead.filter Token.isNumber

variable {reader : Reader}

theorem numbersLeft_congr {later : Reader} (same : later.cursor = reader.cursor) :
    later.numbersLeft = reader.numbersLeft := by
  rw [numbersLeft, numbersLeft, ahead, ahead, same]

theorem numbersLeft_of_end (ended : reader.next.1.kind = .endOfStream) : reader.numbersLeft = [] := by
  have other : reader.next.1.isNumber = false := by rw [Token.isNumber, ended]; rfl
  rw [numbersLeft, ahead_of_end ended, List.filter_singleton, other]
  rfl

theorem numbersLeft_eq (reader : Reader) :
    reader.numbersLeft = [reader.next.1].filter Token.isNumber ++ reader.next.2.numbersLeft := by
  by_cases ended : reader.next.1.kind = .endOfStream
  · have again : reader.next.2.numbersLeft = [] := numbersLeft_of_end (next_again ended ▸ ended)
    rw [again, List.append_nil, numbersLeft, ahead_of_end ended]
  · rw [numbersLeft, numbersLeft, ahead_of_more ended, ← List.filter_append]
    rfl

theorem next_of_number (number : reader.next.1.kind = .number) :
    reader.next.2.literals = (reader.literals.add reader.next.1.value).2 ∧
      reader.next.2.lastLiteral = (reader.literals.add reader.next.1.value).1 := by
  rw [next_eq_keep, Token.numeral?, if_pos number]
  exact ⟨rfl, rfl⟩

theorem literals_next_of_other (other : reader.next.1.kind ≠ .number) : reader.next.2.literals = reader.literals := by
  rw [next_eq_keep, Token.numeral?, if_neg other]
  rfl

theorem size_next_le (reader : Reader) :
    reader.next.2.literals.size ≤ reader.literals.size + ([reader.next.1].filter Token.isNumber).length := by
  by_cases number : reader.next.1.kind = .number
  · rw [(next_of_number number).1, List.filter_singleton, Token.isNumber_iff.mpr number]
    exact reader.literals.size_add_le _
  · rw [literals_next_of_other number]
    exact Nat.le_add_right _ _

/-- A reader that holds the values of some numbers holds those of these and the number ahead, when it goes on. -/
theorem toList_next_of_take {numbers : List Token} {room : Nat} (room_eq : reader.literals.capacity.room = room)
    (kept : reader.literals.toList = (numbers.map Token.value).take room) :
    reader.next.2.literals.toList =
      ((numbers ++ [reader.next.1].filter Token.isNumber).map Token.value).take room := by
  subst room_eq
  by_cases number : reader.next.1.kind = .number
  · rw [(next_of_number number).1, List.filter_singleton, Token.isNumber_iff.mpr number,
      LiteralTable.toList_add_of_take kept]
    simp
  · have other : reader.next.1.isNumber = false := Bool.eq_false_iff.mpr (mt Token.isNumber_iff.mp number)
    rw [literals_next_of_other number, kept, List.filter_singleton, other]
    simp

theorem lastLiteral?_next_of_number (number : reader.next.1.kind = .number) :
    reader.next.2.lastLiteral? = (reader.literals.add reader.next.1.value).2.valueAt?
      (reader.literals.add reader.next.1.value).1 := by
  obtain ⟨literals, last⟩ := next_of_number number
  rw [lastLiteral?, literals, last]

theorem lastLiteral?_next_eq_none (number : reader.next.1.kind = .number) :
    reader.next.2.lastLiteral? = none ↔
      reader.literals.capacity.room ≤ reader.literals.size ∨ UInt32.ofNat reader.literals.size = noIndex := by
  rw [lastLiteral?_next_of_number number, LiteralTable.valueAt?_add_eq_none_iff]

theorem sure_le_of_missing (number : reader.next.1.kind = .number) (missing : reader.next.2.lastLiteral? = none) :
    reader.literals.capacity.sure ≤ reader.literals.size := by
  obtain full | last := (lastLiteral?_next_eq_none number).mp missing
  · exact Nat.le_trans (Nat.min_le_left _ _) full
  · rw [LiteralTable.Capacity.sure, ← last]
    exact Nat.le_trans (Nat.min_le_right _ _) (Nat.mod_le _ _)

end Reader

end EffectLang
