import EffectLang.Proofs.Document.Spelling

/-!
Readers that face a list of atoms. One step reads one atom and leaves the reader facing the others; nothing
is complained about, and a literal table that has room for all numbers of the source keeps room for those to
come.
-/
namespace EffectLang

namespace LiteralTable

/-- Whether a table holds a number of values. -/
def Capacity.Holds (capacity : Capacity) (count : Nat) : Prop :=
  count ≤ capacity.maxEntries ∧ entrySize * count ≤ capacity.maxBytes

theorem Capacity.Holds.of_le {capacity : Capacity} {few many : Nat} (holds : capacity.Holds many)
    (fewer : few ≤ many) : capacity.Holds few :=
  ⟨Nat.le_trans fewer holds.1, Nat.le_trans (Nat.mul_le_mul_left _ fewer) holds.2⟩

theorem hasRoom_iff (table : LiteralTable) : table.hasRoom = true ↔ table.capacity.Holds (table.size + 1) := by
  simp only [hasRoom, Capacity.Holds, size, Bool.and_eq_true, decide_eq_true_eq, Nat.mul_add, Nat.mul_one,
    Nat.succ_le_iff]

/-- A table whose bytes are within the reach of an offset finds every value that it has room for. -/
theorem lt_offsetCount_of_room {table : LiteralTable} (small : table.capacity.maxBytes ≤ 2 ^ 32)
    (room : table.hasRoom = true) : table.size < offsetCount := by
  have bytes : 8 * (table.size + 1) ≤ 2 ^ 32 := ((hasRoom_iff table).mp room).2.trans small
  have count : offsetCount = 2 ^ 29 := rfl
  omega

theorem size_add_le (table : LiteralTable) (value : Double) : (table.add value).2.size ≤ table.size + 1 := by
  unfold add
  split
  · simp [size]
  · exact Nat.le_succ _

end LiteralTable

namespace Cursor

theorem kind_of_scan {cursor : Cursor} {lexeme : Lexeme} (read : cursor.scan.lexeme = some lexeme) :
    cursor.scan.token.kind = lexeme.kind := by
  unfold scan readHere at read ⊢
  split
  · rename_i done
    simp [done] at read
  · rename_i found
    simp only [found, Option.some.injEq] at read
    rw [← read]

theorem more_of_scan {cursor : Cursor} {lexeme : Lexeme} (read : cursor.scan.lexeme = some lexeme) :
    cursor.scan.token.kind ≠ .endOfStream := by
  unfold scan readHere at read ⊢
  split
  · rename_i done
    simp [done] at read
  · rename_i found
    exact kind_ne_endOfStream found

theorem tokens_of_more {cursor : Cursor} (more : cursor.scan.token.kind ≠ .endOfStream) :
    cursor.tokens = cursor.scan.token :: cursor.scan.after.tokens := by
  rw [tokens]
  simp [more]

end Cursor

namespace Reader

/-- The numbers that are still to be read. -/
def numbersAhead (reader : Reader) : Nat :=
  reader.cursor.tokens.countP fun token => token.kind == .number

/-- The literal table has room for every number to come, and will find its value. -/
def Ample (reader : Reader) : Prop :=
  reader.literals.capacity.Holds (reader.literals.size + reader.numbersAhead) ∧
    reader.literals.size + reader.numbersAhead ≤ LiteralTable.offsetCount

theorem numbersAhead_next {reader : Reader} (more : reader.next.1.kind ≠ .endOfStream) :
    reader.numbersAhead = reader.next.2.numbersAhead + if reader.next.1.kind == .number then 1 else 0 := by
  unfold numbersAhead
  rw [Cursor.tokens_of_more more, List.countP_cons]
  rfl

theorem capacity_keep (reader : Reader) (lexeme : Option Lexeme) :
    (reader.keep lexeme).literals.capacity = reader.literals.capacity := by
  unfold keep
  split <;> simp

theorem error_keep (reader : Reader) (lexeme : Option Lexeme) : (reader.keep lexeme).error = reader.error := by
  unfold keep
  split <;> rfl

theorem size_keep_le (reader : Reader) (lexeme : Lexeme) :
    (reader.keep (some lexeme)).literals.size ≤
      reader.literals.size + if lexeme.kind == .number then 1 else 0 := by
  cases lexeme with
  | number numeral => exact reader.literals.size_add_le numeral.value
  | _ => exact Nat.le_add_right _ _

theorem Ample.next {reader : Reader} {lexeme : Lexeme} (ample : reader.Ample)
    (read : reader.cursor.scan.lexeme = some lexeme) : reader.next.2.Ample := by
  have ahead := numbersAhead_next (Cursor.more_of_scan read)
  have kept := reader.size_keep_le lexeme
  rw [show reader.next.1.kind = lexeme.kind from Cursor.kind_of_scan read] at ahead
  have literals : reader.next.2.literals = (reader.keep (some lexeme)).literals := by
    simp only [Reader.next, read]
  unfold Ample at ample ⊢
  rw [literals, capacity_keep]
  exact ⟨ample.1.of_le (by omega), by omega⟩

theorem lastLiteral?_next {reader : Reader} {numeral : Numeral}
    (read : reader.cursor.scan.lexeme = some (.number numeral))
    (found : reader.Ample ∨ reader.literals.capacity.maxBytes ≤ 2 ^ 32) :
    reader.next.2.lastLiteral? = some numeral.value ∨
      reader.next.2.lastLiteral? = none ∧ ¬reader.Ample := by
  have kind : reader.next.1.kind = .number := Cursor.kind_of_scan read
  have ahead := numbersAhead_next (Cursor.more_of_scan read)
  rw [kind] at ahead
  simp only [BEq.rfl, if_true] at ahead
  have kept : reader.next.2.lastLiteral? =
      (reader.literals.add numeral.value).2.valueAt? (reader.literals.add numeral.value).1 := by
    simp only [lastLiteral?, Reader.next, read, keep]
  rw [kept]
  by_cases room : reader.literals.hasRoom = true
  · left
    apply LiteralTable.valueAt?_add_of_lt room
    rcases found with ⟨-, few⟩ | small
    · omega
    · exact LiteralTable.lt_offsetCount_of_room small room
  · right
    refine ⟨?_, fun ample => room ((LiteralTable.hasRoom_iff _).mpr (ample.1.of_le (by omega)))⟩
    rw [LiteralTable.add_of_full (Bool.eq_false_iff.mpr room)]
    exact LiteralTable.valueAt?_noIndex _

/-- A reader without complaints. When `enough` holds, its literal table has room for all numbers to come, and otherwise
it at least finds the values that it has room for. -/
structure Steady (enough : Prop) (reader : Reader) : Prop where
  calm : reader.error = none
  ample : enough → reader.Ample
  found : enough ∨ reader.literals.capacity.maxBytes ≤ 2 ^ 32

theorem Steady.next {enough : Prop} {reader : Reader} {lexeme : Lexeme} (steady : reader.Steady enough)
    (read : reader.cursor.scan.lexeme = some lexeme) : reader.next.2.Steady enough where
  calm := (reader.error_keep _).trans steady.calm
  ample holds := (steady.ample holds).next read
  found := steady.found.imp id fun small => (reader.capacity_keep _).symm ▸ small

/-- A steady reader that stands before a text in which the given atoms are written. -/
structure Facing (enough : Prop) (reader : Reader) (atoms : List Source.Atom) : Prop where
  steady : reader.Steady enough
  written : ∃ before rest, reader.Placed before rest ∧ Source.Layout atoms rest

section Steps

variable {enough : Prop} {reader : Reader} {atoms : List Source.Atom}

theorem Facing.next_end (facing : reader.Facing enough []) :
    reader.next.1.kind = .endOfStream ∧ reader.next.2.error = none := by
  obtain ⟨before, rest, placed, run⟩ := facing.written
  cases run with
  | nil run =>
    have step := (placed.next_end run).1
    rw [step]
    exact ⟨rfl, facing.steady.calm⟩

theorem Placed.next_of_spells {atom : Source.Atom} {lexeme : Lexeme} {before gap rest : List Char}
    (placed : reader.Placed before (gap ++ (atom.chars ++ rest))) (complete : Trivia.Gap gap)
    (ends : atom.EndsBefore rest) (spells : atom.Spells lexeme) :
    reader.cursor.scan.lexeme = some lexeme ∧ reader.next.1.kind = lexeme.kind ∧
      reader.next.1.text = String.ofList lexeme.text ∧
      reader.next.1.offset = Utf8.byteLength (before ++ gap) + lexeme.margin ∧
      reader.next.2.Placed (before ++ (gap ++ atom.chars)) rest := by
  have stuck := spells.stuck rest
  have read := Lexeme.read?_append spells.read (spells.ends rest ends)
  rw [← spells.chars_eq] at placed stuck read ⊢
  have scanned := Cursor.scan_of_read placed.place.rest (complete _) stuck read
  obtain ⟨step, later⟩ := placed.next_read (complete _) stuck read
  exact ⟨by rw [scanned], by rw [step], by rw [step], by rw [step], later⟩

theorem Placed.next_mark (mark : Source.Mark) {before gap rest : List Char}
    (placed : reader.Placed before (gap ++ mark.char :: rest)) (complete : Trivia.Gap gap) :
    reader.cursor.scan.lexeme = some (.mark mark.kind mark.char) ∧ reader.next.1.kind = mark.kind ∧
      reader.next.1.text = String.ofList [mark.char] ∧ reader.next.1.offset = Utf8.byteLength (before ++ gap) ∧
      reader.next.2.Placed (before ++ (gap ++ [mark.char])) rest := by
  have ends : (Source.Atom.mark mark).EndsBefore rest := trivial
  exact Placed.next_of_spells placed complete ends (Source.Atom.spells_mark mark)

theorem Facing.next_of_spells {atom : Source.Atom} {lexeme : Lexeme}
    (facing : reader.Facing enough (atom :: atoms)) (spells : atom.Spells lexeme) :
    reader.cursor.scan.lexeme = some lexeme ∧ reader.next.1.kind = lexeme.kind ∧
      reader.next.1.text = String.ofList lexeme.text ∧ reader.next.2.Facing enough atoms := by
  obtain ⟨before, rest, placed, layout⟩ := facing.written
  cases layout with
  | cons complete ends last =>
    obtain ⟨lexed, kind, text, -, later⟩ := placed.next_of_spells complete ends spells
    exact ⟨lexed, kind, text, facing.steady.next lexed, _, _, later, last⟩

theorem Facing.next_word {word : Source.Word} (facing : reader.Facing enough (.word word :: atoms)) :
    reader.next.1.kind = .identifier ∧ reader.next.1.text = word.text ∧ reader.next.2.Facing enough atoms :=
  (facing.next_of_spells (Source.Atom.spells_word word)).2

theorem Facing.next_label {label : Source.Label} (facing : reader.Facing enough (.label label :: atoms)) :
    reader.next.1.kind = .string ∧ reader.next.1.text = label.text ∧ reader.next.2.Facing enough atoms :=
  (facing.next_of_spells (Source.Atom.spells_label label)).2

/-- Reading a mark only moves the reader, so it can be taken back. -/
theorem Facing.next_mark {mark : Source.Mark} (facing : reader.Facing enough (.mark mark :: atoms)) :
    reader.next.1.kind = mark.kind ∧ reader.next.2.restore reader.cursor = reader ∧
      reader.next.2.Facing enough atoms := by
  obtain ⟨lexed, kind, -, later⟩ := facing.next_of_spells (Source.Atom.spells_mark mark)
  refine ⟨kind, ?_, later⟩
  simp only [next, lexed, keep, restore]

/-- A literal is found in the table, unless there was no room for it. -/
theorem Facing.next_literal {literal : Source.Literal} (facing : reader.Facing enough (.literal literal :: atoms)) :
    reader.next.1.kind = .number ∧ reader.next.2.Facing enough atoms ∧
      (reader.next.2.lastLiteral? = some literal.value ∨ reader.next.2.lastLiteral? = none ∧ ¬enough) := by
  obtain ⟨lexed, kind, -, later⟩ := facing.next_of_spells (Source.Atom.spells_literal literal)
  refine ⟨kind, later, ?_⟩
  rcases lastLiteral?_next lexed (facing.steady.found.imp facing.steady.ample id) with found | ⟨missing, scarce⟩
  · exact .inl found
  · exact .inr ⟨missing, fun holds => scarce (facing.steady.ample holds)⟩

theorem Facing.expect {kind : Token.Kind} (facing : reader.Facing enough atoms)
    (found : reader.next.1.kind = kind) : reader.expect kind = (.ok reader.next.1, reader.next.2) := by
  have calm := facing.steady.calm
  simp [Reader.expect, hasError, calm, found]

theorem textBetween_of_source (before middle rest : List Char)
    (source : reader.source = before ++ (middle ++ rest)) :
    reader.textBetween (Utf8.byteLength before) (Utf8.byteLength (before ++ middle)) = String.ofList middle := by
  rw [textBetween, source, Utf8.slice?_append]
  rfl

end Steps

end Reader

namespace Document

open Source

variable {enough : Prop} {reader : Reader} {atoms : List Atom}

theorem nextWord?_of_word {word : Word} (facing : reader.Facing enough (.word word :: atoms)) :
    ∃ token later, nextWord? reader = (some token, later) ∧ token.text = word.text ∧ later.Facing enough atoms := by
  obtain ⟨kind, text, later⟩ := facing.next_word
  refine ⟨reader.next.1, reader.next.2, ?_, text, later⟩
  rw [nextWord?]
  simp [kind]

theorem nextWord?_of_closeBrace (facing : reader.Facing enough (.mark .closeBrace :: atoms)) :
    ∃ later, nextWord? reader = (none, later) ∧ later.Facing enough atoms := by
  obtain ⟨kind, -, later⟩ := facing.next_mark
  refine ⟨reader.next.2, ?_, later⟩
  rw [nextWord?]
  simp [kind, Mark.kind]

end Document

end EffectLang
