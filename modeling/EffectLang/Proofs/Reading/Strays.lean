import EffectLang.Proofs.Reading.Agreement
import EffectLang.Proofs.Token.Calls
import EffectLang.Proofs.Token.Numbers

/-!
Sources in which tokens stand where they do not belong. Numbers between declarations are passed over, but the literal
table takes them. A property without its parentheses brings a complaint, and after that a property needs nothing but a
type and a default.
-/
namespace EffectLang

namespace Source

def Word.p : Word := .letter 'p' rfl

def Literal.three : Literal := ⟨false, ⟨['3'], List.cons_ne_nil _ _, rfl⟩, none⟩

def Literal.seven : Literal := ⟨false, ⟨['7'], List.cons_ne_nil _ _, rfl⟩, none⟩

/-- A property without its parentheses, and atoms behind it. -/
def behindStray (atoms : List Atom) : List Atom :=
  .word .properties :: .mark .openBrace :: .word .p :: .word .p :: atoms

def strayFloat : List Atom :=
  [.word .p, .word .float, .mark .equals, .literal .seven]

end Source

namespace Reader

open Source

variable {reader : Reader} {atoms : List Atom}

theorem capacity_next (reader : Reader) : reader.next.2.literals.capacity = reader.literals.capacity :=
  capacity_keep reader _

/-- A reader, with a complaint or without one, that stands before a text in which the given atoms are written. Its table
was given some values and holds as many of them as it has room for. -/
structure Stocked (complains : Bool) (room : Nat) (values : List Double) (reader : Reader) (atoms : List Atom) :
    Prop where
  error_eq : reader.error.isSome = complains
  room_eq : reader.literals.capacity.room = room
  toList_eq : reader.literals.toList = values.take room
  written : ∃ before rest, reader.Placed before rest ∧ Layout atoms rest

namespace Stocked

variable {complains : Bool} {room : Nat} {values : List Double}

theorem size_eq (stocked : Stocked complains room values reader atoms) :
    reader.literals.size = min room values.length := by
  have kept := stocked.toList_eq
  rw [← stocked.room_eq] at kept ⊢
  exact LiteralTable.size_of_take kept

theorem next_of_spells {atom : Atom} {lexeme : Lexeme} (stocked : Stocked complains room values reader (atom :: atoms))
    (spells : atom.Spells lexeme) (other : lexeme.kind ≠ .number) :
    reader.next.1.kind = lexeme.kind ∧ reader.next.1.text = String.ofList lexeme.text ∧
      Stocked complains room values reader.next.2 atoms := by
  obtain ⟨before, rest, placed, layout⟩ := stocked.written
  cases layout with
  | cons complete ends last =>
    obtain ⟨-, kind, text, -, later⟩ := placed.next_of_spells complete ends spells
    refine ⟨kind, text, ?_, ?_, ?_, _, _, later, last⟩
    · rw [error_next, stocked.error_eq]
    · rw [capacity_next, stocked.room_eq]
    · rw [literals_next_of_other (kind ▸ other), stocked.toList_eq]

theorem next_word {word : Word} (stocked : Stocked complains room values reader (.word word :: atoms)) :
    reader.next.1.kind = .identifier ∧ reader.next.1.text = word.text ∧
      Stocked complains room values reader.next.2 atoms :=
  stocked.next_of_spells (Atom.spells_word word) (by simp [Lexeme.kind])

theorem next_mark {mark : Mark} (stocked : Stocked complains room values reader (.mark mark :: atoms)) :
    reader.next.1.kind = mark.kind ∧ Stocked complains room values reader.next.2 atoms := by
  obtain ⟨kind, -, later⟩ :=
    stocked.next_of_spells (Atom.spells_mark mark) (by cases mark <;> simp [Lexeme.kind, Mark.kind])
  exact ⟨kind, later⟩

theorem next_end (stocked : Stocked complains room values reader []) :
    reader.next.1.kind = .endOfStream ∧ Stocked complains room values reader.next.2 [] := by
  obtain ⟨before, rest, placed, layout⟩ := stocked.written
  cases layout with
  | nil run =>
    obtain ⟨given, later⟩ := placed.next_end run
    have kind : reader.next.1.kind = .endOfStream := by rw [given]
    refine ⟨kind, ?_, ?_, ?_, _, _, later, .nil .nil⟩
    · rw [error_next, stocked.error_eq]
    · rw [capacity_next, stocked.room_eq]
    · rw [literals_next_of_other (by simp [kind]), stocked.toList_eq]

/-- The table is given the value of a number whether the reader goes on or goes back. -/
theorem next_literal {literal : Literal} (stocked : Stocked complains room values reader (.literal literal :: atoms)) :
    reader.next.1.kind = .number ∧ Stocked complains room (values ++ [literal.value]) reader.next.2 atoms ∧
      Stocked complains room (values ++ [literal.value]) (reader.next.2.restore reader.cursor)
        (.literal literal :: atoms) := by
  obtain ⟨before, rest, placed, layout⟩ := stocked.written
  have error_eq : reader.next.2.error.isSome = complains := by rw [error_next, stocked.error_eq]
  have room_eq : reader.next.2.literals.capacity.room = room := by rw [capacity_next, stocked.room_eq]
  cases layout with
  | cons complete ends last =>
    obtain ⟨lexed, kind, -, -, later⟩ := placed.next_of_spells complete ends (Atom.spells_literal literal)
    have toList_eq : reader.next.2.literals.toList = (values ++ [literal.value]).take room := by
      have kept := stocked.toList_eq
      rw [← stocked.room_eq] at kept ⊢
      simp only [next, lexed, keep]
      exact LiteralTable.toList_add_of_take kept literal.value
    refine ⟨kind, ⟨error_eq, room_eq, toList_eq, _, _, later, last⟩, error_eq, room_eq, toList_eq, ?_⟩
    exact ⟨before, _, ⟨reader.source_next.trans placed.source, placed.place⟩, .cons complete ends last⟩

/-- Under the index of a number stands the value at the place that its offset leads to. -/
theorem lastLiteral?_next {literal : Literal}
    (stocked : Stocked complains room values reader (.literal literal :: atoms)) (fits : values.length < room)
    (named : values.length < noIndex.toNat) :
    reader.next.2.lastLiteral? = (values ++ [literal.value])[values.length % LiteralTable.offsetCount]? := by
  have size : reader.literals.size = values.length := by
    rw [stocked.size_eq, Nat.min_eq_right fits.le]
  have kept : reader.literals.toList = values := by
    rw [stocked.toList_eq, List.take_of_length_le fits.le]
  have left : reader.literals.hasRoom = true := by
    rw [LiteralTable.hasRoom_iff_lt, stocked.room_eq, size]
    exact fits
  obtain ⟨before, rest, placed, layout⟩ := stocked.written
  cases layout with
  | cons complete ends last =>
    obtain ⟨lexed, -⟩ := placed.next_of_spells complete ends (Atom.spells_literal literal)
    rw [← size, ← kept, ← LiteralTable.valueAt?_add left (size.trans_lt named)]
    simp only [lastLiteral?, next, lexed, keep]
    rfl

theorem report (stocked : Stocked complains room values reader atoms) (kind : Token.Kind) (token : Token) :
    Stocked true room values (reader.report kind token) atoms := by
  obtain ⟨before, rest, placed, layout⟩ := stocked.written
  have cursor : (reader.report kind token).cursor = reader.cursor := cursor_report _ _ _
  have literals : (reader.report kind token).literals = reader.literals := by rw [report_eq]
  refine ⟨error_report _ _ _, ?_, ?_, before, rest, ⟨(source_report _ _ _).trans placed.source, ?_⟩, layout⟩
  · rw [literals, stocked.room_eq]
  · rw [literals, stocked.toList_eq]
  · exact cursor ▸ placed.place

end Stocked

theorem stocked_start {source : String} (capacity : LiteralTable.Capacity) (layout : Layout atoms source.toList) :
    Stocked false capacity.room [] (.start source capacity) atoms :=
  ⟨rfl, rfl, List.take_nil.symm, [], source.toList, placed_start source capacity, layout⟩

end Reader

namespace Document

open Source StateTransition

namespace Moment

theorem step_at_end {progress : Progress} (ended : progress.reader.next.1.kind = .endOfStream) :
    step ⟨progress, .declaration⟩ =
      some ⟨if progress.depth = 0 then progress.moveTo progress.reader.next.2
        else unclosed progress.reader.next.1 (progress.moveTo progress.reader.next.2), .done none⟩ := by
  rw [step_read progress rfl rfl, read, readDeclaration, if_pos ended]
  rfl

theorem step_of_complaint {progress : Progress} {task : Task} {kind : Token.Kind}
    (complaint : progress.reader.error.isSome) (required : task.required? = some kind) :
    step ⟨progress, task⟩ = some (found (progress.reader.placeholder kind) progress task) :=
  step_found progress required (Reader.expect_of_complaint complaint kind)

variable (progress : Progress) {complains : Bool} {room : Nat} {values : List Double} {atoms : List Atom}

/-- A property without its parenthesis brings a complaint. -/
theorem reaches_behindStray (stocked : progress.reader.Stocked false room values (behindStray atoms)) :
    ∃ reader, Reaches step ⟨progress, .declaration⟩ ⟨progress.moveTo reader, .propertyName⟩ ∧
      reader.Stocked true room values atoms := by
  obtain ⟨wordKind, wordText, stocked⟩ := stocked.next_word
  let second := progress.moveTo progress.reader.next.2
  have stocked : second.reader.Stocked false room values (.mark .openBrace :: .word .p :: .word .p :: atoms) := stocked
  obtain ⟨braceKind, behind⟩ := stocked.next_mark
  have brace : second.reader.expect .openBrace = (.ok second.reader.next.1, second.reader.next.2) := by
    have calm := stocked.error_eq
    have kind : second.reader.next.1.kind = .openBrace := braceKind
    simp [Reader.expect, Reader.hasError, calm, kind]
  let third := second.moveTo second.reader.next.2
  have stocked : third.reader.Stocked false room values (.word .p :: .word .p :: atoms) := behind
  obtain ⟨nameKind, nameText, stocked⟩ := stocked.next_word
  let fourth := third.moveTo third.reader.next.2
  have stocked : fourth.reader.Stocked false room values (.word .p :: atoms) := stocked
  obtain ⟨otherKind, -, behind⟩ := stocked.next_word
  refine ⟨fourth.reader.next.2.report .openParen fourth.reader.next.1, ?_, behind.report _ _⟩
  have word : step ⟨progress, .declaration⟩ = some ⟨second, .propertiesBrace⟩ := by
    rw [step_read progress rfl rfl, read, readDeclaration, wordKind, wordText]
    rfl
  have name : step ⟨third, .propertyName⟩ = some ⟨fourth, .property Word.p.text .opening⟩ := by
    rw [step_read third rfl rfl, read, readPropertyName, nameKind, nameText]
    rfl
  have opening : step ⟨fourth, .property Word.p.text .opening⟩ =
      some ⟨fourth.moveTo (fourth.reader.next.2.report .openParen fourth.reader.next.1), .propertyName⟩ := by
    obtain ⟨complaint, -⟩ | ⟨-, met, -⟩ | ⟨-, -, given⟩ := fourth.reader.expect_cases .openParen
    · rw [stocked.error_eq] at complaint
      cases complaint
    · rw [otherKind] at met
      cases met
    · exact step_missed fourth rfl given
  exact .head word (.head (step_found second rfl brace) (.head name (.single opening)))

/-- After a complaint a property needs no parenthesis, label or comma before its type. -/
theorem reaches_typed {name type : Word}
    (stocked : progress.reader.Stocked true room values (.word name :: .word type :: atoms)) :
    ∃ reader, Reaches step ⟨progress, .propertyName⟩ (typed name.text "" type.text (progress.moveTo reader)) ∧
      reader.Stocked true room values atoms := by
  obtain ⟨nameKind, nameText, behind⟩ := stocked.next_word
  let named := progress.moveTo progress.reader.next.2
  have behind : named.reader.Stocked true room values (.word type :: atoms) := behind
  obtain ⟨typeKind, typeText, behindType⟩ := behind.next_word
  refine ⟨named.reader.next.2, ?_, behindType⟩
  have opening : step ⟨progress, .propertyName⟩ = some ⟨named, .property name.text .opening⟩ := by
    rw [step_read progress rfl rfl, read, readPropertyName, nameKind, nameText]
    rfl
  have type : step ⟨named, .property name.text (.typeName "")⟩ =
      some (typed name.text "" type.text (named.moveTo named.reader.next.2)) := by
    rw [step_read named rfl rfl, read, readProperty, typeKind, typeText]
    rfl
  refine .head opening (.head (step_of_complaint behind.error_eq rfl) ?_)
  refine .head (step_of_complaint behind.error_eq rfl) (.head (step_of_complaint behind.error_eq rfl) ?_)
  exact .single type

/-- A stray default is read up to its number. -/
theorem reaches_strayFloat (stocked : progress.reader.Stocked true room values strayFloat) :
    ∃ reader, Reaches step ⟨progress, .propertyName⟩
        ⟨progress.moveTo reader, .property Word.p.text (.default "" (.empty .float))⟩ ∧
      reader.Stocked true room values [.literal .seven] := by
  obtain ⟨before, front, stocked⟩ := reaches_typed progress stocked
  let typed := progress.moveTo before
  have stocked : typed.reader.Stocked true room values [.mark .equals, .literal .seven] := stocked
  obtain ⟨signKind, behind⟩ := stocked.next_mark
  have sign : step ⟨typed, .property Word.p.text (.sign "" (.empty .float))⟩ =
      some ⟨typed.moveTo typed.reader.next.2, .property Word.p.text (.default "" (.empty .float))⟩ := by
    rw [step_read typed rfl rfl, read, readProperty, signKind]
    rfl
  exact ⟨typed.reader.next.2, front.tail sign, behind⟩

end Moment

open Moment

/-- A source of numbers only. -/
def numbers (count : Nat) : String :=
  String.ofList (spaced (List.replicate count (.literal .three)))

end Document

end EffectLang
