import EffectLang.Literal.Table
import EffectLang.Token.Cursor

/-!
Readers: a place in a source together with what has been learnt on the way there. A reader keeps the
values of the numerals that it met and the first complaint about a token. After a complaint every
expectation is met by a placeholder and nothing is consumed for it.
-/
namespace EffectLang

structure Reader where
  source : List Char
  cursor : Cursor
  error : Option Unexpected
  literals : LiteralTable
  lastLiteral : UInt32
deriving DecidableEq, Repr, Inhabited

namespace Reader

def start (source : String) (capacity : LiteralTable.Capacity) : Reader :=
  { source := source.toList
    cursor := .start source.toList
    error := none
    literals := .empty capacity
    lastLiteral := noIndex }

def remaining (reader : Reader) : Nat :=
  reader.cursor.remaining

/-- The value of the numeral that was read last; none when it did not fit the literal table. -/
def lastLiteral? (reader : Reader) : Option Double :=
  reader.literals.valueAt? reader.lastLiteral

def hasError (reader : Reader) : Bool :=
  reader.error.isSome

def errorLine? (reader : Reader) : Option Nat :=
  reader.error.map Unexpected.line

def takeError (reader : Reader) : Option Unexpected × Reader :=
  (reader.error, { reader with error := none })

def keep (reader : Reader) : Option Lexeme → Reader
  | some (.number numeral) =>
    { reader with
      literals := (reader.literals.add numeral.value).2
      lastLiteral := (reader.literals.add numeral.value).1 }
  | _ => reader

/-- Reads the next token. At the end of the source it is the same one again and again. -/
def next (reader : Reader) : Token × Reader :=
  let step := reader.cursor.scan
  (step.token, { reader.keep step.lexeme with cursor := step.after })

/-- Goes back to an earlier place. Complaints and literals stay. -/
def restore (reader : Reader) (place : Cursor) : Reader :=
  { reader with cursor := place }

def nextIs (reader : Reader) (kind : Token.Kind) : Bool × Reader :=
  (reader.next.1.kind == kind, reader.next.2)

def report (reader : Reader) (expected : Token.Kind) (found : Token) : Reader :=
  match reader.error with
  | some _ => reader
  | none => { reader with error := some (.of expected found) }

def placeholder (reader : Reader) (kind : Token.Kind) : Token :=
  ⟨kind, "", reader.cursor.position, reader.cursor.line⟩

/-- Requires a kind of token. After a complaint a placeholder stands in for it. -/
def expect (reader : Reader) (kind : Token.Kind) : Except Unexpected Token × Reader :=
  if reader.hasError then (.ok (reader.placeholder kind), reader)
  else if reader.next.1.kind = kind then (.ok reader.next.1, reader.next.2)
  else (.error (.of kind reader.next.1), reader.next.2.report kind reader.next.1)

/-- The source text between two byte positions; empty when they bound no text. -/
def textBetween (reader : Reader) (start stop : Nat) : String :=
  String.ofList ((Utf8.slice? reader.source start stop).getD [])

def join (reader : Reader) (first last : Token) : Token :=
  ⟨first.kind, reader.textBetween first.offset last.stop, first.offset, first.line⟩

@[simp] theorem remaining_restore (reader : Reader) (place : Cursor) :
    (reader.restore place).remaining = place.remaining := rfl

@[simp] theorem remaining_report (reader : Reader) (expected : Token.Kind) (found : Token) :
    (reader.report expected found).remaining = reader.remaining := by
  unfold report
  split <;> rfl

theorem remaining_next_le (reader : Reader) : reader.next.2.remaining ≤ reader.remaining :=
  reader.cursor.remaining_scan_le

theorem remaining_next_lt (reader : Reader) (more : reader.next.1.kind ≠ .endOfStream) :
    reader.next.2.remaining < reader.remaining :=
  reader.cursor.remaining_scan_lt more

theorem remaining_expect_le (reader : Reader) (kind : Token.Kind) :
    (reader.expect kind).2.remaining ≤ reader.remaining := by
  unfold expect
  split
  · exact Nat.le_refl _
  · split
    · exact reader.remaining_next_le
    · simpa using reader.remaining_next_le

def readAll (reader : Reader) : List (Token × Option Double) × Reader :=
  if reader.next.1.kind = .endOfStream then
    ([(reader.next.1, reader.next.2.lastLiteral?)], reader.next.2)
  else
    let later := reader.next.2.readAll
    ((reader.next.1, reader.next.2.lastLiteral?) :: later.1, later.2)
termination_by reader.remaining
decreasing_by exact reader.remaining_next_lt ‹_›

end Reader

end EffectLang
