import EffectLang.Proofs.Text.Bytes
import Mathlib

/-!
A scanner that goes through the bytes of a source one by one and checks all that it does. It fails where it would
leave the source, take a range of bytes that is no text, or count past a word of 32 or 64 bits. A byte that is looked
at is taken for the character with its code, which it only is when it stands for one by itself.
-/
namespace EffectLang

instance (source : List UInt8) (start stop : Nat) : Decidable (Utf8.IsRange source start stop) :=
  decidable_of_iff
    (start ≤ stop ∧ stop ≤ source.length ∧ Utf8.isBoundary source start ∧ Utf8.isBoundary source stop)
    ⟨fun ⟨ordered, inside, startBoundary, stopBoundary⟩ => ⟨ordered, inside, startBoundary, stopBoundary⟩,
      fun range => ⟨range.ordered, range.inside, range.startBoundary, range.stopBoundary⟩⟩

structure ByteScanner where
  source : List UInt8
  position : Nat
  line : Nat
deriving DecidableEq, Repr

namespace ByteScanner

structure Amount where
  negative : Bool
  whole : Nat
  part : Nat
  divisor : Nat
deriving DecidableEq, Repr

structure Piece where
  kind : Token.Kind
  text : List UInt8
  offset : Nat
  line : Nat
  amount : Option Amount := none
deriving DecidableEq, Repr

/-- The byte some places ahead, or a zero behind the end of the source. -/
def peek (scanner : ByteScanner) (ahead : Nat) : Char :=
  Char.ofNat ((scanner.source[scanner.position + ahead]?).getD 0).toNat

def atEnd (scanner : ByteScanner) : Bool :=
  scanner.source.length ≤ scanner.position

def advance? (scanner : ByteScanner) (count : Nat) : Option ByteScanner :=
  if scanner.position + count ≤ scanner.source.length then
    some { scanner with position := scanner.position + count }
  else none

def countLine? (scanner : ByteScanner) : Option ByteScanner :=
  if scanner.peek 0 = '\n' then
    if scanner.line + 1 < 2 ^ 32 then some { scanner with line := scanner.line + 1 } else none
  else some scanner

def slice? (source : List UInt8) (start stop : Nat) : Option (List UInt8) :=
  if Utf8.IsRange source start stop then some ((source.drop start).take (stop - start)) else none

def left (scanner : ByteScanner) : Nat :=
  scanner.source.length - scanner.position

/-- Repeats a step as long as a condition holds. A step fails when it brings the loop no nearer to its end. -/
def while? {α : Type} (left : α → Nat) (holds : α → Bool) (step : α → Option α) (state : α) : Option α :=
  if holds state then
    match step state with
    | none => none
    | some next => if left next < left state then while? left holds step next else none
  else some state
termination_by left state

def skipWhile? (holds : ByteScanner → Bool) (scanner : ByteScanner) : Option ByteScanner :=
  while? left holds (fun scanner => scanner.advance? 1) scanner

def pass? (scanner : ByteScanner) : Option ByteScanner :=
  scanner.countLine?.bind fun counted => counted.advance? 1

def inLine (scanner : ByteScanner) : Bool :=
  !scanner.atEnd && !Trivia.isLineEnd (scanner.peek 0)

def inBlock (scanner : ByteScanner) : Bool :=
  !scanner.atEnd && !(scanner.peek 0 = '*' && scanner.peek 1 = '/')

def skipBlock? (scanner : ByteScanner) : Option ByteScanner :=
  while? left inBlock pass? scanner

def closeBlock? (scanner : ByteScanner) : Option ByteScanner :=
  if scanner.atEnd then some scanner else scanner.advance? 2

def atTrivia (scanner : ByteScanner) : Bool :=
  Trivia.isBlank (scanner.peek 0) || (scanner.peek 0 = '/' && (scanner.peek 1 = '/' || scanner.peek 1 = '*'))

def passTrivium? (scanner : ByteScanner) : Option ByteScanner :=
  if Trivia.isBlank (scanner.peek 0) then scanner.pass?
  else if scanner.peek 1 = '/' then do
    let inside ← scanner.advance? 2
    skipWhile? inLine inside
  else do
    let inside ← scanner.advance? 2
    let closing ← skipBlock? inside
    closing.closeBlock?

def skipTrivia? (scanner : ByteScanner) : Option ByteScanner :=
  while? left atTrivia passTrivium? scanner

/-- A backslash is passed over, unless the source ends behind it. -/
def skipEscape? (scanner : ByteScanner) : Option ByteScanner :=
  if scanner.peek 0 = '\\' && scanner.position + 1 < scanner.source.length then scanner.advance? 1 else some scanner

def inBody (scanner : ByteScanner) : Bool :=
  !scanner.atEnd && scanner.peek 0 ≠ '"'

def skipBody? (scanner : ByteScanner) : Option ByteScanner :=
  while? left inBody (fun scanner => scanner.skipEscape?.bind pass?) scanner

def digit? {α : Type} (add? : α → Nat → Option α) (state : α × ByteScanner) : Option (α × ByteScanner) := do
  let total ← add? state.1 (Numeral.digit (state.2.peek 0))
  let scanner ← state.2.advance? 1
  some (total, scanner)

def digits? {α : Type} (add? : α → Nat → Option α) (total : α) (scanner : ByteScanner) : Option (α × ByteScanner) :=
  while? (fun state => state.2.left) (fun state => (state.2.peek 0).isDigit) (digit? add?) (total, scanner)

def addWhole? (total digit : Nat) : Option Nat :=
  some (min (min (total * 10) (2 ^ 64 - 1) + digit) (2 ^ 64 - 1))

/-- Adds a digit to the fraction. Digits after the eighteenth are dropped; those before it have to fit. -/
def addFraction? (total : Nat × Nat) (digit : Nat) : Option (Nat × Nat) :=
  if total.2 < 10 ^ 18 then
    if total.1 * 10 + digit < 2 ^ 64 ∧ total.2 * 10 < 2 ^ 64 then some (total.1 * 10 + digit, total.2 * 10) else none
  else some total

def skipSign? (scanner : ByteScanner) : Option (Bool × ByteScanner) :=
  if scanner.peek 0 = '-' then (scanner.advance? 1).map (true, ·) else some (false, scanner)

def whole? (scanner : ByteScanner) : Option (Nat × ByteScanner) :=
  (skipWhile? (fun scanner => scanner.peek 0 = '0') scanner).bind (digits? addWhole? 0)

def fraction? (scanner : ByteScanner) : Option ((Nat × Nat) × ByteScanner) :=
  if scanner.peek 0 = '.' then (scanner.advance? 1).bind (digits? addFraction? (0, 1)) else some ((0, 1), scanner)

def skipMark? (scanner : ByteScanner) : Option ByteScanner :=
  if scanner.peek 0 = 'e' || scanner.peek 0 = 'E' then scanner.advance? 1 else some scanner

def number? (scanner : ByteScanner) : Option (Amount × ByteScanner) := do
  let (negative, scanner) ← scanner.skipSign?
  let (whole, scanner) ← scanner.whole?
  let ((part, divisor), scanner) ← scanner.fraction?
  let scanner ← scanner.skipMark?
  some (⟨negative, whole, part, divisor⟩, scanner)

def piece? (scanner : ByteScanner) (kind : Token.Kind) (start line : Nat) (amount : Option Amount) :
    Option (Piece × ByteScanner) :=
  (slice? scanner.source start scanner.position).map fun text => (⟨kind, text, start, line, amount⟩, scanner)

/-- A string, from behind its opening quote on. -/
def string? (scanner : ByteScanner) (line : Nat) : Option (Piece × ByteScanner) := do
  let closing ← scanner.skipBody?
  let (piece, closing) ← closing.piece? .string scanner.position line none
  let later ← if closing.atEnd then some closing else closing.advance? 1
  some (piece, later)

def width (lead : Char) : Nat :=
  if lead.toNat < 0x80 then 1 else if lead.toNat < 0xE0 then 2 else if lead.toNat < 0xF0 then 3 else 4

/-- A character that begins nothing else, found by its first byte in the rest of the source. -/
def unknown? (scanner : ByteScanner) (start : Nat) (lead : Char) : Option (Piece × ByteScanner) := do
  let _ ← slice? scanner.source start scanner.source.length
  { scanner with position := start + width lead }.piece? .unknown start scanner.line none

def nextHere? (scanner : ByteScanner) : Option (Piece × ByteScanner) :=
  let start := scanner.position
  let first := scanner.peek 0
  if scanner.atEnd then do
    let text ← slice? scanner.source start scanner.source.length
    some (⟨.endOfStream, text, start, scanner.line, none⟩, scanner)
  else do
    let behind ← scanner.advance? 1
    match Token.Kind.ofMark? first with
    | some kind => behind.piece? kind start scanner.line none
    | none =>
      if first = '"' then behind.string? scanner.line
      else if first.isAlpha then do
        let behind ← skipWhile? (fun scanner => Lexeme.isWordChar (scanner.peek 0)) behind
        behind.piece? .identifier start scanner.line none
      else if first.isDigit || first = '-' then do
        let (amount, behind) ← scanner.number?
        behind.piece? .number start scanner.line (some amount)
      else behind.unknown? start first

def next? (scanner : ByteScanner) : Option (Piece × ByteScanner) :=
  scanner.skipTrivia?.bind nextHere?

section Loops

variable {α : Type} {left : α → Nat} {holds : α → Bool} {step : α → Option α} {state next : α}

theorem while_stop (stops : holds state = false) : while? left holds step state = some state := by
  rw [while?, stops]
  rfl

theorem while_next (goes : holds state = true) (stepped : step state = some next) (shrinks : left next < left state) :
    while? left holds step state = while? left holds step next := by
  rw [while?, goes, stepped, if_pos rfl]
  exact if_pos shrinks

end Loops

section Bytes

/-- The bytes that lie ahead of a scanner, up to the end of its source. -/
structure Sees (scanner : ByteScanner) (ahead : List UInt8) : Prop where
  rest : scanner.source.drop scanner.position = ahead
  size : scanner.position + ahead.length = scanner.source.length

def moved (scanner : ByteScanner) (count : Nat) : ByteScanner :=
  { scanner with position := scanner.position + count }

variable {scanner : ByteScanner} {byte : UInt8} {ahead later : List UInt8}

theorem Sees.peek (sees : scanner.Sees ahead) (distance : Nat) :
    scanner.peek distance = Char.ofNat ((ahead[distance]?).getD 0).toNat := by
  rw [ByteScanner.peek, ← sees.rest, List.getElem?_drop]

theorem Sees.atEnd_eq (sees : scanner.Sees ahead) : scanner.atEnd = ahead.isEmpty := by
  have size := sees.size
  cases ahead with
  | nil => simpa [atEnd] using size.ge
  | cons byte ahead =>
    simp only [List.length_cons] at size
    simp only [atEnd, List.isEmpty_cons, decide_eq_false_iff_not]
    omega

theorem Sees.left_eq (sees : scanner.Sees ahead) : scanner.left = ahead.length := by
  rw [left, ← sees.size, Nat.add_sub_cancel_left]

theorem Sees.moved (sees : scanner.Sees (ahead ++ later)) : (scanner.moved ahead.length).Sees later where
  rest := by
    rw [ByteScanner.moved, ← List.drop_drop, sees.rest, List.drop_left]
  size := by
    have size := sees.size
    rw [List.length_append] at size
    simp only [ByteScanner.moved]
    omega

theorem Sees.advance? (sees : scanner.Sees (ahead ++ later)) :
    scanner.advance? ahead.length = some (scanner.moved ahead.length) := by
  have size := sees.size
  rw [List.length_append] at size
  rw [ByteScanner.advance?, if_pos (by omega)]
  rfl

theorem Sees.moved_one (sees : scanner.Sees (byte :: ahead)) : (scanner.moved 1).Sees ahead :=
  @Sees.moved scanner [byte] ahead sees

theorem Sees.advance_one (sees : scanner.Sees (byte :: ahead)) : scanner.advance? 1 = some (scanner.moved 1) :=
  @Sees.advance? scanner [byte] ahead sees

theorem Sees.left_moved_one (sees : scanner.Sees (byte :: ahead)) : (scanner.moved 1).left < scanner.left := by
  rw [sees.left_eq, sees.moved_one.left_eq]
  exact Nat.lt_succ_self _

theorem Sees.peek_ne (sees : scanner.Sees (byte :: ahead)) (high : 0x80 ≤ byte.toNat) {c : Char}
    (narrow : c.toNat < 128) : scanner.peek 0 ≠ c := by
  rintro rfl
  rw [sees.peek] at narrow
  have small := byte.toNat_lt
  rw [List.getElem?_cons_zero, Option.getD_some, Char.toNat_ofNat, if_pos (.inl (by omega))] at narrow
  omega

theorem Sees.pass_high (sees : scanner.Sees (byte :: ahead)) (high : 0x80 ≤ byte.toNat) :
    scanner.pass? = some (scanner.moved 1) := by
  have feed := sees.peek_ne high (show '\n'.toNat < 128 by decide)
  rw [pass?, countLine?, if_neg feed]
  exact sees.advance_one

theorem eq_of_passes {α : Type} (f : ByteScanner → α)
    (passes : ∀ scanner byte ahead, scanner.Sees (byte :: ahead) → 0x80 ≤ byte.toNat → f scanner = f (scanner.moved 1))
    (sees : scanner.Sees (ahead ++ later)) (high : ∀ byte ∈ ahead, 0x80 ≤ byte.toNat) :
    f scanner = f (scanner.moved ahead.length) := by
  induction ahead generalizing scanner with
  | nil => rfl
  | cons byte ahead ih =>
    rw [List.forall_mem_cons] at high
    rw [passes scanner byte _ sees high.1, ih sees.moved_one high.2]
    simp only [ByteScanner.moved, List.length_cons]
    congr 2
    omega

end Bytes

end ByteScanner

end EffectLang
