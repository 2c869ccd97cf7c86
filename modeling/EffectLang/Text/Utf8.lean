/-!
UTF-8 sizes and byte ranges of a text, and the first fault of a byte sequence that is no UTF-8.
Positions in a source text count bytes, so a range of positions is a text only when both of its ends
fall between two characters.
-/
namespace EffectLang.Utf8

def byteLength (text : List Char) : Nat :=
  text.foldr (fun c total => c.utf8Size + total) 0

@[simp] theorem byteLength_nil : byteLength [] = 0 := rfl

@[simp] theorem byteLength_cons (c : Char) (rest : List Char) :
    byteLength (c :: rest) = c.utf8Size + byteLength rest := rfl

@[simp] theorem byteLength_append (left right : List Char) :
    byteLength (left ++ right) = byteLength left + byteLength right := by
  induction left with
  | nil => simp
  | cons c left ih => simp [ih, Nat.add_assoc]

/-- Moves characters worth exactly `bytes` bytes from `text` onto the reversed `taken`; none when the
cut would fall inside a character or past the end. -/
def cutInto? : Nat → List Char → List Char → Option (List Char × List Char)
  | 0, taken, text => some (taken.reverse, text)
  | _ + 1, _, [] => none
  | bytes + 1, taken, c :: rest =>
    if c.utf8Size ≤ bytes + 1 then cutInto? (bytes + 1 - c.utf8Size) (c :: taken) rest else none
termination_by structural _ _ text => text

def cut? (bytes : Nat) (text : List Char) : Option (List Char × List Char) :=
  cutInto? bytes [] text

/-- The characters between two byte positions; none unless `start ≤ stop`, both ends fall between two
characters and neither lies past the end. -/
def slice? (text : List Char) (start stop : Nat) : Option (List Char) :=
  if start ≤ stop then
    match cut? start text with
    | none => none
    | some (_, rest) => (cut? (stop - start) rest).map Prod.fst
  else
    none

def encode (text : String) : List UInt8 :=
  text.toByteArray.data.toList

def decode? (bytes : List UInt8) : Option String :=
  String.fromUTF8? ⟨bytes.toArray⟩

theorem decode?_encode (text : String) : decode? (encode text) = some text := by
  simp [decode?, encode, String.fromUTF8?, String.fromUTF8, text.isValidUTF8]

theorem encode_of_decode? {bytes : List UInt8} {text : String} (decoded : decode? bytes = some text) :
    encode text = bytes := by
  unfold decode? String.fromUTF8? at decoded
  split at decoded
  · cases decoded
    simp [encode, String.fromUTF8]
  · contradiction

theorem length_encode (text : String) : (encode text).length = text.utf8ByteSize := by
  simp [encode]

/-- Where a byte sequence stops being UTF-8: the length of its longest valid start and the length of
the faulty sequence there, or none when the bytes end inside a sequence that is valid so far. -/
structure Fault where
  index : Nat
  length : Option Nat
deriving DecidableEq, Repr

/-- The second bytes that may follow a lead byte, with the number of bytes after the lead. -/
def lead? (byte : UInt8) : Option (Nat × UInt8 × UInt8) :=
  if 0xC2 ≤ byte ∧ byte ≤ 0xDF then some (1, 0x80, 0xBF)
  else if byte = 0xE0 then some (2, 0xA0, 0xBF)
  else if byte = 0xED then some (2, 0x80, 0x9F)
  else if 0xE1 ≤ byte ∧ byte ≤ 0xEF then some (2, 0x80, 0xBF)
  else if byte = 0xF0 then some (3, 0x90, 0xBF)
  else if 0xF1 ≤ byte ∧ byte ≤ 0xF3 then some (3, 0x80, 0xBF)
  else if byte = 0xF4 then some (3, 0x80, 0x8F)
  else none

/-- Reads on from byte `index + seen`, inside the character that starts at `index`: `owed` more bytes
belong to it, the next of them between `low` and `high`. Nothing is owed between two characters. -/
def faultFrom (index seen owed : Nat) (low high : UInt8) : List UInt8 → Fault
  | [] => ⟨index, none⟩
  | byte :: rest =>
    match owed with
    | 0 =>
      if byte < 0x80 then faultFrom (index + 1) 0 0 low high rest
      else
        match lead? byte with
        | some (more, low, high) => faultFrom index 1 more low high rest
        | none => ⟨index, some 1⟩
    | owed + 1 =>
      if low ≤ byte ∧ byte ≤ high then
        if owed = 0 then faultFrom (index + seen + 1) 0 0 low high rest
        else faultFrom index (seen + 1) owed 0x80 0xBF rest
      else
        ⟨index, some seen⟩

def fault (bytes : List UInt8) : Fault :=
  faultFrom 0 0 0 0 0 bytes

def Fault.message (fault : Fault) : String :=
  match fault.length with
  | some length => s!"invalid utf-8 sequence of {length} bytes from index {fault.index}"
  | none => s!"incomplete utf-8 byte sequence from index {fault.index}"

end EffectLang.Utf8
