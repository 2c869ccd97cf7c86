import EffectLang.Blob.Stream

/-!
Codecs: how values are written to a stream and read back. Scalars are little-endian, texts and lists have
their length in front as a 32-bit word, and enumerations go as the code of the value. Codecs of larger
types are put together from those of their parts, so that one description serves both directions.
-/
namespace EffectLang

/-- How values of a type are written and read. A value is written in place: its parts are taken out, sent to the sink
and put back, so there is a value afterwards too, also when a part could not be sent. -/
structure Codec (α : Type) where
  write : α → Writing
  read : Reading α
  after : α → Sink → α

def littleEndian : Nat → Nat → List UInt8
  | 0, _ => []
  | width + 1, value => UInt8.ofNat value :: littleEndian width (value / 256)

def ofLittleEndian (bytes : List UInt8) : Nat :=
  bytes.foldr (fun byte high => byte.toNat + 256 * high) 0

namespace Codec

def unit {α : Type} (value : α) : Codec α where
  write _ := .nothing
  read := .just value
  after given _ := given

def pair {α β : Type} (first : Codec α) (second : Codec β) : Codec (α × β) where
  write value := .andThen (first.write value.1) (second.write value.2)
  read := .andThen first.read fun left => .map (fun right => (left, right)) second.read
  after value sink :=
    match first.write value.1 sink with
    | (.ok _, between) => (first.after value.1 sink, second.after value.2 between)
    | (.error _, _) => (first.after value.1 sink, value.2)

def iso {α β : Type} (codec : Codec α) (pack : α → β) (unpack : β → α) : Codec β where
  write value := codec.write (unpack value)
  read := .map pack codec.read
  after value sink := pack (codec.after (unpack value) sink)

/-- Values whose bytes depend on a tag, which goes in front. -/
def tagged {κ α : Type} (tag : Codec κ) (tagOf : α → κ) (payload : κ → Codec α) : Codec α where
  write value := .andThen (tag.write (tagOf value)) ((payload (tagOf value)).write value)
  read := .andThen tag.read fun kind => (payload kind).read
  after value sink :=
    match tag.write (tagOf value) sink with
    | (.ok _, between) => (payload (tagOf value)).after value between
    | (.error _, _) => value

def word (width : Nat) : Codec Nat where
  write value := .bytes (littleEndian width value)
  read := .map ofLittleEndian (.bytes width)
  after value sink :=
    match Writing.bytes (littleEndian width value) sink with
    | (.ok _, _) => ofLittleEndian (littleEndian width value)
    | (.error _, _) => value

def uint8 : Codec UInt8 := (word 1).iso UInt8.ofNat UInt8.toNat

def uint16 : Codec UInt16 := (word 2).iso UInt16.ofNat UInt16.toNat

def uint32 : Codec UInt32 := (word 4).iso UInt32.ofNat UInt32.toNat

def uint64 : Codec UInt64 := (word 8).iso UInt64.ofNat UInt64.toNat

def int32 : Codec Int32 := uint32.iso UInt32.toInt32 Int32.toUInt32

def int64 : Codec Int64 := uint64.iso UInt64.toInt64 Int64.toUInt64

def single : Codec Single := uint32.iso Single.mk Single.bits

def double : Codec Double := uint64.iso Double.mk Double.bits

/-- A truth value as a byte: one or zero. Every byte but zero reads as true. -/
def bool : Codec Bool := uint8.iso (· != 0) fun value => if value then 1 else 0

def maxLength : Nat := 0xFFFFFFFF

/-- A length. One that does not fit the prefix is an error before anything is written. -/
def length : Codec Nat where
  write value := if value ≤ maxLength then (word 4).write value else .fail (.lengthOverflow value)
  read := (word 4).read
  after value _ := value

/-- Reads a length in place of a given one, which has to fit the prefix as well. -/
def readLengthFor (given : Nat) : Reading Nat :=
  if given ≤ maxLength then length.read else .fail (.lengthOverflow given)

/-- A text: the number of its bytes, and the bytes. The bytes are moved out of the text and make a text again when they
have been sent or not. -/
def string : Codec String where
  write value := .andThen (length.write (Utf8.encode value).length) (.bytes (Utf8.encode value))
  read := .andThen length.read fun count => .andThen (.bytes count) fun bytes =>
    match Utf8.decode? bytes with
    | some text => .just text
    | none => .fail (.invalidUtf8 (Utf8.fault bytes))
  after value sink :=
    match length.write (Utf8.encode value).length sink with
    | (.ok _, _) => (Utf8.decode? (Utf8.encode value)).getD ""
    | (.error _, _) => value

/-- The elements of a list after they have been written one by one. Those behind one that fails are not touched. -/
def eachAfter {α : Type} (codec : Codec α) : List α → Sink → List α
  | [], _ => []
  | value :: values, sink =>
    match codec.write value sink with
    | (.ok _, between) => codec.after value sink :: eachAfter codec values between
    | (.error _, _) => codec.after value sink :: values

def list {α : Type} (codec : Codec α) : Codec (List α) where
  write values := .andThen (length.write values.length) (.each codec.write values)
  read := .andThen length.read codec.read.times
  after values sink :=
    match length.write values.length sink with
    | (.ok _, between) => codec.eachAfter values between
    | (.error _, _) => values

def enumeration {α : Type} (name : String) (code : α → UInt32) (ofCode? : UInt32 → Option α) : Codec α where
  write value := uint32.write (code value)
  read := .andThen uint32.read fun code =>
    match ofCode? code with
    | some value => .just value
    | none => .fail (.invalidCode name code)
  after value sink :=
    match uint32.write (code value) sink with
    | (.ok _, _) => (ofCode? (uint32.after (code value) sink)).getD value
    | (.error _, _) => value

def store {α : Type} (codec : Codec α) (value : α) (sink : Sink) : Except Error Unit × α × Sink :=
  ((codec.write value sink).1, codec.after value sink, (codec.write value sink).2)

end Codec

end EffectLang
