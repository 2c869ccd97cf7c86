import EffectLang.Error

/-!
Byte streams. Writing goes into a sink that may be full after a number of bytes: it stores what fits and
then fails. Reading takes bytes off a list and leaves the rest, so what is unread is always at hand.
-/
namespace EffectLang

/-- Where bytes are written to: those written so far, and how many there is room for in all. -/
structure Sink where
  written : Array UInt8 := #[]
  limit : Option Nat := none
deriving DecidableEq, Repr, Inhabited

/-- An act of writing. What was written before it failed stays in the sink. -/
abbrev Writing := Sink → Except Error Unit × Sink

abbrev Reading (α : Type) := List UInt8 → Except Error (α × List UInt8)

namespace Sink

def fitting (sink : Sink) (bytes : List UInt8) : List UInt8 :=
  match sink.limit with
  | none => bytes
  | some limit => bytes.take (limit - sink.written.size)

def toList (sink : Sink) : List UInt8 :=
  sink.written.toList

end Sink

namespace Writing

/-- Writes bytes. A full sink stores the part that fits. -/
def bytes (bytes : List UInt8) : Writing := fun sink =>
  let fitting := sink.fitting bytes
  let after := { sink with written := sink.written ++ fitting }
  if fitting.length = bytes.length then (.ok (), after) else (.error (.stream .sinkFull), after)

def nothing : Writing := fun sink =>
  (.ok (), sink)

def fail (error : Error) : Writing := fun sink =>
  (.error error, sink)

def andThen (first second : Writing) : Writing := fun sink =>
  match first sink with
  | (.ok _, sink) => second sink
  | (.error error, sink) => (.error error, sink)

def each {α : Type} (write : α → Writing) : List α → Writing
  | [] => nothing
  | value :: values => andThen (write value) (each write values)

def run (writing : Writing) : Except Error (List UInt8) :=
  match writing {} with
  | (.ok _, sink) => .ok sink.toList
  | (.error error, _) => .error error

end Writing

namespace Reading

def takeInto : Nat → List UInt8 → Reading (List UInt8)
  | 0, taken, rest => .ok (taken.reverse, rest)
  | _ + 1, _, [] => .error (.stream .shortRead)
  | count + 1, taken, byte :: rest => takeInto count (byte :: taken) rest

def bytes (count : Nat) : Reading (List UInt8) :=
  takeInto count []

def just {α : Type} (value : α) : Reading α := fun rest =>
  .ok (value, rest)

def fail {α : Type} (error : Error) : Reading α := fun _ =>
  .error error

def andThen {α β : Type} (first : Reading α) (next : α → Reading β) : Reading β := fun bytes =>
  match first bytes with
  | .ok (value, rest) => next value rest
  | .error error => .error error

def map {α β : Type} (f : α → β) (first : Reading α) : Reading β :=
  andThen first fun value => just (f value)

def timesInto {α : Type} (read : Reading α) : Nat → List α → Reading (List α)
  | 0, values => just values.reverse
  | count + 1, values => andThen read fun value => timesInto read count (value :: values)

def times {α : Type} (read : Reading α) (count : Nat) : Reading (List α) :=
  timesInto read count []

end Reading

end EffectLang
