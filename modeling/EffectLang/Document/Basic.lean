import EffectLang.Document.Chunk
import EffectLang.Document.Pass
import EffectLang.Document.Property

/-!
Effect files as a whole. Outside of blocks only the words `effect`, `glsl`, `pass` and `properties` count;
each begins a declaration. An `effect` names the effect and opens a block whose declarations count as if
they stood outside. The first complaint does not end the reading; a property without a usable default does.
-/
namespace EffectLang.Document

/-- A source that is being read: the effect so far, the `effect` blocks that are open, and the reader. -/
structure Progress where
  effect : Effect
  depth : Nat
  reader : Reader
deriving DecidableEq, Repr, Inhabited

namespace Progress

def moveTo (progress : Progress) (reader : Reader) : Progress :=
  { progress with reader }

def addChunk (progress : Progress) (chunk : Chunk) : Progress :=
  { progress with effect := { progress.effect with chunks := progress.effect.chunks ++ [chunk] } }

def addPass (progress : Progress) (pass : Pass) : Progress :=
  { progress with effect := { progress.effect with passes := progress.effect.passes ++ [pass] } }

def addProperties (progress : Progress) (properties : List Property) : Progress :=
  { progress with
    effect := { progress.effect with properties := progress.effect.properties ++ properties } }

end Progress

def heading (progress : Progress) : Progress :=
  match progress.reader.expect .identifier with
  | (.error _, reader) => progress.moveTo reader
  | (.ok name, reader) =>
    let effect := { progress.effect with name := name.text }
    match reader.expect .openBrace with
    | (.error _, reader) => ⟨effect, progress.depth, reader⟩
    | (.ok _, reader) => ⟨effect, progress.depth + 1, reader⟩

/-- The rest of a declaration that begins with a word. Other words begin none. -/
def declaration (word : String) (progress : Progress) : Option Error × Progress :=
  match word with
  | "effect" => (none, heading progress)
  | "glsl" =>
    match chunk? progress.reader with
    | (none, reader) => (none, progress.moveTo reader)
    | (some chunk, reader) => (none, (progress.moveTo reader).addChunk chunk)
  | "pass" =>
    match pass? progress.effect progress.reader with
    | (none, reader) => (none, progress.moveTo reader)
    | (some pass, reader) => (none, (progress.moveTo reader).addPass pass)
  | "properties" =>
    match properties progress.reader with
    | (.error error, reader) => (some error, progress.moveTo reader)
    | (.ok properties, reader) => (none, (progress.moveTo reader).addProperties properties)
  | _ => (none, progress)

theorem remaining_heading_le (progress : Progress) :
    (heading progress).reader.remaining ≤ progress.reader.remaining := by
  have first := progress.reader.remaining_expect_le .identifier
  unfold heading
  split
  · rename_i name
    rwa [name] at first
  · rename_i later name
    rw [name] at first
    have second := later.remaining_expect_le .openBrace
    dsimp only
    split <;> rename_i brace <;> rw [brace] at second <;> exact Nat.le_trans second first

theorem remaining_declaration_le (word : String) (progress : Progress) :
    (declaration word progress).2.reader.remaining ≤ progress.reader.remaining := by
  unfold declaration
  split
  · exact remaining_heading_le progress
  · have shorter := remaining_chunk?_le progress.reader
    split <;> rename_i read <;> rw [read] at shorter <;> exact shorter
  · have shorter := remaining_pass?_le progress.effect progress.reader
    split <;> rename_i read <;> rw [read] at shorter <;> exact shorter
  · have shorter := remaining_properties_le progress.reader
    split <;> rename_i read <;> rw [read] at shorter <;> exact shorter
  · exact Nat.le_refl _

/-- Reads declarations to the end of the source. Every `effect` block that is still open there lacks its
brace. -/
def declarations (progress : Progress) : Option Error × Progress :=
  let token := progress.reader.next.1
  let later := progress.moveTo progress.reader.next.2
  if token.kind = .endOfStream then
    if progress.depth = 0 then (none, later)
    else (none, later.moveTo (later.reader.report .closeBrace token))
  else if token.kind = .closeBrace then declarations { later with depth := later.depth - 1 }
  else if token.kind = .identifier then
    let item := declaration token.text later
    match item.1 with
    | some error => (some error, item.2)
    | none => declarations item.2
  else declarations later
termination_by progress.reader.remaining
decreasing_by
  · exact progress.reader.remaining_next_lt ‹_›
  · exact Nat.lt_of_le_of_lt (remaining_declaration_le _ _) (progress.reader.remaining_next_lt ‹_›)
  · exact progress.reader.remaining_next_lt ‹_›

def read (reader : Reader) : Except Error Effect × Reader :=
  match declarations ⟨{}, 0, reader⟩ with
  | (some error, progress) => (.error error, progress.reader)
  | (none, progress) => (.ok progress.effect, progress.reader)

/-- An effect that was read, with the first complaint about its source. -/
structure Outcome where
  effect : Effect
  error : Option Unexpected
deriving DecidableEq, Repr, Inhabited

def Outcome.strict (outcome : Outcome) : Except Error Effect :=
  match outcome.error with
  | some found => .error (.unexpectedToken found)
  | none => .ok outcome.effect

def outcome (reader : Reader) : Except Error Outcome :=
  match read reader with
  | (.error error, _) => .error error
  | (.ok effect, later) => .ok ⟨effect, later.error⟩

def parse (source : String) (capacity : LiteralTable.Capacity) : Except Error Outcome :=
  outcome (.start source capacity)

end EffectLang.Document
