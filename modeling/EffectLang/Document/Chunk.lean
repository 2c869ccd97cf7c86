import EffectLang.Effect.Basic
import EffectLang.Token.Reader

/-!
Code chunks in a source: the word `glsl`, a name and a block in braces. The block is shading code and is
kept as it stands; on the way to its closing brace its includes, its stage conditionals and its texture
uniforms are noted.
-/
namespace EffectLang.Document

/-- The stage conditionals that are open at a place of a block: how deep conditionals are nested, the depth
at which each stage's conditional was opened last, and the stage whose conditional was opened last. -/
structure Conditionals where
  stage : Option Stage := none
  depth : Nat := 0
  vertex : Option Nat := none
  fragment : Option Nat := none
  compute : Option Nat := none
deriving DecidableEq, Repr, Inhabited

namespace Conditionals

def stageOf? (word : String) : Option Stage :=
  match word with
  | "VERTEX" => some .vertex
  | "FRAGMENT" => some .fragment
  | "COMPUTE" => some .compute
  | _ => none

def enter (state : Conditionals) (word : String) : Conditionals :=
  let deeper := { state with depth := state.depth + 1 }
  match stageOf? word with
  | some .vertex => { deeper with stage := some .vertex, vertex := some deeper.depth }
  | some .fragment => { deeper with stage := some .fragment, fragment := some deeper.depth }
  | some .compute => { deeper with stage := some .compute, compute := some deeper.depth }
  | _ => deeper

/-- Leaves the innermost conditional, if there is one. When a stage was opened at its depth, no stage is
current afterwards. -/
def leave (state : Conditionals) : Conditionals :=
  let closed :=
    if state.vertex = some state.depth then { state with stage := none, vertex := none }
    else if state.fragment = some state.depth then { state with stage := none, fragment := none }
    else if state.compute = some state.depth then { state with stage := none, compute := none }
    else state
  { closed with depth := state.depth - 1 }

def flag (state : Conditionals) : UInt32 :=
  match state.stage with
  | some stage => stage.code
  | none => noStageFlag

end Conditionals

structure Block where
  chunk : Chunk
  conditionals : Conditionals
deriving DecidableEq, Repr, Inhabited

namespace Block

def addInclude (block : Block) (name : String) (flag : UInt32) : Block :=
  { block with
    chunk :=
      { block.chunk with
        includes := block.chunk.includes ++ [name]
        includeFlags := block.chunk.includeFlags ++ [flag] } }

def addResource (block : Block) (kind : Resource.Kind) (name : String) : Block :=
  { block with chunk := { block.chunk with resources := block.chunk.resources ++ [⟨kind, name⟩] } }

end Block

/-- The next token, or the one after it when the next is an opening parenthesis. -/
def insideParen (reader : Reader) : Token × Reader :=
  if reader.next.1.kind = .openParen then reader.next.2.next else reader.next

/-- The rest of `#if`: the word `defined` and a name, which may stand in parentheses. -/
def conditional (block : Block) (reader : Reader) : Block × Reader :=
  if reader.next.1.isKeyword "defined" then
    let (name, later) := insideParen reader.next.2
    ({ block with conditionals := block.conditionals.enter name.text }, later)
  else
    (block, reader.next.2)

def includeFlag? (conditionals : Conditionals) (word : String) : Option UInt32 :=
  match word with
  | "include" => some conditionals.flag
  | "include_hfx" => some (conditionals.flag ||| localIncludeFlag)
  | _ => none

/-- The rest of `#pragma`: the word that asks for an include, and its name. -/
def pragma (block : Block) (reader : Reader) : Block × Reader :=
  match includeFlag? block.conditionals reader.next.1.text with
  | none => (block, reader.next.2)
  | some flag => (block.addInclude reader.next.2.next.1.text flag, reader.next.2.next.2)

def directive (word : Token) (block : Block) (reader : Reader) : Block × Reader :=
  match word.text with
  | "if" => conditional block reader
  | "pragma" => pragma block reader
  | "endif" => ({ block with conditionals := block.conditionals.leave }, reader)
  | _ => (block, reader)

def uniformKind? (type : String) : Option Resource.Kind :=
  match type with
  | "sampler2D" => some .texture
  | "image2D" => some .textureRW
  | _ => none

def uniform (type : Token) (block : Block) (reader : Reader) : Block × Reader :=
  match uniformKind? type.text with
  | none => (block, reader)
  | some kind => (block.addResource kind reader.next.1.text, reader.next.2)

def blockItem (token : Token) (block : Block) (reader : Reader) : Block × Reader :=
  if token.kind = .hash then directive reader.next.1 block reader.next.2
  else if token.kind = .identifier ∧ token.isKeyword "uniform" then uniform reader.next.1 block reader.next.2
  else (block, reader)

theorem remaining_insideParen_le (reader : Reader) : (insideParen reader).2.remaining ≤ reader.remaining := by
  unfold insideParen
  split
  · exact Nat.le_trans reader.next.2.remaining_next_le reader.remaining_next_le
  · exact reader.remaining_next_le

theorem remaining_conditional_le (block : Block) (reader : Reader) :
    (conditional block reader).2.remaining ≤ reader.remaining := by
  unfold conditional
  split
  · exact Nat.le_trans (remaining_insideParen_le reader.next.2) reader.remaining_next_le
  · exact reader.remaining_next_le

theorem remaining_pragma_le (block : Block) (reader : Reader) :
    (pragma block reader).2.remaining ≤ reader.remaining := by
  unfold pragma
  split
  · exact reader.remaining_next_le
  · exact Nat.le_trans reader.next.2.remaining_next_le reader.remaining_next_le

theorem remaining_directive_le (word : Token) (block : Block) (reader : Reader) :
    (directive word block reader).2.remaining ≤ reader.remaining := by
  unfold directive
  split
  · exact remaining_conditional_le block reader
  · exact remaining_pragma_le block reader
  · exact Nat.le_refl _
  · exact Nat.le_refl _

theorem remaining_uniform_le (type : Token) (block : Block) (reader : Reader) :
    (uniform type block reader).2.remaining ≤ reader.remaining := by
  unfold uniform
  split
  · exact Nat.le_refl _
  · exact reader.remaining_next_le

theorem remaining_blockItem_le (token : Token) (block : Block) (reader : Reader) :
    (blockItem token block reader).2.remaining ≤ reader.remaining := by
  have first := reader.remaining_next_le
  unfold blockItem
  split
  · exact Nat.le_trans (remaining_directive_le _ _ _) first
  · split
    · exact Nat.le_trans (remaining_uniform_le _ _ _) first
    · exact Nat.le_refl _

/-- Reads a block up to the brace that closes it, with `braces + 1` braces open. The result is the chunk
with the closing brace, or none when the source ends first. -/
def blockBody (braces : Nat) (block : Block) (reader : Reader) : Option (Chunk × Token) × Reader :=
  let token := reader.next.1
  if token.kind = .endOfStream then (none, reader.next.2.report .closeBrace token)
  else if token.kind = .openBrace then blockBody (braces + 1) block reader.next.2
  else if token.kind = .closeBrace then
    match braces with
    | 0 => (some (block.chunk, token), reader.next.2)
    | braces + 1 => blockBody braces block reader.next.2
  else
    let item := blockItem token block reader.next.2
    blockBody braces item.1 item.2
termination_by reader.remaining
decreasing_by
  · exact reader.remaining_next_lt ‹_›
  · exact reader.remaining_next_lt ‹_›
  · exact Nat.lt_of_le_of_lt (remaining_blockItem_le _ _ _) (reader.remaining_next_lt ‹_›)

theorem remaining_blockBody_le (braces : Nat) (block : Block) (reader : Reader) :
    (blockBody braces block reader).2.remaining ≤ reader.remaining := by
  fun_induction blockBody braces block reader with
  | case1 => simpa using Reader.remaining_next_le _
  | case2 _ _ _ _ _ _ ih => exact Nat.le_trans ih (Reader.remaining_next_le _)
  | case3 => exact Reader.remaining_next_le _
  | case4 _ _ _ _ _ _ _ ih => exact Nat.le_trans ih (Reader.remaining_next_le _)
  | case5 _ _ _ _ _ _ _ _ ih =>
    exact Nat.le_trans ih (Nat.le_trans (remaining_blockItem_le _ _ _) (Reader.remaining_next_le _))

/-- A chunk, from its name on; none when it is not complete. Its code is the text between its braces. -/
def chunk? (reader : Reader) : Option Chunk × Reader :=
  match reader.expect .identifier with
  | (.error _, reader) => (none, reader)
  | (.ok name, reader) =>
    match reader.expect .openBrace with
    | (.error _, reader) => (none, reader)
    | (.ok brace, reader) =>
      match blockBody 0 ⟨{ name := name.text }, {}⟩ reader with
      | (none, reader) => (none, reader)
      | (some (chunk, closing), reader) =>
        let code := reader.textBetween (min brace.stop closing.offset) closing.offset
        (some { chunk with code }, reader)

theorem remaining_chunk?_le (reader : Reader) : (chunk? reader).2.remaining ≤ reader.remaining := by
  have first := reader.remaining_expect_le .identifier
  unfold chunk?
  split
  · rename_i named
    simpa [named] using first
  · rename_i name opened named
    have second := opened.remaining_expect_le .openBrace
    rw [named] at first
    split
    · rename_i braced
      rw [braced] at second
      exact Nat.le_trans second first
    · rename_i brace inside braced
      have third := remaining_blockBody_le 0 ⟨{ name := name.text }, {}⟩ inside
      rw [braced] at second
      split
      · rename_i body
        rw [body] at third
        exact Nat.le_trans third (Nat.le_trans second first)
      · rename_i body
        rw [body] at third
        exact Nat.le_trans third (Nat.le_trans second first)

end EffectLang.Document
