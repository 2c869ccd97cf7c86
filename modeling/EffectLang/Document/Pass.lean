import EffectLang.Document.Block
import EffectLang.Effect.Basic

/-!
Passes in a source: the word `pass`, a name and a block of lines `stage = chunk`. A line refers to the
first chunk of that name among those that come before the pass.
-/
namespace EffectLang.Document

def lineStage? (word : String) : Option Stage :=
  match word with
  | "vertex" => some .vertex
  | "fragment" => some .fragment
  | "compute" => some .compute
  | _ => none

def resolve (effect : Effect) (name : String) : UInt32 :=
  match effect.findChunk? name with
  | some index => UInt32.ofNat index
  | none => noIndex

/-- The chunk of a stage, from the equals sign on. Without one the shader refers to nothing. -/
def shader (effect : Effect) (stage : Stage) (reader : Reader) : Shader × Reader :=
  match reader.expect .equals with
  | (.error _, reader) => (⟨stage, noIndex⟩, reader)
  | (.ok _, reader) =>
    match reader.expect .identifier with
    | (.error _, reader) => (⟨stage, noIndex⟩, reader)
    | (.ok name, reader) => (⟨stage, resolve effect name.text⟩, reader)

theorem remaining_shader_le (effect : Effect) (stage : Stage) (reader : Reader) :
    (shader effect stage reader).2.remaining ≤ reader.remaining := by
  have first := reader.remaining_expect_le .equals
  unfold shader
  split
  · rename_i sign
    simpa [sign] using first
  · rename_i token later sign
    have second := later.remaining_expect_le .identifier
    rw [sign] at first
    split <;> rename_i name <;> rw [name] at second <;> exact Nat.le_trans second first

def passLine (effect : Effect) (word : Token) (reader : Reader) : List Shader × Reader :=
  match lineStage? word.text with
  | none => ([], reader)
  | some stage =>
    let (shader, reader) := shader effect stage reader
    ([shader], reader)

theorem remaining_passLine_le (effect : Effect) (word : Token) (reader : Reader) :
    (passLine effect word reader).2.remaining ≤ reader.remaining := by
  unfold passLine
  split
  · exact Nat.le_refl _
  · exact remaining_shader_le _ _ _

def passBody (effect : Effect) (shaders : List Shader) (reader : Reader) : List Shader × Reader :=
  match _ : nextWord? reader with
  | (none, reader) => (shaders, reader)
  | (some word, reader) =>
    let line := passLine effect word reader
    passBody effect (shaders ++ line.1) line.2
termination_by reader.remaining
decreasing_by
  rename_i start found
  have shorter := remaining_nextWord?_lt start (by simp [found])
  rw [found] at shorter
  exact Nat.lt_of_le_of_lt (remaining_passLine_le _ _ _) shorter

theorem remaining_passBody_le (effect : Effect) (shaders : List Shader) (reader : Reader) :
    (passBody effect shaders reader).2.remaining ≤ reader.remaining := by
  fun_induction passBody effect shaders reader with
  | case1 shaders start reader found =>
    have := remaining_nextWord?_le start
    rwa [found] at this
  | case2 shaders start word reader found line ih =>
    have := remaining_nextWord?_le start
    rw [found] at this
    exact Nat.le_trans ih (Nat.le_trans (remaining_passLine_le _ _ _) this)

def passKind (shaders : List Shader) : Pass.Kind :=
  if shaders.any fun shader => shader.stage == .compute then .compute else .graphics

/-- A pass, from its name on; none when it does not begin with a name and a brace. -/
def pass? (effect : Effect) (reader : Reader) : Option Pass × Reader :=
  match reader.expect .identifier with
  | (.error _, reader) => (none, reader)
  | (.ok name, reader) =>
    match reader.expect .openBrace with
    | (.error _, reader) => (none, reader)
    | (.ok _, reader) =>
      let (shaders, reader) := passBody effect [] reader
      (some { name := name.text, shaders, kind := passKind shaders }, reader)

theorem remaining_pass?_le (effect : Effect) (reader : Reader) :
    (pass? effect reader).2.remaining ≤ reader.remaining := by
  have first := reader.remaining_expect_le .identifier
  unfold pass?
  split
  · rename_i named
    simpa [named] using first
  · rename_i name opened named
    have second := opened.remaining_expect_le .openBrace
    rw [named] at first
    split
    · rename_i braced
      rw [braced] at second
      exact Nat.le_trans second first
    · rename_i braced
      rw [braced] at second
      exact Nat.le_trans (remaining_passBody_le _ _ _) (Nat.le_trans second first)

end EffectLang.Document
