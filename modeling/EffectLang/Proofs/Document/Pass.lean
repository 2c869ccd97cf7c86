import EffectLang.Proofs.Document.Facing

/-!
Passes are read back: each line gives the shader that it describes, in order, and the block ends with its
brace.
-/
namespace EffectLang.Document

open Source

section Lines

variable {enough : Prop} {atoms : List Atom}

theorem resolve_eq (effect : Effect) (line : Line) :
    line.shader effect.chunks = ⟨line.stage.stage, resolve effect line.chunk.text⟩ := by
  have found : (effect.chunks.map Chunk.name).idxOf? line.chunk.text = effect.findChunk? line.chunk.text := by
    simp [Effect.findChunk?, List.idxOf?, List.findIdx?_map, Function.comp_def]
  rw [Line.shader, found, resolve]
  split <;> simp_all

theorem lineStage?_word (stage : LineStage) : lineStage? stage.word.text = some stage.stage := by
  cases stage <;> rfl

theorem passLine_of_facing (effect : Effect) {line : Line} {word : Token} {reader : Reader}
    (named : word.text = line.stage.word.text)
    (facing : reader.Facing enough (.mark .equals :: .word line.chunk :: atoms)) :
    ∃ later, passLine effect word reader = ([line.shader effect.chunks], later) ∧ later.Facing enough atoms := by
  obtain ⟨signKind, -, facingName⟩ := facing.next_mark
  obtain ⟨nameKind, text, facingLater⟩ := facingName.next_word
  have sign : reader.expect .equals = _ := facing.expect signKind
  have name := facingName.expect nameKind
  refine ⟨_, ?_, facingLater⟩
  simp only [passLine, named, lineStage?_word, shader, sign, name, text, resolve_eq]

private theorem passBody_done {effect : Effect} {shaders : List Shader} {reader later : Reader}
    (found : nextWord? reader = (none, later)) : passBody effect shaders reader = (shaders, later) := by
  rw [passBody]
  split <;> simp_all

private theorem passBody_line {effect : Effect} {shaders line : List Shader} {word : Token}
    {reader afterWord afterLine : Reader} (found : nextWord? reader = (some word, afterWord))
    (read : passLine effect word afterWord = (line, afterLine)) :
    passBody effect shaders reader = passBody effect (shaders ++ line) afterLine := by
  rw [passBody]
  split <;> simp_all

theorem passBody_of_facing {effect : Effect} (lines : List Line) (shaders : List Shader) {reader : Reader}
    (facing : reader.Facing enough (lines.flatMap Line.atoms ++ .mark .closeBrace :: atoms)) :
    ∃ later, passBody effect shaders reader = (shaders ++ lines.map (Line.shader effect.chunks), later) ∧
      later.Facing enough atoms := by
  induction lines generalizing shaders reader with
  | nil =>
    obtain ⟨later, found, facingLater⟩ := nextWord?_of_closeBrace facing
    exact ⟨later, by simp [passBody_done found], facingLater⟩
  | cons line lines ih =>
    obtain ⟨word, afterWord, found, named, facingLine⟩ := nextWord?_of_word facing
    obtain ⟨afterLine, read, facingLines⟩ := passLine_of_facing effect named facingLine
    obtain ⟨later, rest, facingLater⟩ := ih (shaders ++ [line.shader effect.chunks]) facingLines
    refine ⟨later, ?_, facingLater⟩
    rw [passBody_line found read, rest]
    simp

end Lines

theorem passKind_shaders (chunks : List Chunk) (lines : List Line) :
    passKind (lines.map (Line.shader chunks)) = Declaration.passKind lines := by
  have stage (line : Line) : (line.shader chunks).stage = line.stage.stage := by
    unfold Line.shader
    split <;> rfl
  simp [passKind, Declaration.passKind, Function.comp_def, stage]

/-- A pass is read back with the shaders of its lines. -/
theorem pass?_of_facing {enough : Prop} {effect : Effect} {reader : Reader} {atoms : List Atom} {name : Word}
    {lines : List Line}
    (facing : reader.Facing enough
      (.word name :: .mark .openBrace :: (lines.flatMap Line.atoms ++ .mark .closeBrace :: atoms))) :
    ∃ later, pass? effect reader =
        (some { name := name.text, shaders := lines.map (Line.shader effect.chunks),
                kind := Declaration.passKind lines }, later) ∧
      later.Facing enough atoms := by
  obtain ⟨nameKind, text, facingBrace⟩ := facing.next_word
  obtain ⟨braceKind, -, facingLines⟩ := facingBrace.next_mark
  have nameRead := facing.expect nameKind
  have braceRead : reader.next.2.expect .openBrace = _ := facingBrace.expect braceKind
  obtain ⟨later, body, facingLater⟩ := @passBody_of_facing enough atoms effect lines [] _ facingLines
  refine ⟨later, ?_, facingLater⟩
  simp only [pass?, nameRead, braceRead, body, List.nil_append, text, passKind_shaders]

end EffectLang.Document
