import EffectLang.Glsl.StageFile
import EffectLang.Proofs.Document.Recovery
import EffectLang.Proofs.Effect.WellFormed

/-!
Files with more chunks than an index can tell apart. A line of a pass refers to the last chunk, but the index that its
shader holds is a 32-bit word, so with enough chunks before it the shader has another one.
-/
namespace EffectLang

namespace Source

def Code.nothing : Code where
  chars := []
  balanced := by decide +kernel
  plain := by decide +kernel
  completes := .gap Trivia.gap_nil

def Code.x : Code where
  chars := ['x']
  balanced := by decide +kernel
  plain := by decide +kernel
  completes := .lexeme rfl nofun (.gap Trivia.gap_nil)

def Word.a : Word := .letter 'a' rfl

def Word.b : Word := .letter 'b' rfl

/-- A chunk with some code, copies of its name without code, and a chunk of another name. A pass runs both names. -/
def crowd (copies : Nat) : File where
  heading := none
  declarations := .chunk .a .x :: (List.replicate copies (.chunk .a .nothing) ++
    [.chunk .b .nothing, .pass .a [⟨.vertex, .a⟩, ⟨.vertex, .b⟩]])

end Source

namespace Effect

open Source

/-- The effect of a crowded file. -/
def crowded (copies : Nat) : Effect where
  chunks := { name := "a", code := "x" } :: (List.replicate copies { name := "a" } ++ [{ name := "b" }])
  passes := [{ name := "a", shaders := [⟨.vertex, 0⟩, ⟨.vertex, UInt32.ofNat (copies + 1)⟩] }]

theorem foldl_addTo_replicate (effect : Effect) (copies : Nat) (name : Word) (code : Code) :
    (List.replicate copies (Declaration.chunk name code)).foldl Declaration.addTo effect =
      { effect with chunks := effect.chunks ++ List.replicate copies { name := name.text, code := code.text } } := by
  induction copies generalizing effect with
  | zero => simp
  | succ copies ih => simp [List.replicate_succ, ih, Declaration.addTo]

theorem shader_a (copies : Nat) : Line.shader (crowded copies).chunks ⟨.vertex, .a⟩ = ⟨.vertex, 0⟩ := by
  have index : ((crowded copies).chunks.map Chunk.name).idxOf? Word.a.text = some 0 := by
    simp [crowded, List.idxOf?_cons, show Word.a.text = "a" from rfl]
  simp only [Line.shader, index]
  rfl

theorem shader_b (copies : Nat) :
    Line.shader (crowded copies).chunks ⟨.vertex, .b⟩ = ⟨.vertex, UInt32.ofNat (copies + 1)⟩ := by
  have index : ((crowded copies).chunks.map Chunk.name).idxOf? Word.b.text = some (copies + 1) := by
    simp [crowded, List.idxOf?, List.findIdx?_cons, List.findIdx?_append, show Word.b.text = "b" from rfl]
  simp only [Line.shader, index]
  rfl

theorem effect_crowd (copies : Nat) : (crowd copies).effect = crowded copies := by
  have chunks : ([{ name := "a", code := "x" }] ++ List.replicate copies { name := "a" } ++ [{ name := "b" }] :
      List Chunk) = (crowded copies).chunks := rfl
  have declared : (crowd copies).effect = Declaration.addTo { chunks := (crowded copies).chunks }
      (.pass .a [⟨.vertex, .a⟩, ⟨.vertex, .b⟩]) := by
    rw [← chunks]
    simp only [crowd, File.effect, List.foldl_cons, List.foldl_append, List.foldl_nil, foldl_addTo_replicate]
    rfl
  rw [declared]
  simp only [Declaration.addTo, List.map_cons, List.map_nil, shader_a, shader_b]
  rfl

/-- The index of the last chunk is the number of those before it, as far as a 32-bit word can tell. -/
theorem parse_crowd (copies : Nat) :
    Document.parse (String.ofList (spaced (crowd copies).atoms)) {} = .ok ⟨crowded copies, none⟩ := by
  have written : Layout (crowd copies).atoms (String.ofList (spaced (crowd copies).atoms)).toList := by
    rw [String.toList_ofList]
    exact layout_spaced _
  rw [← effect_crowd]
  apply (Document.parse_of_written (crowd copies) written False.elim (.inr (by decide))).resolve_right
  rintro ⟨-, -, item, member, isProperties⟩
  simp only [crowd, List.mem_cons, List.mem_append, List.mem_replicate, List.not_mem_nil, or_false] at member
  obtain rfl | ⟨-, rfl⟩ | rfl | rfl := member <;> cases isProperties

theorem getElem?_crowded {copies : Nat} (positive : 0 < copies) :
    (crowded copies).chunks[1]? = some { name := "a" } := by
  simp [crowded, positive]

/-- With so many chunks before it that the index comes round, the last one is out of reach: its shader has the index of
the second. -/
theorem passes_crowded {copies : Nat} (wraps : (copies + 1) % 2 ^ 32 = 1) :
    (crowded copies).passes = [{ name := "a", shaders := [⟨.vertex, 0⟩, ⟨.vertex, 1⟩] }] := by
  have index : UInt32.ofNat (copies + 1) = 1 := UInt32.toNat_inj.mp wraps
  rw [crowded, index]

theorem not_isFirst_crowded {copies : Nat} (positive : 0 < copies) : ¬(crowded copies).IsFirst 1 := by
  rintro ⟨chunk, there, noEarlier⟩
  rw [getElem?_crowded positive] at there
  cases there
  exact noEarlier { name := "a", code := "x" } (by simp [crowded]) rfl

theorem stageFiles_crowded (version : Glsl.Version) {copies : Nat} (positive : 0 < copies)
    (wraps : (copies + 1) % 2 ^ 32 = 1) :
    (crowded copies).stageFiles version =
      .ok [.generate version { name := "a", code := "x" } .vertex, .generate version { name := "a" } .vertex] := by
  have first : (crowded copies).chunk? ⟨.vertex, 0⟩ = some { name := "a", code := "x" } := rfl
  have second : (crowded copies).chunk? ⟨.vertex, 1⟩ = some { name := "a" } := getElem?_crowded positive
  simp only [stageFiles, shaders, passes_crowded wraps, List.flatMap_cons, List.flatMap_nil, List.append_nil,
    List.map_cons, List.map_nil, List.mapM_cons, List.mapM_nil, stageFile, first, second]
  rfl

end Effect

end EffectLang
