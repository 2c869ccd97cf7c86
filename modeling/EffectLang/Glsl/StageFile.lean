import EffectLang.Error
import EffectLang.Glsl.Version

/-!
Stage files: one file of shading code for every shader of every pass. A file begins with the version line and
a definition that tells the stage; the code of the chunk follows as it stands.
-/
namespace EffectLang

structure StageFile where
  name : String
  source : String
deriving DecidableEq, Repr, Inhabited

namespace StageFile

def stem (chunk : Chunk) (stage : Stage) : String :=
  chunk.name ++ "_" ++ stage.tag

def generate (version : Glsl.Version) (chunk : Chunk) (stage : Stage) : StageFile where
  name := stem chunk stage ++ ".glsl"
  source := version.header ++ "\n#define " ++ stage.define ++ "\n" ++ chunk.code

end StageFile

namespace Effect

def stageFile (effect : Effect) (version : Glsl.Version) (pass : Pass) (shader : Shader) : Except Error StageFile :=
  match effect.chunk? shader with
  | some chunk => .ok (.generate version chunk shader.stage)
  | none => .error (.unresolvedChunk pass.name shader.stage shader.chunkIndex)

def shaders (effect : Effect) : List (Pass × Shader) :=
  effect.passes.flatMap fun pass => pass.shaders.map fun shader => (pass, shader)

/-- The stage files of an effect, one for each shader. The first shader without a chunk is an error. -/
def stageFiles (effect : Effect) (version : Glsl.Version) : Except Error (List StageFile) :=
  effect.shaders.mapM fun (pass, shader) => effect.stageFile version pass shader

end Effect

end EffectLang
