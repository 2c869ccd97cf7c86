import EffectLang.Effect.Property

/-!
The description of a shader effect: chunks of shading code, passes that run chunks as pipeline stages,
and properties. Shaders refer to chunks by index; one reserved index refers to nothing.
-/
namespace EffectLang

/-- The index that refers to nothing. -/
def noIndex : UInt32 := 0xFFFFFFFF

inductive Stage where
  | vertex
  | fragment
  | geometry
  | compute
  | hull
  | domain
deriving DecidableEq, Repr, Inhabited

namespace Stage

def code : Stage → UInt32
  | .vertex => 0
  | .fragment => 1
  | .geometry => 2
  | .compute => 3
  | .hull => 4
  | .domain => 5

def name : Stage → String
  | .vertex => "Vertex"
  | .fragment => "Fragment"
  | .geometry => "Geometry"
  | .compute => "Compute"
  | .hull => "Hull"
  | .domain => "Domain"

def define : Stage → String
  | .vertex => "VERTEX"
  | .fragment => "FRAGMENT"
  | .geometry => "GEOMETRY"
  | .compute => "COMPUTE"
  | .hull => "HULL"
  | .domain => "DOMAIN"

def tag : Stage → String
  | .vertex => "vt"
  | .fragment => "fg"
  | .geometry => "gm"
  | .compute => "cp"
  | .hull => "hl"
  | .domain => "dm"

end Stage

inductive Resource.Kind where
  | sampler
  | texture
  | textureRW
  | constants
  | buffer
  | bufferRW
deriving DecidableEq, Repr, Inhabited

def Resource.Kind.name : Resource.Kind → String
  | .sampler => "Sampler"
  | .texture => "Texture"
  | .textureRW => "TextureRW"
  | .constants => "Constants"
  | .buffer => "Buffer"
  | .bufferRW => "BufferRW"

structure Resource where
  kind : Resource.Kind := .sampler
  name : String := ""
deriving DecidableEq, Repr, Inhabited

def noStageFlag : UInt32 := 6

def localIncludeFlag : UInt32 := 0x10

/-- A named piece of shading code. Each include has a flag: the stage around it, or `noStageFlag`, with
`localIncludeFlag` when it comes from the effect itself. -/
structure Chunk where
  name : String := ""
  includes : List String := []
  includeFlags : List UInt32 := []
  resources : List Resource := []
  code : String := ""
deriving DecidableEq, Repr, Inhabited

/-- A stage of a pass and the index of the chunk that it runs. -/
structure Shader where
  stage : Stage := .vertex
  chunkIndex : UInt32 := noIndex
deriving DecidableEq, Repr, Inhabited

def Shader.index? (shader : Shader) : Option Nat :=
  if shader.chunkIndex = noIndex then none else some shader.chunkIndex.toNat

inductive Pass.Kind where
  | graphics
  | compute
deriving DecidableEq, Repr, Inhabited

def Pass.Kind.name : Pass.Kind → String
  | .graphics => "Graphics"
  | .compute => "Compute"

structure Pass where
  name : String := ""
  shaders : List Shader := []
  resourceLists : List UInt32 := []
  renderState : UInt32 := noIndex
  kind : Pass.Kind := .graphics
deriving DecidableEq, Repr, Inhabited

structure ResourceList where
  resources : List Resource := []
deriving DecidableEq, Repr, Inhabited

/-- A state of the fixed pipeline functions, known by its name only. -/
structure RenderState where
  name : String := ""
deriving DecidableEq, Repr, Inhabited

structure Effect where
  name : String := ""
  passes : List Pass := []
  chunks : List Chunk := []
  resourceLists : List ResourceList := []
  renderStates : List RenderState := []
  properties : List Property := []
deriving DecidableEq, Repr, Inhabited

namespace Effect

def findChunk? (effect : Effect) (name : String) : Option Nat :=
  effect.chunks.findIdx? fun chunk => chunk.name == name

def chunk? (effect : Effect) (shader : Shader) : Option Chunk :=
  match shader.index? with
  | none => none
  | some index => effect.chunks[index]?

end Effect

end EffectLang
