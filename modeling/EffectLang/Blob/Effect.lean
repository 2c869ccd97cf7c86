import EffectLang.Blob.Codec
import EffectLang.Effect.Basic

/-!
The binary form of an effect. The order of the fields here is the format.
-/
namespace EffectLang

def Stage.ofCode? (code : UInt32) : Option Stage :=
  match code.toNat with
  | 0 => some .vertex
  | 1 => some .fragment
  | 2 => some .geometry
  | 3 => some .compute
  | 4 => some .hull
  | 5 => some .domain
  | _ => none

def Resource.Kind.code : Resource.Kind → UInt32
  | .sampler => 0
  | .texture => 1
  | .textureRW => 2
  | .constants => 3
  | .buffer => 4
  | .bufferRW => 5

def Resource.Kind.ofCode? (code : UInt32) : Option Resource.Kind :=
  match code.toNat with
  | 0 => some .sampler
  | 1 => some .texture
  | 2 => some .textureRW
  | 3 => some .constants
  | 4 => some .buffer
  | 5 => some .bufferRW
  | _ => none

def Pass.Kind.code : Pass.Kind → UInt32
  | .graphics => 0
  | .compute => 1

def Pass.Kind.ofCode? (code : UInt32) : Option Pass.Kind :=
  match code.toNat with
  | 0 => some .graphics
  | 1 => some .compute
  | _ => none

def Property.Kind.code : Property.Kind → UInt32
  | .float => 0
  | .int => 1
  | .range => 2
  | .color => 3
  | .vector => 4
  | .texture1D => 5
  | .texture2D => 6
  | .texture3D => 7
  | .textureVolume => 8
  | .unknown => 9

def Property.Kind.ofCode? (code : UInt32) : Option Property.Kind :=
  match code.toNat with
  | 0 => some .float
  | 1 => some .int
  | 2 => some .range
  | 3 => some .color
  | 4 => some .vector
  | 5 => some .texture1D
  | 6 => some .texture2D
  | 7 => some .texture3D
  | 8 => some .textureVolume
  | 9 => some .unknown
  | _ => none

theorem Stage.ofCode?_code (stage : Stage) : Stage.ofCode? stage.code = some stage := by
  cases stage <;> rfl

theorem Resource.Kind.ofCode?_code (kind : Resource.Kind) : Resource.Kind.ofCode? kind.code = some kind := by
  cases kind <;> rfl

theorem Pass.Kind.ofCode?_code (kind : Pass.Kind) : Pass.Kind.ofCode? kind.code = some kind := by
  cases kind <;> rfl

theorem Property.Kind.ofCode?_code (kind : Property.Kind) : Property.Kind.ofCode? kind.code = some kind := by
  cases kind <;> rfl

namespace Codec

def stage : Codec Stage := enumeration "shader stage" Stage.code Stage.ofCode?

def resourceKind : Codec Resource.Kind := enumeration "resource type" Resource.Kind.code Resource.Kind.ofCode?

def passKind : Codec Pass.Kind := enumeration "pass kind" Pass.Kind.code Pass.Kind.ofCode?

def propertyKind : Codec Property.Kind := enumeration "property kind" Property.Kind.code Property.Kind.ofCode?

def resource : Codec Resource :=
  (pair resourceKind string).iso (fun (kind, name) => ⟨kind, name⟩) fun value => (value.kind, value.name)

def chunk : Codec Chunk :=
  (pair string (pair (list string) (pair (list uint32) (pair (list resource) string)))).iso
    (fun (name, includes, includeFlags, resources, code) => ⟨name, includes, includeFlags, resources, code⟩)
    fun value => (value.name, value.includes, value.includeFlags, value.resources, value.code)

def shader : Codec Shader :=
  (pair stage uint32).iso (fun (stage, chunkIndex) => ⟨stage, chunkIndex⟩)
    fun value => (value.stage, value.chunkIndex)

def pass : Codec Pass :=
  (pair string (pair (list shader) (pair (list uint32) (pair uint32 passKind)))).iso
    (fun (name, shaders, resourceLists, renderState, kind) => ⟨name, shaders, resourceLists, renderState, kind⟩)
    fun value => (value.name, value.shaders, value.resourceLists, value.renderState, value.kind)

def resourceList : Codec ResourceList :=
  (list resource).iso ResourceList.mk ResourceList.resources

def renderState : Codec RenderState :=
  string.iso RenderState.mk RenderState.name

def floatPayload : Codec Property.Value :=
  single.iso .float fun
    | .float default => default
    | _ => .zero

def intPayload : Codec Property.Value :=
  int32.iso .int fun
    | .int default => default
    | _ => 0

def rangePayload : Codec Property.Value :=
  (pair single (pair single single)).iso (fun (min, max, default) => .range min max default) fun
    | .range min max default => (min, max, default)
    | _ => (.zero, .one, .zero)

def texturePayload (shape : TextureShape) : Codec Property.Value :=
  string.iso (.texture shape) fun
    | .texture _ default => default
    | _ => ""

/-- The values of one property kind, without the kind. A value of another kind is never written this way. -/
def payload : Property.Kind → Codec Property.Value
  | .float => floatPayload
  | .int => intPayload
  | .range => rangePayload
  | .color => unit .color
  | .vector => unit .vector
  | .texture1D => texturePayload .d1
  | .texture2D => texturePayload .d2
  | .texture3D => texturePayload .d3
  | .textureVolume => texturePayload .volume
  | .unknown => unit .unknown

def propertyValue : Codec Property.Value :=
  tagged propertyKind Property.Value.kind payload

def property : Codec Property :=
  (pair string (pair string propertyValue)).iso (fun (name, label, value) => ⟨name, label, value⟩)
    fun value => (value.name, value.label, value.value)

def effect : Codec Effect :=
  (pair string (pair (list pass) (pair (list chunk) (pair (list resourceList)
    (pair (list renderState) (list property)))))).iso
    (fun (name, passes, chunks, resourceLists, renderStates, properties) =>
      ⟨name, passes, chunks, resourceLists, renderStates, properties⟩)
    fun value => (value.name, value.passes, value.chunks, value.resourceLists, value.renderStates,
      value.properties)

end Codec

namespace Effect

def toBytes (effect : Effect) : Except Error (List UInt8) :=
  (Codec.effect.write effect).run

/-- The effect at the front of a byte sequence; what follows it is ignored. -/
def ofBytes (bytes : List UInt8) : Except Error Effect :=
  (Codec.effect.read bytes).map Prod.fst

end Effect

end EffectLang
