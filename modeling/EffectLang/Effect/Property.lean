import EffectLang.Number.Binary

/-!
Properties: the adjustable values of an effect. Each has a name, a label for the user and a value whose
shape follows its kind.
-/
namespace EffectLang

inductive Property.Kind where
  | float
  | int
  | range
  | color
  | vector
  | texture1D
  | texture2D
  | texture3D
  | textureVolume
  | unknown
deriving DecidableEq, Repr, Inhabited

inductive TextureShape where
  | d1
  | d2
  | d3
  | volume
deriving DecidableEq, Repr, Inhabited

/-- The value of a property: its default, and the bounds of a range. -/
inductive Property.Value where
  | float (default : Single)
  | int (default : Int32)
  | range (min max default : Single)
  | color
  | vector
  | texture (shape : TextureShape) (default : String)
  | unknown
deriving DecidableEq, Repr, Inhabited

structure Property where
  name : String := ""
  label : String := ""
  value : Property.Value := .unknown
deriving DecidableEq, Repr, Inhabited

def TextureShape.kind : TextureShape → Property.Kind
  | .d1 => .texture1D
  | .d2 => .texture2D
  | .d3 => .texture3D
  | .volume => .textureVolume

namespace Property.Kind

def ofTypeName (text : String) : Property.Kind :=
  match text with
  | "Float" => .float
  | "Int" => .int
  | "Range" => .range
  | "Color" => .color
  | "Vector" => .vector
  | "1D" => .texture1D
  | "2D" => .texture2D
  | "3D" => .texture3D
  | "Volume" => .textureVolume
  | _ => .unknown

def shape? : Property.Kind → Option TextureShape
  | .texture1D => some .d1
  | .texture2D => some .d2
  | .texture3D => some .d3
  | .textureVolume => some .volume
  | _ => none

end Property.Kind

namespace Property.Value

/-- The value of a property that gives no default. -/
def empty : Property.Kind → Property.Value
  | .float => .float .zero
  | .int => .int 0
  | .range => .range .zero .one .zero
  | .color => .color
  | .vector => .vector
  | .texture1D => .texture .d1 ""
  | .texture2D => .texture .d2 ""
  | .texture3D => .texture .d3 ""
  | .textureVolume => .texture .volume ""
  | .unknown => .unknown

def kind : Property.Value → Property.Kind
  | .float _ => .float
  | .int _ => .int
  | .range _ _ _ => .range
  | .color => .color
  | .vector => .vector
  | .texture shape _ => shape.kind
  | .unknown => .unknown

@[simp] theorem kind_empty (kind : Property.Kind) : (empty kind).kind = kind := by
  cases kind <;> rfl

end Property.Value

@[simp] theorem TextureShape.shape?_kind (shape : TextureShape) : shape.kind.shape? = some shape := by
  cases shape <;> rfl

end EffectLang
