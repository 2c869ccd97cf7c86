import EffectLang.Blob.Codec

/-!
Local constants: the float properties of an effect as a uniform block, and the defaults to fill it with. The
block ends with padding up to a multiple of four floats.
-/
namespace EffectLang

structure LocalConstants where
  block : String := ""
  defaults : List Single := []
deriving DecidableEq, Repr, Inhabited

namespace LocalConstants

/-- Number of padding floats after a number of members: at least one, up to a multiple of four. -/
def padding (floats : Nat) : Nat :=
  4 - floats % 4

def floatDefault? (property : Property) : Option Single :=
  match property.value with
  | .float default => some default
  | _ => none

def floats (effect : Effect) : List (String × Single) :=
  effect.properties.filterMap fun property => (floatDefault? property).map fun default => (property.name, default)

def opening : String :=
  "layout(std140, binding=7) uniform LocalConstants \x7b\n"

def member (name : String) : String :=
  "\tfloat " ++ name ++ ";\n"

def closing (padding : Nat) : String :=
  "\tfloat pad_tail[" ++ toString padding ++ "];\n\x7d;\n"

/-- The local constants of an effect; empty for one without properties. -/
def ofEffect (effect : Effect) : LocalConstants :=
  if effect.properties.isEmpty then {}
  else
    let members := floats effect
    let padding := padding members.length
    { block := opening ++ String.join (members.map fun (name, _) => member name) ++ closing padding
      defaults := members.map Prod.snd ++ List.replicate padding .zero }

def byteSize (constants : LocalConstants) : UInt32 :=
  UInt32.ofNat (constants.defaults.length * 4)

def blob (constants : LocalConstants) : Except Error (List UInt8) :=
  Writing.run (.andThen (Codec.uint32.write constants.byteSize) (.each Codec.single.write constants.defaults))

end LocalConstants

end EffectLang
