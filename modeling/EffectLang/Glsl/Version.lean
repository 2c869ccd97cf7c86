/-!
The versions of the shading language that stage files can be generated for.
-/
namespace EffectLang

inductive Glsl.Version where
  | core330
  | v430
  | v450
  | v460
deriving DecidableEq, Repr

instance : Inhabited Glsl.Version := ⟨.core330⟩

namespace Glsl.Version

def header : Glsl.Version → String
  | .core330 => "#version 330 core"
  | .v430 => "#version 430"
  | .v450 => "#version 450"
  | .v460 => "#version 460"

def ofNumber? (number : String) : Option Glsl.Version :=
  match number with
  | "330" => some .core330
  | "430" => some .v430
  | "450" => some .v450
  | "460" => some .v460
  | _ => none

def hasExplicitBinding : Glsl.Version → Bool
  | .core330 => false
  | _ => true

end Glsl.Version

end EffectLang
