import EffectLang.Effect.Basic
import EffectLang.Number.Shortest
import EffectLang.Text.Quoted

/-!
The summary of an effect: one line per part, chunks first, then passes, then properties. Names stand as
they are; texts that are values are quoted, and numbers have the fewest digits that read back.
-/
namespace EffectLang

namespace Summary

/-- Positional notation from `10 ^ -4` up to `10 ^ 16`, with at least one digit after the point; the
notation `d.ddde±x` without a plus sign elsewhere. The value is `0.digits · 10 ^ point`. -/
def positional (digits : List Char) (point : Int) : List Char :=
  if -4 < point ∧ point ≤ 16 then
    if point ≤ 0 then
      "0.".toList ++ List.replicate (-point).toNat '0' ++ digits
    else if point.toNat < digits.length then
      digits.take point.toNat ++ '.' :: digits.drop point.toNat
    else
      digits ++ List.replicate (point.toNat - digits.length) '0' ++ ".0".toList
  else
    let exponent := (toString (point - 1)).toList
    match digits with
    | [] => []
    | [digit] => digit :: 'e' :: exponent
    | digit :: rest => digit :: '.' :: (rest ++ 'e' :: exponent)

/-- The text of a number: the fewest digits that read back as the same number. -/
def number (value : Single) : String :=
  let sign := if value.isNegative then "-" else ""
  match value.magnitude with
  | .nan _ => "NaN"
  | .infinite => sign ++ "inf"
  | .finite 0 _ => sign ++ "0.0"
  | .finite significand exponent =>
    let decimal := Shortest.decimal significand exponent
    let digits := Nat.toDigits 10 decimal.digits
    sign ++ String.ofList (positional digits (digits.length + decimal.exponent))

def shape : TextureShape → String
  | .d1 => "D1"
  | .d2 => "D2"
  | .d3 => "D3"
  | .volume => "Volume"

def value : Property.Value → String
  | .float default => "Float \x7b default: " ++ number default ++ " \x7d"
  | .int default => "Int \x7b default: " ++ toString default.toInt ++ " \x7d"
  | .range min max default =>
    "Range \x7b min: " ++ number min ++ ", max: " ++ number max ++ ", default: " ++ number default ++ " \x7d"
  | .color => "Color"
  | .vector => "Vector"
  | .texture dimension default =>
    "Texture \x7b dimension: " ++ shape dimension ++ ", default: " ++ Quoted.text default ++ " \x7d"
  | .unknown => "Unknown"

def flag (bits : UInt32) : String :=
  "0x" ++ String.ofList (Quoted.hexadecimal bits.toNat)

/-- The lines of a chunk. Includes and flags go together in pairs; a surplus on one side is not shown. -/
def chunk (chunk : Chunk) : List String :=
  ["CodeChunk: " ++ chunk.name]
    ++ (chunk.includes.zip chunk.includeFlags).map (fun (name, bits) =>
      "  Include: " ++ name ++ " (flags " ++ flag bits ++ ")")
    ++ chunk.resources.map (fun resource => "  Resource: " ++ resource.kind.name ++ " " ++ resource.name)
    ++ ["  Code: " ++ chunk.code]

def pass (effect : Effect) (pass : Pass) : List String :=
  ("Pass: " ++ pass.name ++ " (" ++ pass.kind.name ++ ")") :: pass.shaders.map fun shader =>
    let target :=
      match effect.chunk? shader with
      | some chunk => chunk.name
      | none => "<unresolved>"
    "  " ++ shader.stage.name ++ " --- " ++ target

def property (property : Property) : String :=
  "Property: " ++ property.name ++ " \"" ++ property.label ++ "\" " ++ value property.value

def lines (effect : Effect) : List String :=
  ["Effect: " ++ effect.name] ++ effect.chunks.flatMap chunk ++ effect.passes.flatMap (pass effect)
    ++ effect.properties.map property

end Summary

def Effect.summary (effect : Effect) : String :=
  String.join ((Summary.lines effect).map (· ++ "\n"))

end EffectLang
