import EffectLang.Text.Invisible

/-!
Quoted text: the form in which a text is shown between double quotes. Double quotes, backslashes, line
ends, tabs and NUL have a short escape; every other character without a visible form is shown by its number.
-/
namespace EffectLang.Quoted

def hexadecimal (value : Nat) : List Char :=
  Nat.toDigits 16 value

def numbered (c : Char) : List Char :=
  "\\u\x7b".toList ++ hexadecimal c.toNat ++ ['\x7d']

/-- One character as it stands in quoted text. A single quote needs no escape there. -/
def escape (c : Char) : List Char :=
  if c = '\x00' then ['\\', '0']
  else if c = '\t' then ['\\', 't']
  else if c = '\n' then ['\\', 'n']
  else if c = '\r' then ['\\', 'r']
  else if c = '\\' ∨ c = '"' then ['\\', c]
  else if isInvisible c then numbered c
  else [c]

def text (value : String) : String :=
  String.ofList ('"' :: (value.toList.flatMap escape ++ ['"']))

end EffectLang.Quoted
