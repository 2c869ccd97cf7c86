/-!
The lines of a text. A line ends with a line feed, which may have a carriage return before it; neither counts as
part of the line. After the last line end there is a line only if there is text.
-/
namespace EffectLang.Lines

def ended : List Char → String
  | '\r' :: line => String.ofList line.reverse
  | line => String.ofList line.reverse

def splitFrom (line : List Char) : List Char → List String
  | [] => if line = [] then [] else [String.ofList line.reverse]
  | c :: rest => if c = '\n' then ended line :: splitFrom [] rest else splitFrom (c :: line) rest

def split (text : String) : List String :=
  splitFrom [] text.toList

end EffectLang.Lines
