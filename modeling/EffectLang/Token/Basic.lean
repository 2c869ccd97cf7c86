/-!
Tokens: the words and marks of an effect file, each with its place in the source.
-/
namespace EffectLang

inductive Token.Kind where
  | unknown
  | openParen
  | closeParen
  | colon
  | semicolon
  | asterisk
  | openBracket
  | closeBracket
  | openBrace
  | closeBrace
  | equals
  | hash
  | comma
  | string
  | identifier
  | number
  | endOfStream
deriving DecidableEq, Repr, Inhabited

namespace Token.Kind

def ofMark? (c : Char) : Option Token.Kind :=
  match c with
  | '(' => some .openParen
  | ')' => some .closeParen
  | ':' => some .colon
  | ';' => some .semicolon
  | '*' => some .asterisk
  | '[' => some .openBracket
  | ']' => some .closeBracket
  | '\x7b' => some .openBrace
  | '\x7d' => some .closeBrace
  | '=' => some .equals
  | '#' => some .hash
  | ',' => some .comma
  | _ => none

def name : Token.Kind → String
  | .unknown => "unknown"
  | .openParen => "`(`"
  | .closeParen => "`)`"
  | .colon => "`:`"
  | .semicolon => "`;`"
  | .asterisk => "`*`"
  | .openBracket => "`[`"
  | .closeBracket => "`]`"
  | .openBrace => "`\x7b`"
  | .closeBrace => "`\x7d`"
  | .equals => "`=`"
  | .hash => "`#`"
  | .comma => "`,`"
  | .string => "string"
  | .identifier => "identifier"
  | .number => "number"
  | .endOfStream => "end of stream"

end Token.Kind

/-- A token: its kind, its text (for a string without the quotes), the byte position of the text and the
line on which it starts. -/
structure Token where
  kind : Token.Kind
  text : String
  offset : Nat
  line : Nat
deriving DecidableEq, Repr, Inhabited

namespace Token

def stop (token : Token) : Nat :=
  token.offset + token.text.utf8ByteSize

/-- Whether the token is a given word, letter for letter. -/
def isKeyword (token : Token) (keyword : String) : Bool :=
  token.text == keyword

end Token

structure Unexpected where
  expected : Token.Kind
  found : Token.Kind
  text : String
  line : Nat
deriving DecidableEq, Repr, Inhabited

def Unexpected.of (expected : Token.Kind) (token : Token) : Unexpected :=
  ⟨expected, token.kind, token.text, token.line⟩

end EffectLang
