import EffectLang.Document.Basic
import EffectLang.Proofs.Token.Boundary

/-!
Effect files as they are meant to be written: the declarations, the atoms that spell them, the texts in
which these atoms stand with blanks and comments between them, and the effect that they describe. Each part
carries what makes it well formed.
-/
namespace EffectLang.Source

/-- Follows an opening and a closing kind through a list of kinds. None when more is closed than opened. -/
def nesting (opening closing : Token.Kind) : Nat → List Token.Kind → Option Nat
  | depth, [] => some depth
  | depth, kind :: kinds =>
    if kind = opening then nesting opening closing (depth + 1) kinds
    else if kind = closing then
      if depth = 0 then none else nesting opening closing (depth - 1) kinds
    else nesting opening closing depth kinds

structure Word where
  first : Char
  more : List Char
  isAlpha : first.isAlpha = true
  inside : more.all Lexeme.isWordChar = true

namespace Word

def chars (word : Word) : List Char :=
  word.first :: word.more

def text (word : Word) : String :=
  String.ofList word.chars

def letter (c : Char) (isLetter : c.isAlpha = true) : Word :=
  ⟨c, [], isLetter, rfl⟩

def effect : Word := ⟨'e', ['f', 'f', 'e', 'c', 't'], by decide, by decide⟩
def glsl : Word := ⟨'g', ['l', 's', 'l'], by decide, by decide⟩
def pass : Word := ⟨'p', ['a', 's', 's'], by decide, by decide⟩
def properties : Word := ⟨'p', ['r', 'o', 'p', 'e', 'r', 't', 'i', 'e', 's'], by decide, by decide⟩
def vertex : Word := ⟨'v', ['e', 'r', 't', 'e', 'x'], by decide, by decide⟩
def fragment : Word := ⟨'f', ['r', 'a', 'g', 'm', 'e', 'n', 't'], by decide, by decide⟩
def compute : Word := ⟨'c', ['o', 'm', 'p', 'u', 't', 'e'], by decide, by decide⟩
def float : Word := ⟨'F', ['l', 'o', 'a', 't'], by decide, by decide⟩
def int : Word := ⟨'I', ['n', 't'], by decide, by decide⟩
def range : Word := ⟨'R', ['a', 'n', 'g', 'e'], by decide, by decide⟩
def color : Word := ⟨'C', ['o', 'l', 'o', 'r'], by decide, by decide⟩
def vector : Word := ⟨'V', ['e', 'c', 't', 'o', 'r'], by decide, by decide⟩
def volume : Word := ⟨'V', ['o', 'l', 'u', 'm', 'e'], by decide, by decide⟩

end Word

structure Digits where
  chars : List Char
  nonempty : chars ≠ []
  inside : chars.all Char.isDigit = true

/-- A number with an optional sign and an optional fraction. -/
structure Literal where
  negative : Bool
  whole : Digits
  fraction : Option Digits

namespace Literal

def numeral (literal : Literal) : Numeral :=
  ⟨literal.negative, literal.whole.chars, literal.fraction.map Digits.chars, none⟩

def chars (literal : Literal) : List Char :=
  literal.numeral.chars

def value (literal : Literal) : Double :=
  literal.numeral.value

end Literal

/-- A quoted text that needs no escapes. -/
structure Label where
  chars : List Char
  noQuote : '"' ∉ chars
  noEscape : '\\' ∉ chars

def Label.text (label : Label) : String :=
  String.ofList label.chars

/-- A text that ends neither inside a string nor inside a comment. -/
inductive Completes : Cursor → Prop
  | gap {cursor : Cursor} (gap : Trivia.Gap cursor.rest) : Completes cursor
  | lexeme {cursor : Cursor} {lexeme : Lexeme} (read : cursor.scan.lexeme = some lexeme)
      (closed : ∀ body, lexeme ≠ .quoted body false) (later : Completes cursor.scan.after) : Completes cursor

/-- Shading code that can stand between braces, without directives and without uniforms. -/
structure Code where
  chars : List Char
  balanced : nesting .openBrace .closeBrace 0 ((Cursor.start chars).tokens.map Token.kind) = some 0
  plain : ∀ token ∈ (Cursor.start chars).tokens,
    token.kind ≠ .hash ∧ ¬(token.kind = .identifier ∧ token.text = "uniform")
  completes : Completes (.start chars)

def Code.text (code : Code) : String :=
  String.ofList code.chars

inductive Mark where
  | openParen
  | closeParen
  | openBrace
  | closeBrace
  | equals
  | comma

namespace Mark

def kind : Mark → Token.Kind
  | openParen => .openParen
  | closeParen => .closeParen
  | openBrace => .openBrace
  | closeBrace => .closeBrace
  | equals => .equals
  | comma => .comma

def char : Mark → Char
  | openParen => '('
  | closeParen => ')'
  | openBrace => '\x7b'
  | closeBrace => '\x7d'
  | equals => '='
  | comma => ','

end Mark

/-- What is written without a gap inside. Shading code goes with the braces around it. -/
inductive Atom where
  | word (word : Word)
  | literal (literal : Literal)
  | label (label : Label)
  | mark (mark : Mark)
  /-- A type name such as `2D`. -/
  | sized (digit : Char) (isDigit : digit.isDigit = true)
  | code (code : Code)

namespace Atom

def chars : Atom → List Char
  | .word name => name.chars
  | .literal number => number.chars
  | .label quoted => '"' :: (quoted.chars ++ ['"'])
  | .mark sign => [sign.char]
  | .sized digit _ => [digit, 'D']
  | .code body => '\x7b' :: (body.chars ++ ['\x7d'])

/-- Whether an atom ends where it does with some text behind it. -/
def EndsBefore (rest : List Char) : Atom → Prop
  | .word _ => Lexeme.Boundary rest
  | .literal _ => Lexeme.Boundary rest
  | .sized _ _ => Lexeme.Boundary rest
  | _ => True

end Atom

/-- The texts in which atoms stand one after another, with gaps before, between and behind them. A gap may be
empty where the atoms around it do not run together. -/
inductive Layout : List Atom → List Char → Prop
  | nil {gap : List Char} (run : Trivia.Run gap []) : Layout [] gap
  | cons {atom : Atom} {atoms : List Atom} {gap rest : List Char} (complete : Trivia.Gap gap)
      (ends : atom.EndsBefore rest) (last : Layout atoms rest) :
      Layout (atom :: atoms) (gap ++ (atom.chars ++ rest))

/-- The plainest layout: a space before each atom. -/
def spaced (atoms : List Atom) : List Char :=
  atoms.flatMap fun atom => ' ' :: atom.chars

/-- Atoms with a space before each may stand in front of another layout, when nothing runs together there. -/
theorem layout_spaced_append (atoms : List Atom) {more : List Atom} {rest : List Char}
    (boundary : Lexeme.Boundary rest) (last : Layout more rest) : Layout (atoms ++ more) (spaced atoms ++ rest) := by
  induction atoms with
  | nil => exact last
  | cons atom atoms ih =>
    have boundary : Lexeme.Boundary (spaced atoms ++ rest) := by
      cases atoms with
      | nil => exact boundary
      | cons => exact Lexeme.boundary_cons (by decide)
    have ends : atom.EndsBefore (spaced atoms ++ rest) := by
      cases atom with
      | word => exact boundary
      | literal => exact boundary
      | sized => exact boundary
      | _ => trivial
    have gap : Trivia.Gap [' '] := Trivia.gap_blanks (by simp [Trivia.isBlank])
    have text : spaced (atom :: atoms) ++ rest = [' '] ++ (atom.chars ++ (spaced atoms ++ rest)) := by simp [spaced]
    rw [text]
    exact .cons gap ends ih

theorem layout_spaced (atoms : List Atom) : Layout atoms (spaced atoms) := by
  simpa using layout_spaced_append atoms Lexeme.boundary_nil (.nil .nil)

inductive GroupItem where
  | opening
  | closing
  | comma
  | literal (number : Literal)

namespace GroupItem

def kind : GroupItem → Token.Kind
  | .opening => .openParen
  | .closing => .closeParen
  | .comma => .comma
  | .literal _ => .number

def atom : GroupItem → Atom
  | .opening => .mark .openParen
  | .closing => .mark .closeParen
  | .comma => .mark .comma
  | .literal number => .literal number

end GroupItem

/-- What stands between two parentheses: literals, commas and inner groups. -/
structure Group where
  items : List GroupItem
  balanced : nesting .openParen .closeParen 0 (items.map GroupItem.kind) = some 0

def Group.atoms (group : Group) : List Atom :=
  .mark .openParen :: (group.items.map GroupItem.atom ++ [.mark .closeParen])

/-- The type of a property with the bounds and the default that are written for it. -/
inductive Typing where
  | float (default : Option Literal)
  | int (default : Option Literal)
  | range (bounds : Option (Literal × Literal)) (default : Option Literal)
  | color (default : Option Group)
  | vector (default : Option Group)
  | texture (shape : TextureShape) (default : Option Label)

namespace Typing

def shapeAtom : TextureShape → Atom
  | .d1 => .sized '1' (by decide)
  | .d2 => .sized '2' (by decide)
  | .d3 => .sized '3' (by decide)
  | .volume => .word .volume

def boundsAtoms : Option (Literal × Literal) → List Atom
  | none => []
  | some (low, high) => [.mark .openParen, .literal low, .mark .comma, .literal high, .mark .closeParen]

def defaultAtoms : Option (List Atom) → List Atom
  | none => []
  | some atoms => .mark .equals :: atoms

def literalAtoms (default : Option Literal) : List Atom :=
  defaultAtoms (default.map fun literal => [.literal literal])

def groupAtoms (default : Option Group) : List Atom :=
  defaultAtoms (default.map Group.atoms)

def labelAtoms (default : Option Label) : List Atom :=
  defaultAtoms (default.map fun label => [.label label])

def atoms : Typing → List Atom
  | .float default => .word .float :: literalAtoms default
  | .int default => .word .int :: literalAtoms default
  | .range bounds default => .word .range :: (boundsAtoms bounds ++ literalAtoms default)
  | .color default => .word .color :: groupAtoms default
  | .vector default => .word .vector :: groupAtoms default
  | .texture shape default => shapeAtom shape :: labelAtoms default

def single : Option Literal → Single
  | none => .zero
  | some literal => literal.value.toSingle

def integer : Option Literal → Int32
  | none => 0
  | some literal => literal.value.toInt32

def label : Option Label → String
  | none => ""
  | some label => label.text

def limits : Option (Literal × Literal) → Single × Single
  | none => (.zero, .one)
  | some (low, high) => (low.value.toSingle, high.value.toSingle)

/-- A property without a default is zero or empty. A range goes from zero to one unless bounds are written.
Defaults of colors and vectors are not kept. -/
def value : Typing → Property.Value
  | .float default => .float (single default)
  | .int default => .int (integer default)
  | .range bounds default => .range (limits bounds).1 (limits bounds).2 (single default)
  | .color _ => .color
  | .vector _ => .vector
  | .texture shape default => .texture shape (label default)

end Typing

structure Item where
  name : Word
  label : Label
  typing : Typing

namespace Item

def atoms (item : Item) : List Atom :=
  [.word item.name, .mark .openParen, .label item.label, .mark .comma] ++ item.typing.atoms ++ [.mark .closeParen]

def property (item : Item) : Property :=
  ⟨item.name.text, item.label.text, item.typing.value⟩

end Item

/-- The stages that a line of a pass can begin with. -/
inductive LineStage where
  | vertex
  | fragment
  | compute

namespace LineStage

def word : LineStage → Word
  | .vertex => .vertex
  | .fragment => .fragment
  | .compute => .compute

def stage : LineStage → Stage
  | .vertex => .vertex
  | .fragment => .fragment
  | .compute => .compute

end LineStage

structure Line where
  stage : LineStage
  chunk : Word

namespace Line

def atoms (line : Line) : List Atom :=
  [.word line.stage.word, .mark .equals, .word line.chunk]

/-- A line refers to the first chunk of its name that comes before the pass. -/
def shader (chunks : List Chunk) (line : Line) : Shader :=
  match (chunks.map Chunk.name).idxOf? line.chunk.text with
  | some index => ⟨line.stage.stage, UInt32.ofNat index⟩
  | none => ⟨line.stage.stage, noIndex⟩

end Line

inductive Declaration where
  | chunk (name : Word) (code : Code)
  | pass (name : Word) (lines : List Line)
  | properties (items : List Item)

namespace Declaration

def atoms : Declaration → List Atom
  | .chunk name code => [.word .glsl, .word name, .code code]
  | .pass name lines =>
    [.word .pass, .word name, .mark .openBrace] ++ lines.flatMap Line.atoms ++ [.mark .closeBrace]
  | .properties items =>
    [.word .properties, .mark .openBrace] ++ items.flatMap Item.atoms ++ [.mark .closeBrace]

def isProperties : Declaration → Bool
  | .properties _ => true
  | _ => false

def passKind (lines : List Line) : Pass.Kind :=
  if lines.any fun line => line.stage.stage == .compute then .compute else .graphics

/-- Adds what a declaration describes to an effect. -/
def addTo (effect : Effect) : Declaration → Effect
  | .chunk name code =>
    { effect with chunks := effect.chunks ++ [{ name := name.text, code := code.text }] }
  | .pass name lines =>
    { effect with
      passes := effect.passes ++
        [{ name := name.text, shaders := lines.map (Line.shader effect.chunks), kind := passKind lines }] }
  | .properties items => { effect with properties := effect.properties ++ items.map Item.property }

end Declaration

/-- Declarations, which may stand in the block of a named effect. -/
structure File where
  heading : Option Word
  declarations : List Declaration

namespace File

def body (file : File) : List Atom :=
  file.declarations.flatMap Declaration.atoms

def atoms (file : File) : List Atom :=
  match file.heading with
  | none => file.body
  | some name => [.word .effect, .word name, .mark .openBrace] ++ file.body ++ [.mark .closeBrace]

def name (file : File) : String :=
  match file.heading with
  | none => ""
  | some name => name.text

def effect (file : File) : Effect :=
  file.declarations.foldl Declaration.addTo { name := file.name }

end File

end EffectLang.Source
