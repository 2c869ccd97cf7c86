import EffectLang.Literal.Numeral
import EffectLang.Token.Basic

/-!
Lexemes: how the characters of a source group into trivia (blanks and comments) and lexemes. Every reading
function splits its text into what it takes and what it leaves, so no character is lost, and a lexeme takes
at least one.
-/
namespace EffectLang

namespace Trivia

def isBlank (c : Char) : Bool :=
  c = ' ' || c = '\t' || c = '\n' || c = '\r'

def isLineEnd (c : Char) : Bool :=
  c = '\n' || c = '\r'

/-- Between comments, in a comment to the end of the line, or in a comment between `/*` and `*/`. -/
inductive Mode where
  | blank
  | line
  | block
deriving DecidableEq, Repr

/-- Moves trivia onto the reversed `taken`. The character that ends a line comment is blank itself. -/
def takeInto : Mode → List Char → List Char → List Char × List Char
  | _, taken, [] => (taken.reverse, [])
  | .blank, taken, '/' :: '/' :: rest => takeInto .line ('/' :: '/' :: taken) rest
  | .blank, taken, '/' :: '*' :: rest => takeInto .block ('*' :: '/' :: taken) rest
  | .blank, taken, c :: rest =>
    if isBlank c then takeInto .blank (c :: taken) rest else (taken.reverse, c :: rest)
  | .line, taken, c :: rest => takeInto (if isLineEnd c then .blank else .line) (c :: taken) rest
  | .block, taken, '*' :: '/' :: rest => takeInto .blank ('/' :: '*' :: taken) rest
  | .block, taken, c :: rest => takeInto .block (c :: taken) rest
termination_by structural _ _ text => text

def split (text : List Char) : List Char × List Char :=
  takeInto .blank [] text

theorem takeInto_append (mode : Mode) (taken text : List Char) :
    (takeInto mode taken text).1 ++ (takeInto mode taken text).2 = taken.reverse ++ text := by
  fun_induction takeInto mode taken text <;> simp_all

theorem split_append (text : List Char) : (split text).1 ++ (split text).2 = text := by
  simpa [split] using takeInto_append .blank [] text

end Trivia

inductive Lexeme where
  | mark (kind : Token.Kind) (c : Char)
  | word (text : List Char)
  | number (numeral : Numeral)
  /-- The characters after a quote up to the closing quote, or to the end of the text. -/
  | quoted (body : List Char) (closed : Bool)
  | unknown (c : Char)
deriving DecidableEq, Repr

namespace Lexeme

def kind : Lexeme → Token.Kind
  | .mark kind _ => kind
  | .word _ => .identifier
  | .number _ => .number
  | .quoted _ _ => .string
  | .unknown _ => .unknown

/-- The text of the token; a string goes without its quotes. -/
def text : Lexeme → List Char
  | .mark _ c => [c]
  | .word text => text
  | .number numeral => numeral.chars
  | .quoted body _ => body
  | .unknown c => [c]

def margin : Lexeme → Nat
  | .quoted _ _ => 1
  | _ => 0

def chars : Lexeme → List Char
  | .quoted body closed => '"' :: (body ++ if closed then ['"'] else [])
  | lexeme => lexeme.text

def isWordChar (c : Char) : Bool :=
  c.isAlphanum || c = '_'

/-- Moves the body of a string onto the reversed `taken`, up to the first quote that no backslash
escapes. The flag tells whether there is one. -/
def bodyInto : List Char → List Char → List Char × Bool × List Char
  | taken, [] => (taken.reverse, false, [])
  | taken, '"' :: rest => (taken.reverse, true, rest)
  | taken, '\\' :: c :: rest => bodyInto (c :: '\\' :: taken) rest
  | taken, c :: rest => bodyInto (c :: taken) rest
termination_by structural _ text => text

def read? : List Char → Option (Lexeme × List Char)
  | [] => none
  | c :: rest =>
    match Token.Kind.ofMark? c with
    | some kind => some (.mark kind c, rest)
    | none =>
      if c = '"' then
        some (.quoted (bodyInto [] rest).1 (bodyInto [] rest).2.1, (bodyInto [] rest).2.2)
      else if c.isAlpha then
        some (.word (c :: rest.takeWhile isWordChar), rest.dropWhile isWordChar)
      else if c.isDigit || c = '-' then
        some (.number (Numeral.scan (c :: rest)).1, (Numeral.scan (c :: rest)).2)
      else
        some (.unknown c, rest)

theorem bodyInto_append (taken text : List Char) :
    (bodyInto taken text).1 ++ ((if (bodyInto taken text).2.1 then ['"'] else []) ++ (bodyInto taken text).2.2)
      = taken.reverse ++ text := by
  fun_induction bodyInto taken text <;> simp_all

theorem chars_append_of_read? {source rest : List Char} {lexeme : Lexeme}
    (read : read? source = some (lexeme, rest)) : lexeme.chars ++ rest = source := by
  unfold read? at read
  split at read
  · cases read
  · split at read
    · cases read
      rfl
    · split at read
      · rename_i quote
        cases read
        subst quote
        simpa [chars] using bodyInto_append [] _
      · split at read
        · cases read
          simp [chars, text]
        · split at read
          · simp only [Option.some.injEq, Prod.mk.injEq] at read
            obtain ⟨rfl, rfl⟩ := read
            simpa [chars, text] using Numeral.chars_scan _
          · cases read
            rfl

theorem scan_chars_ne_nil {c : Char} (rest : List Char) (start : (c.isDigit || c = '-') = true) :
    (Numeral.scan (c :: rest)).1.chars ≠ [] := by
  by_cases minus : c = '-'
  · subst minus
    simp [Numeral.scan, Numeral.takeSign, Numeral.chars, Numeral.signChars]
  · have isDigit : c.isDigit = true := by simpa [minus] using start
    have unsigned : Numeral.takeSign (c :: rest) = (false, c :: rest) := by
      unfold Numeral.takeSign
      split
      · simp_all
      · rfl
    simp [Numeral.scan, unsigned, Numeral.chars, Numeral.signChars, isDigit]

theorem length_lt_of_read? {source rest : List Char} {lexeme : Lexeme}
    (read : read? source = some (lexeme, rest)) : rest.length < source.length := by
  have whole := chars_append_of_read? read
  suffices nonempty : lexeme.chars ≠ [] by
    have := List.length_pos_iff.mpr nonempty
    rw [← whole, List.length_append]
    omega
  unfold read? at read
  split at read
  · cases read
  · split at read
    · cases read
      simp [chars, text]
    · split at read
      · cases read
        simp [chars]
      · split at read
        · cases read
          simp [chars, text]
        · split at read
          · rename_i start
            simp only [Option.some.injEq, Prod.mk.injEq] at read
            obtain ⟨rfl, rfl⟩ := read
            simpa [chars, text] using scan_chars_ne_nil _ start
          · cases read
            simp [chars, text]

end Lexeme

end EffectLang
