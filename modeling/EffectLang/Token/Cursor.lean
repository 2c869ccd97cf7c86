import EffectLang.Text.Utf8
import EffectLang.Token.Lexeme

/-!
Cursors: a place in a source, with the characters that are still unread. Scanning from a cursor skips
trivia and reads one lexeme; the plain token stream of a source scans on until nothing is left.
-/
namespace EffectLang

/-- A place in a source: how many bytes lie before it, its line, and what is still unread. -/
structure Cursor where
  position : Nat
  line : Nat
  rest : List Char
deriving DecidableEq, Repr, Inhabited

/-- One scanning step: the lexeme, none at the end of the source; its token; and the place after it. -/
structure Scan where
  lexeme : Option Lexeme
  token : Token
  after : Cursor
deriving DecidableEq, Repr

namespace Cursor

def start (source : List Char) : Cursor :=
  ⟨0, 1, source⟩

def remaining (cursor : Cursor) : Nat :=
  cursor.rest.length

/-- The place after the characters `taken`, with `rest` unread. A line feed starts a new line. -/
def advance (cursor : Cursor) (taken rest : List Char) : Cursor :=
  ⟨cursor.position + Utf8.byteLength taken, cursor.line + taken.count '\n', rest⟩

def skipTrivia (cursor : Cursor) : Cursor :=
  cursor.advance (Trivia.split cursor.rest).1 (Trivia.split cursor.rest).2

def readHere (here : Cursor) : Scan :=
  match Lexeme.read? here.rest with
  | none => ⟨none, ⟨.endOfStream, "", here.position, here.line⟩, here⟩
  | some (lexeme, rest) =>
    { lexeme := some lexeme
      token := ⟨lexeme.kind, String.ofList lexeme.text, here.position + lexeme.margin, here.line⟩
      after := here.advance lexeme.chars rest }

def scan (cursor : Cursor) : Scan :=
  cursor.skipTrivia.readHere

theorem remaining_skipTrivia_le (cursor : Cursor) : cursor.skipTrivia.remaining ≤ cursor.remaining := by
  have whole := congrArg List.length (Trivia.split_append cursor.rest)
  simp only [List.length_append] at whole
  simp only [remaining, skipTrivia, advance]
  omega

theorem remaining_readHere_le (here : Cursor) : here.readHere.after.remaining ≤ here.remaining := by
  unfold readHere
  split
  · exact Nat.le_refl _
  · rename_i read
    exact Nat.le_of_lt (Lexeme.length_lt_of_read? read)

theorem remaining_scan_le (cursor : Cursor) : cursor.scan.after.remaining ≤ cursor.remaining :=
  Nat.le_trans cursor.skipTrivia.remaining_readHere_le cursor.remaining_skipTrivia_le

theorem ofMark?_ne_endOfStream {c : Char} {kind : Token.Kind} (mark : Token.Kind.ofMark? c = some kind) :
    kind ≠ .endOfStream := by
  unfold Token.Kind.ofMark? at mark
  split at mark <;> cases mark <;> decide

theorem kind_ne_endOfStream {source rest : List Char} {lexeme : Lexeme}
    (read : Lexeme.read? source = some (lexeme, rest)) : lexeme.kind ≠ .endOfStream := by
  unfold Lexeme.read? at read
  split at read
  · cases read
  · split at read
    · rename_i mark
      cases read
      exact ofMark?_ne_endOfStream mark
    · split at read
      · cases read
        simp [Lexeme.kind]
      · split at read
        · cases read
          simp [Lexeme.kind]
        · split at read
          · simp only [Option.some.injEq, Prod.mk.injEq] at read
            obtain ⟨rfl, rfl⟩ := read
            simp [Lexeme.kind]
          · cases read
            simp [Lexeme.kind]

theorem remaining_readHere_lt (here : Cursor) (more : here.readHere.token.kind ≠ .endOfStream) :
    here.readHere.after.remaining < here.remaining := by
  unfold readHere at more ⊢
  split
  · rename_i done
    simp [done] at more
  · rename_i read
    exact Lexeme.length_lt_of_read? read

theorem remaining_scan_lt (cursor : Cursor) (more : cursor.scan.token.kind ≠ .endOfStream) :
    cursor.scan.after.remaining < cursor.remaining :=
  Nat.lt_of_lt_of_le (cursor.skipTrivia.remaining_readHere_lt more) cursor.remaining_skipTrivia_le

def tokens (cursor : Cursor) : List Token :=
  let step := cursor.scan
  if step.token.kind = .endOfStream then [step.token] else step.token :: step.after.tokens
termination_by cursor.remaining
decreasing_by exact cursor.remaining_scan_lt ‹_›

end Cursor

end EffectLang
