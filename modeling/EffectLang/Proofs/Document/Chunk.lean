import EffectLang.Proofs.Document.Facing

/-!
Chunks are read back. The tokens of shading code between braces are those of the code on its own, so the
block ends with the brace behind it, and the chunk keeps the text between the two braces.
-/
namespace EffectLang.Document

open Source

/-- Shading code with a closing brace behind it reads on as it does on its own. -/
theorem next_inside {reader : Reader} {before rest : List Char} {inner : Cursor} {lexeme : Lexeme}
    (placed : reader.Placed before (inner.rest ++ '\x7d' :: rest)) (read : inner.scan.lexeme = some lexeme)
    (closed : ∀ body, lexeme ≠ .quoted body false) :
    ∃ taken, inner.rest = taken ++ inner.scan.after.rest ∧ reader.cursor.scan.lexeme = some lexeme ∧
      reader.next.1.kind = inner.scan.token.kind ∧ reader.next.1.text = inner.scan.token.text ∧
      reader.next.2.Placed (before ++ taken) (inner.scan.after.rest ++ '\x7d' :: rest) := by
  rcases inner.scan_cases with ended | ⟨trivia, found, later, unread, run, stuck, readHere⟩
  · rw [Cursor.scan_of_end ended] at read
    cases read
  · have scanned := Cursor.scan_of_read unread run stuck readHere
    rw [scanned] at read ⊢
    cases read
    have boundary : Lexeme.Boundary ('\x7d' :: rest) := Lexeme.boundary_cons (by decide)
    obtain ⟨longRun, longStuck, longRead⟩ := Lexeme.found_append run stuck readHere closed boundary (by simp)
    rw [unread, List.append_assoc, List.append_assoc] at placed
    have lexed := Cursor.scan_of_read placed.place.rest longRun longStuck longRead
    obtain ⟨step, after⟩ := placed.next_read longRun longStuck longRead
    refine ⟨trivia ++ lexeme.chars, by simp [unread, Cursor.advance], by rw [lexed], by rw [step], by rw [step], ?_⟩
    exact after

private theorem nesting_end (cursor : Cursor) (braces : Nat) (gap : Trivia.Run cursor.rest []) :
    nesting .openBrace .closeBrace braces (cursor.tokens.map Token.kind) = some braces := by
  have scanned := Cursor.scan_of_end gap
  rw [Cursor.tokens]
  simp [scanned, nesting]

section Steps

variable {braces : Nat} {block : Block} {reader : Reader}

private theorem blockBody_opening (opening : reader.next.1.kind = .openBrace) :
    blockBody braces block reader = blockBody (braces + 1) block reader.next.2 := by
  rw [blockBody.eq_def]
  simp [opening]

private theorem blockBody_closing (closing : reader.next.1.kind = .closeBrace) (inside : braces ≠ 0) :
    blockBody braces block reader = blockBody (braces - 1) block reader.next.2 := by
  obtain ⟨outer, rfl⟩ := Nat.exists_eq_succ_of_ne_zero inside
  rw [blockBody.eq_def]
  simp [closing]

private theorem blockBody_plain (more : reader.next.1.kind ≠ .endOfStream)
    (noOpening : reader.next.1.kind ≠ .openBrace) (noClosing : reader.next.1.kind ≠ .closeBrace)
    (noHash : reader.next.1.kind ≠ .hash)
    (noUniform : ¬(reader.next.1.kind = .identifier ∧ reader.next.1.text = "uniform")) :
    blockBody braces block reader = blockBody braces block reader.next.2 := by
  have item : blockItem reader.next.1 block reader.next.2 = (block, reader.next.2) := by
    simp only [blockItem, noHash, if_false, Token.isKeyword, beq_iff_eq, noUniform]
  rw [blockBody.eq_def]
  simp [more, noOpening, noClosing, item]

end Steps

theorem blockBody_of_code {enough : Prop} {inner : Cursor} {rest : List Char} (block : Block)
    (completes : Completes inner) {braces : Nat} {reader : Reader} {before : List Char}
    (placed : reader.Placed before (inner.rest ++ '\x7d' :: rest)) (steady : reader.Steady enough)
    (balanced : nesting .openBrace .closeBrace braces (inner.tokens.map Token.kind) = some 0)
    (plain : ∀ token ∈ inner.tokens, token.kind ≠ .hash ∧ ¬(token.kind = .identifier ∧ token.text = "uniform")) :
    ∃ closing later, blockBody braces block reader = (some (block.chunk, closing), later) ∧
      closing.offset = Utf8.byteLength (before ++ inner.rest) ∧
      later.Placed (before ++ (inner.rest ++ ['\x7d'])) rest ∧ later.Steady enough := by
  induction completes generalizing braces reader before with
  | @gap inner gap =>
    rw [nesting_end inner braces (gap [])] at balanced
    cases balanced
    obtain ⟨lexed, kind, -, offset, later⟩ := Reader.Placed.next_mark .closeBrace placed gap
    refine ⟨reader.next.1, reader.next.2, ?_, offset, later, steady.next lexed⟩
    rw [blockBody]
    simp [kind, Mark.kind]
  | @lexeme inner lexeme read closed _ ih =>
    obtain ⟨taken, split, lexed, kind, text, placedLater⟩ := next_inside placed read closed
    have more : reader.next.1.kind ≠ .endOfStream := Cursor.more_of_scan lexed
    rw [Cursor.tokens_of_more (Cursor.more_of_scan read)] at balanced plain
    have here := plain inner.scan.token List.mem_cons_self
    have plainLater := fun token member => plain token (List.mem_cons_of_mem _ member)
    rw [List.map_cons, nesting, ← kind] at balanced
    rw [← kind, ← text] at here
    rw [split, List.append_assoc, ← List.append_assoc, ← List.append_assoc before]
    by_cases opening : reader.next.1.kind = .openBrace
    · rw [if_pos opening] at balanced
      rw [blockBody_opening opening]
      exact ih placedLater (steady.next lexed) balanced plainLater
    · rw [if_neg opening] at balanced
      by_cases closing : reader.next.1.kind = .closeBrace
      · rw [if_pos closing] at balanced
        have inside : braces ≠ 0 := by
          rintro rfl
          cases balanced
        rw [if_neg inside] at balanced
        rw [blockBody_closing closing inside]
        exact ih placedLater (steady.next lexed) balanced plainLater
      · rw [if_neg closing] at balanced
        rw [blockBody_plain more opening closing here.1 here.2]
        exact ih placedLater (steady.next lexed) balanced plainLater

/-- A chunk is read back with its name and its code. -/
theorem chunk?_of_facing {enough : Prop} {reader : Reader} {atoms : List Atom} {name : Word} {code : Code}
    (facing : reader.Facing enough (.word name :: .code code :: atoms)) :
    ∃ later, chunk? reader = (some { name := name.text, code := code.text }, later) ∧
      later.Facing enough atoms := by
  obtain ⟨kind, text, facingCode⟩ := facing.next_word
  have nameRead := facing.expect kind
  obtain ⟨before, _, placed, layout⟩ := facingCode.written
  cases layout with
  | @cons _ _ gap rest complete _ last =>
    have spelled : (Atom.code code).chars ++ rest = '\x7b' :: (code.chars ++ '\x7d' :: rest) := by
      simp [Atom.chars]
    rw [spelled] at placed
    obtain ⟨lexed, braceKind, braceText, braceOffset, placedInside⟩ :=
      Reader.Placed.next_mark .openBrace placed complete
    have braceRead : reader.next.2.expect .openBrace = _ := facingCode.expect braceKind
    obtain ⟨closing, later, body, offset, placedLater, steadyLater⟩ :=
      blockBody_of_code ⟨{ name := name.text }, {}⟩ code.completes placedInside (facingCode.steady.next lexed)
        code.balanced code.plain
    refine ⟨later, ?_, steadyLater, _, _, placedLater, last⟩
    -- The code starts where the opening brace stops, and stops where the closing brace starts.
    have start : reader.next.2.next.1.stop = Utf8.byteLength (before ++ (gap ++ ['\x7b'])) := by
      rw [Token.stop, braceText, braceOffset, Utf8.utf8ByteSize_ofList]
      simp [Mark.char, Nat.add_assoc]
    have stop : closing.offset = Utf8.byteLength (before ++ (gap ++ ['\x7b']) ++ code.chars) := offset
    have ordered : min reader.next.2.next.1.stop closing.offset = reader.next.2.next.1.stop := by
      rw [start, stop]
      simp
    have between := Reader.textBetween_of_source (before ++ (gap ++ ['\x7b'])) code.chars ('\x7d' :: rest)
      (by simpa [Cursor.start, Mark.char] using placedLater.source)
    rw [← start, ← stop, ← ordered] at between
    simp only [chunk?, nameRead, braceRead, text, body, between]
    rfl

end EffectLang.Document
