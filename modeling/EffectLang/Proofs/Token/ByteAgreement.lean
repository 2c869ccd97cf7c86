import EffectLang.Proofs.Token.ByteScanner
import EffectLang.Proofs.Token.Trivia

/-!
Going through a source byte by byte comes to the same as reading it by characters. Wherever a scanner stands between
two characters, none of its checks fails, and it skips the trivia and reads the lexeme that stand there.
-/
namespace EffectLang.ByteScanner

open Utf8

/-- A scanner that stands between two parts of its source, with room to count the lines to come. -/
structure Stands (scanner : ByteScanner) (before rest : List Char) : Prop where
  source : scanner.source = bytes (before ++ rest)
  position : scanner.position = byteLength before
  room : scanner.line + rest.count '\n' < 2 ^ 32

def after (scanner : ByteScanner) (taken : List Char) : ByteScanner :=
  ⟨scanner.source, scanner.position + byteLength taken, scanner.line + taken.count '\n'⟩

theorem after_after (scanner : ByteScanner) (first second : List Char) :
    (scanner.after first).after second = scanner.after (first ++ second) := by
  simp [after, Nat.add_assoc]

theorem moved_eq_after {scanner : ByteScanner} {taken : List Char} (flat : '\n' ∉ taken) :
    scanner.moved (byteLength taken) = scanner.after taken := by
  simp [moved, after, List.count_eq_zero_of_not_mem flat]

section Characters

variable {scanner : ByteScanner} {before rest taken : List Char} {c : Char}

theorem Stands.sees (stands : scanner.Stands before rest) : scanner.Sees (bytes rest) where
  rest := by
    rw [stands.source, stands.position, bytes_append, ← length_bytes, List.drop_left]
  size := by
    rw [stands.source, stands.position, bytes_append, List.length_append, length_bytes, length_bytes]

theorem Stands.after (stands : scanner.Stands before (taken ++ rest)) :
    (scanner.after taken).Stands (before ++ taken) rest where
  source := by
    rw [List.append_assoc]
    exact stands.source
  position := by simp [ByteScanner.after, stands.position]
  room := by
    have room := stands.room
    rw [List.count_append] at room
    simp only [ByteScanner.after]
    omega

theorem Stands.after_of_append (stands : scanner.Stands before rest) {later : List Char}
    (whole : taken ++ later = rest) : (scanner.after taken).Stands (before ++ taken) later := by
  subst whole
  exact stands.after

theorem Stands.after_cons (stands : scanner.Stands before (c :: rest)) :
    (scanner.after [c]).Stands (before ++ [c]) rest :=
  Stands.after stands

theorem Stands.atEnd_nil (stands : scanner.Stands before []) : scanner.atEnd = true :=
  stands.sees.atEnd_eq

theorem Stands.peek_nil (stands : scanner.Stands before []) (distance : Nat) : scanner.peek distance = '\x00' := by
  rw [stands.sees.peek]
  rfl

theorem Stands.atEnd_cons (stands : scanner.Stands before (c :: rest)) : scanner.atEnd = false := by
  have positive := byteLength_pos (List.cons_ne_nil c rest)
  rw [stands.sees.atEnd_eq, List.isEmpty_eq_false_iff, ← List.length_pos_iff, length_bytes]
  exact positive

theorem Stands.sees_narrow (stands : scanner.Stands before (c :: rest)) (narrow : c.toNat < 128) :
    scanner.Sees (ascii c :: bytes rest) := by
  have sees := stands.sees
  rwa [bytes_cons, utf8EncodeChar_of_ascii narrow] at sees

theorem Stands.peek_narrow (stands : scanner.Stands before (c :: rest)) (narrow : c.toNat < 128) :
    scanner.peek 0 = c := by
  rw [(stands.sees_narrow narrow).peek, List.getElem?_cons_zero, Option.getD_some, toNat_ascii narrow, Char.ofNat_toNat]

theorem Stands.peek_one (stands : scanner.Stands before (c :: rest)) (narrow : c.toNat < 128) :
    scanner.peek 1 = (scanner.after [c]).peek 0 := by
  rw [(stands.sees_narrow narrow).peek, stands.after_cons.sees.peek, List.getElem?_cons_succ]

theorem Stands.peek_wide (stands : scanner.Stands before (c :: rest)) (wide : 128 ≤ c.toNat) {d : Char}
    (narrow : d.toNat < 128) : scanner.peek 0 ≠ d := by
  obtain ⟨lead, more, spelled, large, -, -⟩ := utf8EncodeChar_of_wide wide
  have sees := stands.sees
  rw [bytes_cons, spelled, List.cons_append] at sees
  exact sees.peek_ne (by omega) narrow

theorem Stands.peek_of_not {p : Char → Bool} (narrow : ∀ c, p c → c.toNat < 128)
    (stands : scanner.Stands before (c :: rest)) (lacks : p c = false) : p (scanner.peek 0) = false := by
  by_cases small : c.toNat < 128
  · rw [stands.peek_narrow small, lacks]
  · rw [Bool.eq_false_iff]
    intro seen
    exact stands.peek_wide (Nat.le_of_not_lt small) (narrow _ seen) rfl

/-- An ASCII character is next exactly when it is seen. -/
theorem Stands.peek_eq_iff (stands : scanner.Stands before rest) {d : Char} (narrow : d.toNat < 128)
    (some : d ≠ '\x00') : scanner.peek 0 = d ↔ rest.head? = Option.some d := by
  cases rest with
  | nil =>
    rw [stands.peek_nil]
    simpa using Ne.symm some
  | cons c rest =>
    by_cases small : c.toNat < 128
    · rw [stands.peek_narrow small]
      simp
    · have wide : 128 ≤ c.toNat := Nat.le_of_not_lt small
      have other : c ≠ d := by
        rintro rfl
        exact small narrow
      simpa [other] using stands.peek_wide wide narrow

theorem Stands.countLine? (stands : scanner.Stands before (c :: rest)) :
    scanner.countLine? = some { scanner with line := scanner.line + [c].count '\n' } := by
  have room := stands.room
  have sees : scanner.peek 0 = '\n' ↔ _ := stands.peek_eq_iff (by decide) (by decide)
  simp only [List.head?_cons, Option.some.injEq] at sees
  unfold ByteScanner.countLine?
  by_cases feed : c = '\n'
  · subst feed
    rw [List.count_cons_self] at room
    rw [if_pos (sees.mpr rfl), if_pos (by omega)]
    simp
  · rw [if_neg (mt sees.mp feed)]
    simp [feed]

theorem Stands.advance_ascii (stands : scanner.Stands before (taken ++ rest)) (narrow : ∀ c ∈ taken, c.toNat < 128) :
    scanner.advance? taken.length = some (scanner.moved (byteLength taken)) := by
  have sees := stands.sees
  rw [bytes_append] at sees
  rw [← byteLength_of_ascii narrow, ← length_bytes]
  exact sees.advance?

theorem Stands.advance_flat (stands : scanner.Stands before (taken ++ rest)) (narrow : ∀ c ∈ taken, c.toNat < 128)
    (flat : '\n' ∉ taken) : scanner.advance? taken.length = some (scanner.after taken) := by
  rw [stands.advance_ascii narrow, moved_eq_after flat]

theorem Stands.advance_one_flat (stands : scanner.Stands before (c :: rest)) (narrow : c.toNat < 128)
    (flat : c ≠ '\n') : scanner.advance? 1 = some (scanner.after [c]) :=
  @Stands.advance_flat scanner before rest [c] stands (by simpa using narrow) (by simpa using Ne.symm flat)

theorem Stands.left_after (stands : scanner.Stands before (taken ++ rest)) (nonempty : taken ≠ []) :
    (scanner.after taken).left < scanner.left := by
  have positive := byteLength_pos nonempty
  rw [stands.sees.left_eq, stands.after.sees.left_eq, bytes_append, List.length_append, length_bytes taken]
  omega

theorem Stands.left_after_cons (stands : scanner.Stands before (c :: rest)) :
    (scanner.after [c]).left < scanner.left :=
  @Stands.left_after scanner before rest [c] stands (List.cons_ne_nil c [])

theorem Stands.pass_narrow (stands : scanner.Stands before (c :: rest)) (narrow : c.toNat < 128) :
    scanner.pass? = some (scanner.after [c]) := by
  have size : byteLength [c] = 1 := byteLength_of_ascii (by simpa using narrow)
  have counted : Sees { scanner with line := scanner.line + [c].count '\n' } (ascii c :: bytes rest) :=
    ⟨(stands.sees_narrow narrow).rest, (stands.sees_narrow narrow).size⟩
  rw [pass?, stands.countLine?, Option.bind_some, counted.advance_one, ByteScanner.after, size]
  rfl

/-- What passes over any byte of `0x80` or above passes over a character of such bytes. -/
theorem Stands.eq_of_wide {α : Type} (f : ByteScanner → α)
    (passes : ∀ scanner byte ahead, scanner.Sees (byte :: ahead) → 0x80 ≤ byte.toNat → f scanner = f (scanner.moved 1))
    (stands : scanner.Stands before (c :: rest)) (wide : 128 ≤ c.toNat) : f scanner = f (scanner.after [c]) := by
  obtain ⟨lead, more, spelled, large, high, -⟩ := utf8EncodeChar_of_wide wide
  have sees := stands.sees
  have flat : '\n' ∉ [c] := by
    rw [List.mem_singleton]
    rintro rfl
    exact absurd wide (by decide)
  have allHigh : ∀ byte ∈ String.utf8EncodeChar c, 0x80 ≤ byte.toNat := by
    rw [spelled, List.forall_mem_cons]
    exact ⟨by omega, high⟩
  have size : (String.utf8EncodeChar c).length = byteLength [c] := String.length_utf8EncodeChar c
  rw [bytes_cons] at sees
  rw [eq_of_passes f passes sees allHigh, size, moved_eq_after flat]

theorem Stands.skipWhile_eq {p : Char → Bool} (narrow : ∀ c, p c → c.toNat < 128) (nul : p '\x00' = false)
    (feed : p '\n' = false) (stands : scanner.Stands before rest) :
    skipWhile? (fun scanner => p (scanner.peek 0)) scanner = some (scanner.after (rest.takeWhile p)) := by
  induction rest generalizing scanner before with
  | nil =>
    refine while_stop ?_
    rw [stands.peek_nil, nul]
  | cons c rest ih =>
    cases holds : p c with
    | true =>
      have small := narrow c holds
      have flat : c ≠ '\n' := by
        rintro rfl
        rw [feed] at holds
        cases holds
      have goes : p (scanner.peek 0) = true := by rw [stands.peek_narrow small, holds]
      have next : skipWhile? (fun scanner => p (scanner.peek 0)) scanner =
          skipWhile? (fun scanner => p (scanner.peek 0)) (scanner.after [c]) :=
        while_next goes (stands.advance_one_flat small flat) stands.left_after_cons
      rw [next, List.takeWhile_cons_of_pos holds, ih stands.after_cons, after_after]
      rfl
    | false =>
      rw [List.takeWhile_cons_of_neg (by simp [holds])]
      exact while_stop (stands.peek_of_not narrow holds)

end Characters

section Comments

variable {scanner : ByteScanner} {before rest : List Char} {c : Char}

theorem skipWhile_inLine_cons (stands : scanner.Stands before (c :: rest)) (inside : c ∉ ['\r', '\n']) :
    skipWhile? inLine scanner = skipWhile? inLine (scanner.after [c]) := by
  by_cases narrow : c.toNat < 128
  · have goes : inLine scanner = true := by
      have noEnd : Trivia.isLineEnd c = false := by
        rw [Bool.eq_false_iff]
        exact fun ends => inside ((Trivia.isLineEnd_iff c).mp ends)
      rw [inLine, stands.atEnd_cons, stands.peek_narrow narrow, noEnd]
      rfl
    have flat : c ≠ '\n' := by
      rintro rfl
      simp at inside
    exact while_next goes (stands.advance_one_flat narrow flat) stands.left_after_cons
  · refine stands.eq_of_wide (skipWhile? inLine) ?_ (Nat.le_of_not_lt narrow)
    intro scanner byte ahead sees high
    have goes : inLine scanner = true := by
      have feed := sees.peek_ne high (show '\n'.toNat < 128 by decide)
      have turn := sees.peek_ne high (show '\r'.toNat < 128 by decide)
      simp [inLine, sees.atEnd_eq, Trivia.isLineEnd, feed, turn]
    exact while_next goes sees.advance_one sees.left_moved_one

theorem skipWhile_inLine_eq {body : List Char} (stands : scanner.Stands before (body ++ rest))
    (inside : ∀ c ∈ body, c ∉ ['\r', '\n']) (stop : ∀ c ∈ rest.head?, c ∈ ['\r', '\n']) :
    skipWhile? inLine scanner = some (scanner.after body) := by
  induction body generalizing scanner before with
  | nil =>
    have ends : inLine scanner = false := by
      rw [List.nil_append] at stands
      cases rest with
      | nil => rw [inLine, stands.atEnd_nil]; rfl
      | cons c rest =>
        have narrow : c.toNat < 128 := by
          rcases List.mem_pair.mp (stop c rfl) with rfl | rfl <;> decide
        rw [inLine, stands.atEnd_cons, stands.peek_narrow narrow, (Trivia.isLineEnd_iff c).mpr (stop c rfl)]
        rfl
    exact while_stop ends
  | cons c body ih =>
    rw [List.forall_mem_cons] at inside
    rw [skipWhile_inLine_cons stands inside.1, ih stands.after_cons inside.2, after_after]
    rfl

theorem skipBlock_cons (stands : scanner.Stands before (c :: rest)) (apart : c = '*' → rest.head? ≠ some '/') :
    skipBlock? scanner = skipBlock? (scanner.after [c]) := by
  by_cases narrow : c.toNat < 128
  · have noSlash : c = '*' → scanner.peek 1 ≠ '/' := by
      rintro rfl slash
      rw [stands.peek_one narrow, stands.after_cons.peek_eq_iff (by decide) (by decide)] at slash
      exact apart rfl slash
    have goes : inBlock scanner = true := by
      rw [inBlock, stands.atEnd_cons, stands.peek_narrow narrow]
      simpa [← imp_iff_not_or] using noSlash
    exact while_next goes (stands.pass_narrow narrow) stands.left_after_cons
  · refine stands.eq_of_wide skipBlock? ?_ (Nat.le_of_not_lt narrow)
    intro scanner byte ahead sees high
    have star := sees.peek_ne high (show '*'.toNat < 128 by decide)
    have goes : inBlock scanner = true := by simp [inBlock, sees.atEnd_eq, star]
    exact while_next goes (sees.pass_high high) sees.left_moved_one

theorem skipBlock_closed {body : List Char} (stands : scanner.Stands before (body ++ '*' :: '/' :: rest))
    (inside : ¬['*', '/'] <:+: body) : skipBlock? scanner = some (scanner.after body) := by
  induction body generalizing scanner before with
  | nil =>
    rw [List.nil_append] at stands
    have star := stands.peek_narrow (by decide)
    have slash := stands.after_cons.peek_narrow (by decide)
    refine while_stop ?_
    rw [inBlock, stands.peek_one (by decide), star, slash]
    simp
  | cons c body ih =>
    have apart : c = '*' → (body ++ '*' :: '/' :: rest).head? ≠ some '/' := Trivia.apart_of_inside inside (by simp)
    rw [skipBlock_cons stands apart, ih stands.after_cons (Trivia.not_infix_tail inside), after_after]
    rfl

theorem skipBlock_unclosed {body : List Char} (stands : scanner.Stands before body)
    (inside : ¬['*', '/'] <:+: body) : skipBlock? scanner = some (scanner.after body) := by
  induction body generalizing scanner before with
  | nil =>
    refine while_stop ?_
    rw [inBlock, stands.atEnd_nil]
    rfl
  | cons c body ih =>
    have apart := @Trivia.apart_of_inside c body [] inside (by simp)
    rw [List.append_nil] at apart
    rw [skipBlock_cons stands apart, ih stands.after_cons (Trivia.not_infix_tail inside), after_after]
    rfl

theorem advance_opening {mark : Char} (stands : scanner.Stands before ('/' :: mark :: rest))
    (isMark : mark = '/' ∨ mark = '*') :
    scanner.peek 0 = '/' ∧ scanner.peek 1 = mark ∧ scanner.advance? 2 = some (scanner.after ['/', mark]) := by
  have narrow : mark.toNat < 128 := by rcases isMark with rfl | rfl <;> decide
  refine ⟨stands.peek_narrow (by decide), ?_, ?_⟩
  · rw [stands.peek_one (by decide), stands.after_cons.peek_narrow narrow]
  · refine @Stands.advance_flat scanner before rest ['/', mark] stands ?_ ?_
    · simp [narrow]
    · rcases isMark with rfl | rfl <;> decide

theorem passTrivium_eq {first : List Char} (trivium : Trivia.Trivium first rest)
    (stands : scanner.Stands before (first ++ rest)) :
    scanner.atTrivia = true ∧ scanner.passTrivium? = some (scanner.after first) := by
  cases trivium with
  | @blank c rest blank =>
    have narrow : c.toNat < 128 := by
      simp only [List.mem_cons, List.not_mem_nil, or_false] at blank
      rcases blank with rfl | rfl | rfl | rfl <;> decide
    have isBlank := (Trivia.isBlank_iff c).mpr blank
    rw [atTrivia, passTrivium?, stands.peek_narrow narrow, isBlank]
    exact ⟨rfl, stands.pass_narrow narrow⟩
  | @line body rest inside stop =>
    obtain ⟨slash, second, opened⟩ := advance_opening stands (.inl rfl)
    have inner := @Stands.after scanner before (body ++ rest) ['/', '/'] stands
    rw [atTrivia, passTrivium?, slash, second, opened]
    refine ⟨rfl, (skipWhile_inLine_eq inner inside stop).trans ?_⟩
    rw [after_after]
    rfl
  | @block body rest inside =>
    obtain ⟨slash, star, opened⟩ := advance_opening stands (.inr rfl)
    have inner : (scanner.after ['/', '*']).Stands (before ++ ['/', '*']) (body ++ '*' :: '/' :: rest) := by
      simpa using @Stands.after scanner before (body ++ ['*', '/'] ++ rest) ['/', '*'] stands
    have closing := @Stands.after _ _ ('*' :: '/' :: rest) body inner
    have closes : ((scanner.after ['/', '*']).after body).closeBlock? =
        some (((scanner.after ['/', '*']).after body).after ['*', '/']) := by
      rw [closeBlock?, closing.atEnd_cons]
      exact @Stands.advance_flat _ _ rest ['*', '/'] closing (by simp) (by decide)
    rw [after_after, after_after] at closes
    simp only [atTrivia, passTrivium?, slash, star, opened, Option.bind_eq_bind, Option.bind_some,
      skipBlock_closed inner inside]
    exact ⟨rfl, by rw [after_after]; exact closes⟩
  | @unclosed body inside =>
    obtain ⟨slash, star, opened⟩ := advance_opening stands (.inr rfl)
    have inner := @Stands.after scanner before (body ++ []) ['/', '*'] stands
    have ended := (Stands.after inner).atEnd_nil
    have stays : ((scanner.after ['/', '*']).after body).closeBlock? =
        some ((scanner.after ['/', '*']).after body) := by
      rw [closeBlock?, if_pos ended]
    rw [List.append_nil] at inner
    rw [after_after] at stays
    simp only [atTrivia, passTrivium?, slash, star, opened, Option.bind_eq_bind, Option.bind_some,
      skipBlock_unclosed inner inside]
    exact ⟨rfl, by rw [after_after]; exact stays⟩

theorem atTrivia_stuck (stuck : Trivia.Stuck rest) (stands : scanner.Stands before rest) :
    scanner.atTrivia = false := by
  cases rest with
  | nil =>
    rw [atTrivia, stands.peek_nil]
    rfl
  | cons c rest =>
    obtain ⟨visible, noComment⟩ := Trivia.stuck_cons_iff.mp stuck
    by_cases narrow : c.toNat < 128
    · have second (slash : c = '/') {mark : Char} (isMark : mark = '/' ∨ mark = '*') : scanner.peek 1 ≠ mark := by
        intro seen
        have small : mark.toNat < 128 := by rcases isMark with rfl | rfl <;> decide
        have some : mark ≠ '\x00' := by rcases isMark with rfl | rfl <;> decide
        rw [stands.peek_one narrow, stands.after_cons.peek_eq_iff small some] at seen
        have apart := noComment slash mark seen
        rcases isMark with rfl | rfl
        · exact apart.1 rfl
        · exact apart.2 rfl
      rw [atTrivia, stands.peek_narrow narrow, visible]
      by_cases slash : c = '/'
      · simp [second slash (.inl rfl), second slash (.inr rfl)]
      · simp [slash]
    · have other (d : Char) (small : d.toNat < 128) := stands.peek_wide (Nat.le_of_not_lt narrow) small
      simp [atTrivia, Trivia.isBlank, other ' ' (by decide), other '\t' (by decide), other '\n' (by decide),
        other '\r' (by decide), other '/' (by decide)]

theorem skipTrivia_eq {trivia : List Char} (run : Trivia.Run trivia rest) (stuck : Trivia.Stuck rest)
    (stands : scanner.Stands before (trivia ++ rest)) : skipTrivia? scanner = some (scanner.after trivia) := by
  induction run generalizing scanner before with
  | nil => exact while_stop (atTrivia_stuck stuck stands)
  | @cons first more rest head last ih =>
    rw [List.append_assoc] at stands
    obtain ⟨goes, passed⟩ := passTrivium_eq head stands
    have next : skipTrivia? scanner = skipTrivia? (scanner.after first) :=
      while_next goes passed (stands.left_after head.ne_nil)
    rw [next, ih stuck stands.after, after_after]

end Comments

section Strings

variable {scanner : ByteScanner} {before rest : List Char} {c : Char}

theorem skipBody_passes (scanner : ByteScanner) (byte : UInt8) (ahead : List UInt8)
    (sees : scanner.Sees (byte :: ahead)) (high : 0x80 ≤ byte.toNat) :
    skipBody? scanner = skipBody? (scanner.moved 1) := by
  have quote := sees.peek_ne high (show '"'.toNat < 128 by decide)
  have slash := sees.peek_ne high (show '\\'.toNat < 128 by decide)
  have goes : inBody scanner = true := by simp [inBody, sees.atEnd_eq, quote]
  have noEscape : scanner.skipEscape? = some scanner := by simp [skipEscape?, slash]
  have passed : scanner.skipEscape?.bind pass? = some (scanner.moved 1) := by
    rw [noEscape, Option.bind_some, sees.pass_high high]
  exact while_next goes passed sees.left_moved_one

theorem skipBody_cons (stands : scanner.Stands before (c :: rest)) (noQuote : c ≠ '"') (alone : c = '\\' → rest = []) :
    skipBody? scanner = skipBody? (scanner.after [c]) := by
  by_cases narrow : c.toNat < 128
  · have noEscape : scanner.skipEscape? = some scanner := by
      rw [skipEscape?, stands.peek_narrow narrow, if_neg]
      rw [Bool.and_eq_true, decide_eq_true_eq, decide_eq_true_eq]
      rintro ⟨slash, more⟩
      have size := (stands.sees_narrow narrow).size
      rw [alone slash] at size
      exact absurd more (by rw [← size]; exact Nat.lt_irrefl _)
    have goes : inBody scanner = true := by
      rw [inBody, stands.atEnd_cons, stands.peek_narrow narrow]
      simpa using noQuote
    have passed : scanner.skipEscape?.bind pass? = some (scanner.after [c]) := by
      rw [noEscape, Option.bind_some, stands.pass_narrow narrow]
    exact while_next goes passed stands.left_after_cons
  · exact stands.eq_of_wide skipBody? skipBody_passes (Nat.le_of_not_lt narrow)

/-- Behind a backslash a string goes on over any character, though only its first byte is passed over at once. -/
theorem skipBody_escape (stands : scanner.Stands before ('\\' :: c :: rest)) :
    skipBody? scanner = skipBody? (scanner.after ['\\', c]) := by
  have inner := stands.after_cons
  have goes : inBody scanner = true := by
    rw [inBody, stands.atEnd_cons, stands.peek_narrow (by decide)]
    rfl
  have escaped : scanner.skipEscape? = some (scanner.after ['\\']) := by
    have positive := byteLength_pos (List.cons_ne_nil c rest)
    have size := (stands.sees_narrow (by decide)).size
    rw [List.length_cons, length_bytes] at size
    rw [skipEscape?, stands.peek_narrow (by decide), if_pos (by simp; omega)]
    exact stands.advance_one_flat (by decide) (by decide)
  have joined : scanner.after ['\\', c] = (scanner.after ['\\']).after [c] := by
    rw [after_after]
    rfl
  rw [joined]
  by_cases narrow : c.toNat < 128
  · have passed : scanner.skipEscape?.bind pass? = some ((scanner.after ['\\']).after [c]) := by
      rw [escaped, Option.bind_some, inner.pass_narrow narrow]
    exact while_next goes passed (inner.left_after_cons.trans stands.left_after_cons)
  · have wide := Nat.le_of_not_lt narrow
    obtain ⟨lead, more, spelled, large, high, -⟩ := utf8EncodeChar_of_wide wide
    have sees := inner.sees
    rw [bytes_cons, spelled, List.cons_append] at sees
    have passed : scanner.skipEscape?.bind pass? = some ((scanner.after ['\\']).moved 1) := by
      rw [escaped, Option.bind_some, sees.pass_high (by omega)]
    -- The escape covers the lead byte only. The others are passed as if none stood before them.
    have first : skipBody? scanner = skipBody? ((scanner.after ['\\']).moved 1) :=
      while_next goes passed (sees.left_moved_one.trans stands.left_after_cons)
    rw [first, ← inner.eq_of_wide skipBody? skipBody_passes wide, skipBody_passes _ lead _ sees (by omega)]

theorem skipBody_eq (taken text : List Char) (stands : scanner.Stands before text) :
    ∃ body, (Lexeme.bodyInto taken text).1 = taken.reverse ++ body ∧ skipBody? scanner = some (scanner.after body) ∧
      text = body ++ ((if (Lexeme.bodyInto taken text).2.1 then ['"'] else []) ++ (Lexeme.bodyInto taken text).2.2) ∧
      ((Lexeme.bodyInto taken text).2.1 = false → (Lexeme.bodyInto taken text).2.2 = []) := by
  fun_induction Lexeme.bodyInto taken text generalizing scanner before with
  | case1 taken =>
    refine ⟨[], by simp, ?_, by simp, fun _ => rfl⟩
    refine while_stop ?_
    rw [inBody, stands.atEnd_nil]
    rfl
  | case2 taken rest =>
    refine ⟨[], by simp, ?_, by simp, by simp⟩
    refine while_stop ?_
    rw [inBody, stands.peek_narrow (by decide)]
    simp
  | case3 taken c rest ih =>
    obtain ⟨body, same, skipped, whole, ended⟩ := ih (@Stands.after scanner before rest ['\\', c] stands)
    refine ⟨'\\' :: c :: body, by simp [same], ?_, by rw [List.cons_append, List.cons_append, ← whole], ended⟩
    rw [skipBody_escape stands, skipped, after_after]
    rfl
  | case4 taken c rest noQuote noEscape ih =>
    obtain ⟨body, same, skipped, whole, ended⟩ := ih stands.after_cons
    refine ⟨c :: body, by simp [same], ?_, by rw [List.cons_append, ← whole], ended⟩
    rw [skipBody_cons stands noQuote, skipped, after_after]
    · rfl
    · rintro rfl
      cases rest with
      | nil => rfl
      | cons d rest => exact absurd rfl (noEscape d rest rfl)

end Strings

end EffectLang.ByteScanner
