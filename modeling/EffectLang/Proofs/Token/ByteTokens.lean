import EffectLang.Proofs.Token.ByteAgreement
import EffectLang.Proofs.Token.Located

/-!
The tokens of a source, read byte by byte. Numerals are added up in words that do not overflow, every token is a range
of the source, and a reader that goes on from the same place comes to the same token and the same place behind it.
-/
namespace EffectLang.ByteScanner

open Utf8

section Numbers

variable {scanner : ByteScanner} {before rest : List Char}

theorem toNat_lt_of_isWordChar {c : Char} (found : Lexeme.isWordChar c = true) : c.toNat < 128 := by
  simp only [Lexeme.isWordChar, Char.isAlphanum, Char.isAlpha, Char.isUpper, Char.isLower, Char.isDigit,
    Bool.and_eq_true, Bool.or_eq_true, decide_eq_true_eq, UInt32.le_iff_toNat_le, ge_iff_le] at found
  rcases found with ((⟨-, upper⟩ | ⟨-, upper⟩) | ⟨-, upper⟩) | rfl
  · exact Nat.lt_of_le_of_lt upper (by decide)
  · exact Nat.lt_of_le_of_lt upper (by decide)
  · exact Nat.lt_of_le_of_lt upper (by decide)
  · decide

theorem toNat_lt_of_isDigit {c : Char} (digit : c.isDigit = true) : c.toNat < 128 :=
  toNat_lt_of_isWordChar (by simp [Lexeme.isWordChar, Char.isAlphanum, digit])

theorem digits_eq {α : Type} (add? : α → Nat → Option α) (total : α) (stands : scanner.Stands before rest) :
    digits? add? total scanner =
      ((rest.takeWhile Char.isDigit).foldlM (fun total c => add? total (Numeral.digit c)) total).map
        fun total => (total, scanner.after (rest.takeWhile Char.isDigit)) := by
  induction rest generalizing scanner before total with
  | nil =>
    refine while_stop ?_
    simp only [stands.peek_nil]
    rfl
  | cons c rest ih =>
    cases digit : c.isDigit with
    | true =>
      have narrow := toNat_lt_of_isDigit digit
      have flat : c ≠ '\n' := by
        rintro rfl
        cases digit
      have seen := stands.peek_narrow narrow
      have goes : (scanner.peek 0).isDigit = true := by rw [seen, digit]
      have moved := stands.advance_one_flat narrow flat
      rw [List.takeWhile_cons_of_pos digit, List.foldlM_cons]
      cases added : add? total (Numeral.digit c) with
      | none =>
        have fails : digit? add? (total, scanner) = none := by
          simp only [digit?, seen, added]
          rfl
        rw [digits?, while?, goes, if_pos rfl, fails]
        rfl
      | some more =>
        have stepped : digit? add? (total, scanner) = some (more, scanner.after [c]) := by
          simp only [digit?, seen, added, moved]
          rfl
        have next : digits? add? total scanner = digits? add? more (scanner.after [c]) :=
          while_next goes stepped stands.left_after_cons
        rw [next, ih more stands.after_cons, after_after]
        rfl
    | false =>
      rw [List.takeWhile_cons_of_neg (by simp [digit])]
      exact while_stop (stands.peek_of_not (fun _ => toNat_lt_of_isDigit) digit)

theorem toNat_saturate (value : Nat) : (Numeral.saturate value).toNat = min value (2 ^ 64 - 1) := by
  rw [Numeral.saturate, UInt64.toNat_ofNat_of_lt']
  · rfl
  · exact Nat.lt_of_le_of_lt (Nat.min_le_right _ _) (by decide)

theorem foldlM_addWhole (digits : List Char) (total : UInt64) :
    digits.foldlM (fun total c => addWhole? total (Numeral.digit c)) total.toNat =
      some (digits.foldl Numeral.wholeStep total).toNat := by
  induction digits generalizing total with
  | nil => rfl
  | cons c digits ih =>
    have step : addWhole? total.toNat (Numeral.digit c) = some (Numeral.wholeStep total c).toNat := by
      rw [addWhole?, Numeral.wholeStep, toNat_saturate, toNat_saturate]
    rw [List.foldlM_cons, step, List.foldl_cons]
    exact ih _

theorem foldl_wholeStep_zeros (digits : List Char) :
    (digits.dropWhile (· = '0')).foldl Numeral.wholeStep 0 = digits.foldl Numeral.wholeStep 0 := by
  induction digits with
  | nil => rfl
  | cons c digits ih =>
    by_cases zero : c = '0'
    · subst zero
      rw [List.dropWhile_cons_of_pos (by simp), ih]
      rfl
    · rw [List.dropWhile_cons_of_neg (by simpa using zero)]

theorem digit_lt {c : Char} (digit : c.isDigit = true) : Numeral.digit c < 10 := by
  simp only [Char.isDigit, Bool.and_eq_true, decide_eq_true_eq, UInt32.le_iff_toNat_le, ge_iff_le] at digit
  have upper : c.toNat ≤ 57 := digit.2
  have zero : '0'.toNat = 48 := rfl
  rw [Numeral.digit, zero]
  omega

/-- A digit that counts overflows no word: ten times a divisor below the limit is less than `10 ^ 19`, and the part is
smaller. -/
theorem fractionStep_exact {total : Numeral.Quotient} {c : Char} (digit : c.isDigit = true)
    (proper : total.part.toNat < total.divisor.toNat) (more : total.divisor.toNat < 10 ^ 18) :
    (total.part.toNat * 10 + Numeral.digit c < 2 ^ 64 ∧ total.divisor.toNat * 10 < 2 ^ 64) ∧
      (Numeral.fractionStep total c).part.toNat = total.part.toNat * 10 + Numeral.digit c ∧
      (Numeral.fractionStep total c).divisor.toNat = total.divisor.toNat * 10 := by
  have small := digit_lt digit
  have step : Numeral.fractionStep total c =
      ⟨total.part * 10 + UInt64.ofNat (Numeral.digit c), total.divisor * 10⟩ := if_pos more
  refine ⟨by omega, ?_, ?_⟩
  · rw [step, UInt64.toNat_add, UInt64.toNat_mul, UInt64.toNat_ofNat']
    simp
    omega
  · rw [step, UInt64.toNat_mul]
    exact Nat.mod_eq_of_lt (by simp; omega)

theorem fractionStep_dropped {total : Numeral.Quotient} (c : Char) (full : ¬total.divisor.toNat < 10 ^ 18) :
    Numeral.fractionStep total c = total :=
  if_neg full

theorem foldlM_addFraction {digits : List Char} (all : ∀ c ∈ digits, c.isDigit = true) (total : Numeral.Quotient)
    (proper : total.part.toNat < total.divisor.toNat) :
    digits.foldlM (fun total c => addFraction? total (Numeral.digit c)) (total.part.toNat, total.divisor.toNat) =
      some ((digits.foldl Numeral.fractionStep total).part.toNat,
        (digits.foldl Numeral.fractionStep total).divisor.toNat) := by
  induction digits generalizing total with
  | nil => rfl
  | cons c digits ih =>
    rw [List.forall_mem_cons] at all
    have small := digit_lt all.1
    rw [List.foldlM_cons, List.foldl_cons]
    by_cases more : total.divisor.toNat < 10 ^ 18
    · obtain ⟨fits, part, divisor⟩ := fractionStep_exact all.1 proper more
      have added : addFraction? (total.part.toNat, total.divisor.toNat) (Numeral.digit c) =
          some ((Numeral.fractionStep total c).part.toNat, (Numeral.fractionStep total c).divisor.toNat) := by
        rw [addFraction?, if_pos more, if_pos fits, part, divisor]
      rw [added]
      exact ih all.2 _ (by rw [part, divisor]; omega)
    · have kept : addFraction? (total.part.toNat, total.divisor.toNat) (Numeral.digit c) =
          some (total.part.toNat, total.divisor.toNat) := if_neg more
      rw [kept, fractionStep_dropped c more]
      exact ih all.2 total proper

theorem skipSign_eq (stands : scanner.Stands before rest) :
    scanner.skipSign? =
      some ((Numeral.takeSign rest).1, scanner.after (Numeral.signChars (Numeral.takeSign rest).1)) := by
  have sees : scanner.peek 0 = '-' ↔ _ := stands.peek_eq_iff (by decide) (by decide)
  fun_cases Numeral.takeSign rest with
  | case1 rest =>
    rw [skipSign?, if_pos (sees.mpr rfl), stands.advance_one_flat (by decide) (by decide)]
    rfl
  | case2 _ unsigned =>
    rw [skipSign?, if_neg]
    · rfl
    · rw [sees, List.head?_eq_some_iff]
      rintro ⟨rest, same⟩
      exact unsigned rest same

theorem takeWhile_zeros (text : List Char) :
    (text.dropWhile (· = '0')).takeWhile Char.isDigit = (text.takeWhile Char.isDigit).dropWhile (· = '0') ∧
      text.takeWhile (· = '0') ++ (text.dropWhile (· = '0')).takeWhile Char.isDigit = text.takeWhile Char.isDigit := by
  induction text with
  | nil => exact ⟨rfl, rfl⟩
  | cons c text ih =>
    by_cases zero : c = '0'
    · subst zero
      have digit : Char.isDigit '0' = true := rfl
      simpa [digit] using ih
    · by_cases digit : c.isDigit = true
      · simp [zero, digit]
      · simp [zero, digit]

theorem whole_eq (stands : scanner.Stands before rest) :
    scanner.whole? =
      some (((rest.takeWhile Char.isDigit).foldl Numeral.wholeStep 0).toNat,
        scanner.after (rest.takeWhile Char.isDigit)) := by
  obtain ⟨commute, joined⟩ := takeWhile_zeros rest
  have narrow (c : Char) (zero : decide (c = '0') = true) : c.toNat < 128 := by
    rw [of_decide_eq_true zero]
    decide
  have skipped := @Stands.skipWhile_eq scanner before rest (· = '0') narrow rfl rfl stands
  have behind : (scanner.after (rest.takeWhile (· = '0'))).Stands (before ++ rest.takeWhile (· = '0'))
      (rest.dropWhile (· = '0')) := by
    refine Stands.after ?_
    rwa [List.takeWhile_append_dropWhile]
  have added := foldlM_addWhole ((rest.dropWhile (· = '0')).takeWhile Char.isDigit) 0
  rw [UInt64.toNat_zero] at added
  rw [whole?, skipped, Option.bind_some, digits_eq addWhole? 0 behind, added, Option.map_some, after_after, joined,
    commute, foldl_wholeStep_zeros]

theorem fraction_eq (stands : scanner.Stands before rest) :
    scanner.fraction? =
      let fraction := ((Numeral.takeFraction rest).1.getD []).foldl Numeral.fractionStep ⟨0, 1⟩
      some ((fraction.part.toNat, fraction.divisor.toNat),
        scanner.after (Numeral.fractionChars (Numeral.takeFraction rest).1)) := by
  have sees : scanner.peek 0 = '.' ↔ _ := stands.peek_eq_iff (by decide) (by decide)
  fun_cases Numeral.takeFraction rest with
  | case1 rest =>
    have all : ∀ c ∈ rest.takeWhile Char.isDigit, c.isDigit = true := fun c found => List.mem_takeWhile_imp found
    have added := foldlM_addFraction all ⟨0, 1⟩ (by decide)
    rw [UInt64.toNat_zero, UInt64.toNat_one] at added
    rw [fraction?, if_pos (sees.mpr rfl), stands.advance_one_flat (by decide) (by decide), Option.bind_some,
      digits_eq _ _ stands.after_cons, added, Option.map_some, after_after]
    rfl
  | case2 _ pointless =>
    rw [fraction?, if_neg]
    · rfl
    · rw [sees, List.head?_eq_some_iff]
      rintro ⟨rest, same⟩
      exact pointless rest same

theorem skipMark_eq (stands : scanner.Stands before rest) :
    scanner.skipMark? = some (scanner.after (Numeral.takeMark rest).1.toList) := by
  have small : scanner.peek 0 = 'e' ↔ _ := stands.peek_eq_iff (by decide) (by decide)
  have capital : scanner.peek 0 = 'E' ↔ _ := stands.peek_eq_iff (by decide) (by decide)
  fun_cases Numeral.takeMark rest with
  | case1 rest =>
    rw [skipMark?, if_pos (by simp [small]), stands.advance_one_flat (by decide) (by decide)]
    rfl
  | case2 rest =>
    rw [skipMark?, if_pos (by simp [capital]), stands.advance_one_flat (by decide) (by decide)]
    rfl
  | case3 _ noSmall noCapital =>
    rw [skipMark?, if_neg]
    · rfl
    · rw [Bool.or_eq_true, decide_eq_true_eq, decide_eq_true_eq, small, capital, List.head?_eq_some_iff,
        List.head?_eq_some_iff]
      rintro (⟨rest, same⟩ | ⟨rest, same⟩)
      · exact noSmall rest same
      · exact noCapital rest same

def amountOf (numeral : Numeral) : Amount :=
  ⟨numeral.negative, numeral.wholePart.toNat, numeral.fractionPart.part.toNat, numeral.fractionPart.divisor.toNat⟩

def amountOf? : Lexeme → Option Amount
  | .number numeral => some (amountOf numeral)
  | _ => none

theorem number_eq (stands : scanner.Stands before rest) :
    scanner.number? = some (amountOf (Numeral.scan rest).1, scanner.after (Numeral.scan rest).1.chars) := by
  have signed := stands.after_of_append (Numeral.takeSign_append rest)
  have counted := signed.after_of_append (List.takeWhile_append_dropWhile (p := Char.isDigit))
  have pointed := counted.after_of_append (Numeral.takeFraction_append _)
  simp only [number?, skipSign_eq stands, whole_eq signed, fraction_eq counted, skipMark_eq pointed,
    Option.bind_eq_bind, Option.bind_some]
  rw [after_after, after_after, after_after, ← List.append_assoc, ← List.append_assoc]
  rfl

end Numbers

section Tokens

variable {scanner : ByteScanner} {before rest : List Char}

theorem slice_append (before middle after : List Char) :
    slice? (bytes (before ++ (middle ++ after))) (byteLength before) (byteLength (before ++ middle)) =
      some (bytes middle) := by
  rw [slice?, if_pos (isRange_append before middle after), bytes_append, bytes_append, byteLength_append,
    Nat.add_sub_cancel_left, ← length_bytes before, List.drop_left, ← length_bytes middle, List.take_left]

theorem Stands.piece_eq {taken : List Char} (stands : scanner.Stands before (taken ++ rest)) (kind : Token.Kind)
    (line : Nat) (amount : Option Amount) :
    (scanner.after taken).piece? kind scanner.position line amount =
      some (⟨kind, bytes taken, scanner.position, line, amount⟩, scanner.after taken) := by
  have taken : slice? (scanner.after taken).source scanner.position (scanner.after taken).position =
      some (bytes taken) := by
    rw [stands.after.position, stands.position, ByteScanner.after, stands.source]
    exact slice_append before taken rest
  rw [piece?, taken]
  rfl

def pieceOf (lexeme : Lexeme) (position line : Nat) : Piece where
  kind := lexeme.kind
  text := bytes lexeme.text
  offset := position + lexeme.margin
  line := line
  amount := amountOf? lexeme

theorem nextHere_nil (stands : scanner.Stands before []) :
    scanner.nextHere? = some (⟨.endOfStream, [], scanner.position, scanner.line, none⟩, scanner) := by
  have size := stands.sees.size
  have empty : slice? scanner.source scanner.position scanner.position = some [] := by
    rw [stands.source, stands.position]
    simpa using slice_append before [] []
  rw [nextHere?, stands.atEnd_nil, ← size]
  simp only [if_true, bytes_nil, List.length_nil, Nat.add_zero, empty, Option.bind_eq_bind, Option.bind_some]

theorem string_eq (stands : scanner.Stands before rest) (line : Nat) :
    scanner.string? line =
      some (⟨.string, bytes (Lexeme.bodyInto [] rest).1, scanner.position, line, none⟩,
        scanner.after ((Lexeme.bodyInto [] rest).1 ++ if (Lexeme.bodyInto [] rest).2.1 then ['"'] else [])) := by
  obtain ⟨body, same, skipped, whole, ended⟩ := skipBody_eq [] rest stands
  rw [List.reverse_nil, List.nil_append] at same
  rw [same]
  have behind := stands.after_of_append whole.symm
  have taken := Stands.piece_eq (whole ▸ stands) .string line none
  simp only [string?, skipped, taken, Option.bind_eq_bind, Option.bind_some]
  cases closed : (Lexeme.bodyInto [] rest).2.1 with
  | true =>
    rw [closed, if_pos rfl] at behind
    rw [behind.atEnd_cons, if_neg (by decide), behind.advance_one_flat (by decide) (by decide), after_after]
    rfl
  | false =>
    rw [closed, if_neg (by decide), ended closed] at behind
    rw [behind.atEnd_nil, if_pos rfl, if_neg (by decide), List.append_nil]

/-- No character outside ASCII begins a mark, a string, a word or a numeral. -/
theorem starts_nothing {c : Char} (wide : 128 ≤ c.toNat) :
    Token.Kind.ofMark? c = none ∧ c ≠ '"' ∧ c.isAlpha = false ∧ (c.isDigit || c = '-') = false := by
  have other (d : Char) (narrow : d.toNat < 128) : c ≠ d := by
    rintro rfl
    omega
  have noWord : Lexeme.isWordChar c = false := by
    rw [Bool.eq_false_iff]
    intro found
    exact absurd (toNat_lt_of_isWordChar found) (Nat.not_lt_of_le wide)
  simp only [Lexeme.isWordChar, Char.isAlphanum, Bool.or_eq_false_iff] at noWord
  refine ⟨?_, other _ (by decide), noWord.1.1, by simp [noWord.1.2, other '-' (by decide)]⟩
  unfold Token.Kind.ofMark?
  split
  all_goals first | rfl | exact absurd rfl (other _ (by decide))

theorem toNat_peek_wide {c : Char} (stands : scanner.Stands before (c :: rest)) (wide : 128 ≤ c.toNat) :
    0xC0 ≤ (scanner.peek 0).toNat ∧
      byteLength [c] =
        if (scanner.peek 0).toNat < 0xE0 then 2 else if (scanner.peek 0).toNat < 0xF0 then 3 else 4 := by
  obtain ⟨lead, more, spelled, large, -, size⟩ := utf8EncodeChar_of_wide wide
  have sees := stands.sees
  rw [bytes_cons, spelled, List.cons_append] at sees
  have small := lead.toNat_lt
  have seen : (scanner.peek 0).toNat = lead.toNat := by
    rw [sees.peek, List.getElem?_cons_zero, Option.getD_some, Char.toNat_ofNat, if_pos (.inl (by omega))]
  have length : byteLength [c] = more.length + 1 := by
    rw [← length_bytes, bytes_cons, spelled]
    simp
  rw [seen, length]
  exact ⟨large, size⟩

theorem width_peek {c : Char} (stands : scanner.Stands before (c :: rest)) :
    width (scanner.peek 0) = byteLength [c] := by
  by_cases narrow : c.toNat < 128
  · rw [stands.peek_narrow narrow, width, if_pos narrow, byteLength_of_ascii (by simpa using narrow)]
    rfl
  · obtain ⟨large, size⟩ := toNat_peek_wide stands (Nat.le_of_not_lt narrow)
    rw [width, if_neg (by omega), size]

theorem unknown_eq {c : Char} (stands : scanner.Stands before (c :: rest)) (flat : c ≠ '\n') :
    (scanner.moved 1).unknown? scanner.position (scanner.peek 0) =
      some (⟨.unknown, bytes [c], scanner.position, scanner.line, none⟩, scanner.after [c]) := by
  have size := stands.sees.size
  have whole : slice? scanner.source scanner.position scanner.source.length = some (bytes (c :: rest)) := by
    have taken := slice_append before (c :: rest) []
    rw [List.append_nil, ← stands.source, byteLength_append, ← stands.position, ← length_bytes, size] at taken
    exact taken
  have behind : scanner.moved (width (scanner.peek 0)) = scanner.after [c] := by
    rw [width_peek stands, moved_eq_after (by simpa using Ne.symm flat)]
  have taken := @Stands.piece_eq scanner before rest [c] stands .unknown scanner.line none
  rw [← behind] at taken ⊢
  rw [unknown?, show (scanner.moved 1).source = scanner.source from rfl, whole]
  exact taken

theorem nextHere_wide {c : Char} (stands : scanner.Stands before (c :: rest)) (wide : 128 ≤ c.toNat) :
    scanner.nextHere? =
      some (⟨.unknown, bytes [c], scanner.position, scanner.line, none⟩, scanner.after [c]) := by
  have feed : c ≠ '\n' := by
    rintro rfl
    exact absurd wide (by decide)
  obtain ⟨large, -⟩ := toNat_peek_wide stands wide
  obtain ⟨noMark, noQuote, noLetter, noDigit⟩ := starts_nothing (c := scanner.peek 0) (by omega)
  obtain ⟨lead, more, spelled, -, -, -⟩ := utf8EncodeChar_of_wide wide
  have sees := stands.sees
  rw [bytes_cons, spelled, List.cons_append] at sees
  simp only [nextHere?, stands.atEnd_cons, sees.advance_one, noMark, noQuote, noLetter, noDigit, Bool.false_eq_true,
    if_false, Option.bind_eq_bind, Option.bind_some]
  exact unknown_eq stands feed

theorem nextHere_eq {lexeme : Lexeme} {later : List Char} (stands : scanner.Stands before rest)
    (flat : rest.head? ≠ some '\n') (read : Lexeme.read? rest = some (lexeme, later)) :
    scanner.nextHere? = some (pieceOf lexeme scanner.position scanner.line, scanner.after lexeme.chars) := by
  cases rest with
  | nil => cases read
  | cons c rest =>
    by_cases narrow : c.toNat < 128
    · have feed : c ≠ '\n' := by simpa using flat
      have moves := stands.advance_one_flat narrow feed
      have behind := stands.after_cons
      simp only [nextHere?, stands.atEnd_cons, moves, stands.peek_narrow narrow, Bool.false_eq_true, if_false,
        Option.bind_eq_bind, Option.bind_some]
      rw [Lexeme.read?] at read
      cases mark : Token.Kind.ofMark? c with
      | some kind =>
        rw [mark] at read
        cases read
        exact @Stands.piece_eq scanner before later [c] stands kind scanner.line none
      | none =>
        simp only [mark] at read ⊢
        split_ifs at read ⊢ with quote letter digit
        · cases read
          subst quote
          rw [string_eq behind, after_after]
          rfl
        · cases read
          have skipped := behind.skipWhile_eq (p := Lexeme.isWordChar) (fun _ => toNat_lt_of_isWordChar) rfl rfl
          rw [skipped, Option.bind_some, after_after]
          refine @Stands.piece_eq scanner before (rest.dropWhile Lexeme.isWordChar)
            (c :: rest.takeWhile Lexeme.isWordChar) ?_ .identifier scanner.line none
          rwa [List.cons_append, List.takeWhile_append_dropWhile]
        · have whole := Numeral.chars_scan (c :: rest)
          simp only [Option.some.injEq, Prod.mk.injEq] at read
          obtain ⟨rfl, rfl⟩ := read
          rw [number_eq stands, Option.bind_some]
          exact Stands.piece_eq (by rwa [whole]) .number scanner.line _
        · cases read
          have unknown := unknown_eq stands feed
          have same : scanner.moved 1 = scanner.after [c] :=
            Option.some.inj ((stands.sees_narrow narrow).advance_one.symm.trans moves)
          rw [same, stands.peek_narrow narrow] at unknown
          exact unknown
    · have wide := Nat.le_of_not_lt narrow
      obtain ⟨noMark, noQuote, noLetter, noDigit⟩ := starts_nothing wide
      simp only [Lexeme.read?, noMark, noQuote, noLetter, noDigit, Bool.false_eq_true, if_false] at read
      cases read
      exact nextHere_wide stands wide

def pieceOfScan (scan : Scan) : Piece :=
  ⟨scan.token.kind, encode scan.token.text, scan.token.offset, scan.token.line, scan.lexeme.bind amountOf?⟩

def ofCursor (source : String) (cursor : Cursor) : ByteScanner :=
  ⟨encode source, cursor.position, cursor.line⟩

theorem count_le_byteLength (c : Char) (text : List Char) : text.count c ≤ byteLength text := by
  induction text with
  | nil => exact Nat.le_refl 0
  | cons d text ih =>
    have positive := d.utf8Size_pos
    rw [List.count_cons, byteLength_cons]
    split <;> omega

/-- No source has more line feeds than bytes. -/
theorem count_feed_lt {source : String} (short : source.utf8ByteSize < 2 ^ 32 - 1) :
    source.toList.count '\n' < 2 ^ 32 - 1 := by
  rw [← byteLength_toList] at short
  exact Nat.lt_of_le_of_lt (count_le_byteLength '\n' source.toList) short

/-- All lines of a source can be counted when it has no more line feeds than a word can count behind the first line. -/
theorem line_add_count_lt {reader : Reader} {source : String} (located : reader.Located before rest)
    (whole : source.toList = before ++ rest) (few : source.toList.count '\n' < 2 ^ 32 - 1) :
    reader.cursor.line + rest.count '\n' < 2 ^ 32 := by
  rw [whole, List.count_append] at few
  rw [located.line]
  omega

/-- Where a reader stands, going on byte by byte never fails and comes to the token that it reads and to the place
behind it. -/
theorem next_eq {reader : Reader} {source : String} (located : reader.Located before rest)
    (whole : source.toList = before ++ rest) (few : source.toList.count '\n' < 2 ^ 32 - 1) :
    (ofCursor source reader.cursor).next? =
      some (pieceOfScan reader.cursor.scan, ofCursor source reader.next.2.cursor) := by
  have stands : (ofCursor source reader.cursor).Stands before rest := by
    refine ⟨?_, located.place.position, line_add_count_lt located whole few⟩
    rw [ofCursor, encode_eq_bytes, whole]
  rcases reader.cursor.scan_cases with ended | ⟨trivia, lexeme, later, unread, run, stuck, read⟩
  · have scanned := Cursor.scan_of_end ended
    rw [located.place.rest] at ended scanned
    have skipped := skipTrivia_eq ended Trivia.stuck_nil (by rwa [List.append_nil])
    have behind := stands.after_of_append (List.append_nil rest)
    rw [next?, skipped, Option.bind_some, nextHere_nil behind, Reader.next, scanned]
    rfl
  · have scanned := Cursor.scan_of_read unread run stuck read
    rw [located.place.rest] at unread
    subst unread
    have skipped := skipTrivia_eq run stuck stands
    have flat : (lexeme.chars ++ later).head? ≠ some '\n' := by
      intro feed
      obtain ⟨tail, begins⟩ := List.head?_eq_some_iff.mp feed
      exact stuck ['\n'] tail begins (.blank (by simp))
    rw [next?, skipped, Option.bind_some, nextHere_eq stands.after flat read, after_after, Reader.next, scanned,
      pieceOfScan, encode_ofList]
    rfl

end Tokens

end EffectLang.ByteScanner
