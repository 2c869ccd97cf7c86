import EffectLang.Text.Utf8
import EffectLang.Token.Lexeme
import Mathlib

/-!
The grammar of lexemes, stated without the scanner, and its agreement with it. Words and numbers are the
longest texts of their form; a string goes to the first quote that no unpaired backslash precedes.
-/
namespace EffectLang.Lexeme

def marks : List (Char × Token.Kind) :=
  [('(', .openParen), (')', .closeParen), (':', .colon), (';', .semicolon), ('*', .asterisk),
    ('[', .openBracket), (']', .closeBracket), ('\x7b', .openBrace), ('\x7d', .closeBrace), ('=', .equals),
    ('#', .hash), (',', .comma)]

def IsWord (text : List Char) : Prop :=
  ∃ c more, text = c :: more ∧ c.isAlpha = true ∧ ∀ d ∈ more, d.isAlphanum = true ∨ d = '_'

def IsNumber (text : List Char) : Prop :=
  (∃ c ∈ text.head?, c.isDigit = true ∨ c = '-') ∧
    ∃ sign whole fraction mark, text = sign ++ (whole ++ (fraction ++ mark)) ∧ (sign = [] ∨ sign = ['-']) ∧
      (∀ c ∈ whole, c.isDigit = true) ∧
      (fraction = [] ∨ ∃ digits, fraction = '.' :: digits ∧ ∀ c ∈ digits, c.isDigit = true) ∧
      (mark = [] ∨ mark = ['e'] ∨ mark = ['E'])

/-- A text has a form, and so does nothing longer that begins as it does with what follows. -/
def Longest (Form : List Char → Prop) (text rest : List Char) : Prop :=
  Form text ∧ ∀ longer, longer <+: text ++ rest → Form longer → longer.length ≤ text.length

/-- An odd number of backslashes ends a text, so the last of them escapes what follows. -/
def Escaped (before : List Char) : Prop :=
  (before.reverse.takeWhile (· = '\\')).length % 2 = 1

def QuotesEscaped (body : List Char) : Prop :=
  ∀ left right, body = left ++ '"' :: right → Escaped left

/-- The lexemes of each kind: what stands before the text of the token, the text, what belongs to the lexeme
behind it, and the source that follows. -/
inductive Spelled : Token.Kind → List Char → List Char → List Char → List Char → Prop
  | mark {kind : Token.Kind} {c : Char} {rest : List Char} (listed : (c, kind) ∈ marks) :
      Spelled kind [] [c] [] rest
  | word {text rest : List Char} (longest : Longest IsWord text rest) : Spelled .identifier [] text [] rest
  | number {text rest : List Char} (longest : Longest IsNumber text rest) : Spelled .number [] text [] rest
  | closed {body rest : List Char} (inside : QuotesEscaped body) (free : ¬Escaped body) :
      Spelled .string ['"'] body ['"'] rest
  | unclosed {body : List Char} (inside : QuotesEscaped body) : Spelled .string ['"'] body [] []
  | unknown {c : Char} {rest : List Char} (unlisted : ∀ kind, (c, kind) ∉ marks) (noWord : c.isAlpha = false)
      (noNumber : c.isDigit = false ∧ c ≠ '-') (noQuote : c ≠ '"') : Spelled .unknown [] [c] [] rest

theorem mem_marks_iff {c : Char} {kind : Token.Kind} :
    (c, kind) ∈ marks ↔ Token.Kind.ofMark? c = some kind := by
  constructor
  · intro listed
    simp only [marks, List.mem_cons, Prod.mk.injEq, List.not_mem_nil, or_false] at listed
    rcases listed with ⟨rfl, rfl⟩ | ⟨rfl, rfl⟩ | ⟨rfl, rfl⟩ | ⟨rfl, rfl⟩ | ⟨rfl, rfl⟩ | ⟨rfl, rfl⟩ | ⟨rfl, rfl⟩
      | ⟨rfl, rfl⟩ | ⟨rfl, rfl⟩ | ⟨rfl, rfl⟩ | ⟨rfl, rfl⟩ | ⟨rfl, rfl⟩ <;> rfl
  · intro known
    unfold Token.Kind.ofMark? at known
    split at known <;> cases known <;> decide

theorem length_le_takeWhile {p : Char → Bool} {front text : List Char} (found : front <+: text)
    (inside : ∀ c ∈ front, p c = true) : front.length ≤ (text.takeWhile p).length := by
  obtain ⟨rest, rfl⟩ := found
  rw [List.takeWhile_append_of_pos inside]
  simp

theorem longest_word {c : Char} (rest : List Char) (letter : c.isAlpha = true) :
    Longest IsWord (c :: rest.takeWhile isWordChar) (rest.dropWhile isWordChar) := by
  refine ⟨⟨c, _, rfl, letter, fun d member => ?_⟩, ?_⟩
  · have inside := List.all_eq_true.mp (List.all_takeWhile (l := rest) (p := isWordChar)) d member
    simpa [isWordChar] using inside
  · rintro longer found ⟨d, more, rfl, -, inside⟩
    rw [List.cons_append, List.takeWhile_append_dropWhile] at found
    have shorter := (List.cons_prefix_cons.mp found).2
    have letters : ∀ e ∈ more, isWordChar e = true := fun e member => by simpa [isWordChar] using inside e member
    simpa using length_le_takeWhile shorter letters

theorem escaped_concat (before : List Char) (c : Char) :
    Escaped (before ++ [c]) ↔ c = '\\' ∧ ¬Escaped before := by
  unfold Escaped
  rw [List.reverse_concat]
  by_cases slash : c = '\\'
  · subst slash
    simp only [decide_true, List.takeWhile_cons_of_pos, List.length_cons, true_and]
    omega
  · simp [slash]

private theorem bodyInto_spelled (taken text : List Char) (free : ¬Escaped taken.reverse) :
    ∃ body, (bodyInto taken text).1 = taken.reverse ++ body ∧
      (∀ left right, body = left ++ '"' :: right → Escaped (taken.reverse ++ left)) ∧
      ((bodyInto taken text).2.1 = true → ¬Escaped (taken.reverse ++ body)) ∧
      ((bodyInto taken text).2.1 = false → (bodyInto taken text).2.2 = []) := by
  fun_induction bodyInto taken text with
  | case1 taken => exact ⟨[], by simp, by simp, by simp, by simp⟩
  | case2 taken rest => exact ⟨[], by simp, by simp, by simpa using free, by simp⟩
  | case3 taken c rest ih =>
    -- A backslash and the character behind it go together, and neither escapes what follows.
    have slash : Escaped (taken.reverse ++ ['\\']) := (escaped_concat _ _).mpr ⟨rfl, free⟩
    have still : ¬Escaped (c :: '\\' :: taken).reverse := by
      rw [List.reverse_cons, List.reverse_cons, escaped_concat]
      exact fun both => both.2 slash
    obtain ⟨body, same, quotes, ended, unended⟩ := ih still
    rw [List.reverse_cons, List.reverse_cons] at same quotes ended
    refine ⟨'\\' :: c :: body, by simp [same], ?_, by simpa using ended, unended⟩
    intro left right whole
    cases left with
    | nil => cases whole
    | cons _ left =>
      cases left with
      | nil =>
        cases whole
        exact slash
      | cons _ left =>
        cases whole
        simpa using quotes left right rfl
  | case4 taken c rest noQuote noEscape ih =>
    by_cases slash : c = '\\'
    · cases rest with
      | nil =>
        refine ⟨[c], by simp [bodyInto], ?_, by simp [bodyInto], by simp [bodyInto]⟩
        intro left right whole
        obtain ⟨rfl, rfl, rfl⟩ : left = [] ∧ c = '"' ∧ right = [] := by
          cases left with
          | nil => simpa using whole
          | cons _ left => simp at whole
        exact absurd rfl noQuote
      | cons d rest => exact absurd rfl (noEscape d rest slash)
    · have still : ¬Escaped (c :: taken).reverse := by
        rw [List.reverse_cons, escaped_concat]
        exact fun both => slash both.1
      obtain ⟨body, same, quotes, ended, unended⟩ := ih still
      rw [List.reverse_cons] at same quotes ended
      refine ⟨c :: body, by simp [same], ?_, by simpa using ended, unended⟩
      intro left right whole
      cases left with
      | nil =>
        cases whole
        exact absurd rfl noQuote
      | cons _ left =>
        cases whole
        simpa using quotes left right rfl

private theorem span_le {p : Char → Bool} {front back text : List Char} (inside : ∀ c ∈ front, p c = true)
    (apart : ∀ c ∈ back.head?, p c = false) (found : front ++ back <+: text) :
    (back = [] ∧ front.length ≤ (text.takeWhile p).length) ∨
      (front = text.takeWhile p ∧ back <+: text.dropWhile p) := by
  cases back with
  | nil => exact .inl ⟨rfl, length_le_takeWhile (by simpa using found) inside⟩
  | cons c back =>
    obtain ⟨rest, rfl⟩ := found
    have stop : p c = false := apart c rfl
    rw [List.append_assoc, List.takeWhile_append_of_pos inside, List.dropWhile_append_of_pos inside]
    refine .inr ⟨by simp [stop], ?_⟩
    simp [stop]

-- How far a numeral reaches from its exponent mark on, from its fraction on and from its digits on.
private def markReach (text : List Char) : Nat :=
  (Numeral.takeMark text).1.toList.length

private def fractionReach (text : List Char) : Nat :=
  (Numeral.fractionChars (Numeral.takeFraction text).1).length + markReach (Numeral.takeFraction text).2

private def wholeReach (text : List Char) : Nat :=
  (text.takeWhile Char.isDigit).length + fractionReach (text.dropWhile Char.isDigit)

private theorem mark_le {mark text : List Char} (isMark : mark = [] ∨ mark = ['e'] ∨ mark = ['E'])
    (found : mark <+: text) : mark.length ≤ markReach text := by
  rcases isMark with rfl | rfl | rfl
  · simp
  · obtain ⟨rest, rfl⟩ := found
    simp [markReach, Numeral.takeMark]
  · obtain ⟨rest, rfl⟩ := found
    simp [markReach, Numeral.takeMark]

private theorem fraction_le {fraction mark text : List Char}
    (isFraction : fraction = [] ∨ ∃ digits, fraction = '.' :: digits ∧ ∀ c ∈ digits, c.isDigit = true)
    (isMark : mark = [] ∨ mark = ['e'] ∨ mark = ['E']) (found : fraction ++ mark <+: text) :
    (fraction ++ mark).length ≤ fractionReach text := by
  rcases isFraction with rfl | ⟨digits, rfl, inside⟩
  · rcases isMark with rfl | rfl | rfl
    · simp
    · obtain ⟨rest, rfl⟩ := found
      simp [fractionReach, Numeral.takeFraction, markReach, Numeral.takeMark]
    · obtain ⟨rest, rfl⟩ := found
      simp [fractionReach, Numeral.takeFraction, markReach, Numeral.takeMark]
  · cases text with
    | nil => simp at found
    | cons c text =>
      obtain ⟨rfl, behind⟩ := List.cons_prefix_cons.mp found
      have apart : ∀ c ∈ mark.head?, c.isDigit = false := by
        rcases isMark with rfl | rfl | rfl <;> simp
      simp only [fractionReach, Numeral.takeFraction, Numeral.fractionChars, List.cons_append, List.length_cons,
        List.length_append]
      rcases span_le inside apart behind with ⟨rfl, bound⟩ | ⟨rfl, later⟩
      · simp only [List.length_nil]
        omega
      · have bound := mark_le isMark later
        omega

private theorem whole_le {whole fraction mark text : List Char} (inside : ∀ c ∈ whole, c.isDigit = true)
    (isFraction : fraction = [] ∨ ∃ digits, fraction = '.' :: digits ∧ ∀ c ∈ digits, c.isDigit = true)
    (isMark : mark = [] ∨ mark = ['e'] ∨ mark = ['E']) (found : whole ++ (fraction ++ mark) <+: text) :
    (whole ++ (fraction ++ mark)).length ≤ wholeReach text := by
  have apart : ∀ c ∈ (fraction ++ mark).head?, c.isDigit = false := by
    rcases isFraction with rfl | ⟨digits, rfl, -⟩
    · rcases isMark with rfl | rfl | rfl <;> simp
    · simp
  rw [List.length_append]
  unfold wholeReach
  rcases span_le inside apart found with ⟨empty, bound⟩ | ⟨rfl, later⟩
  · rw [empty, List.length_nil]
    omega
  · have bound := fraction_le isFraction isMark later
    omega

private theorem isFraction_takeFraction (text : List Char) :
    Numeral.fractionChars (Numeral.takeFraction text).1 = [] ∨
      ∃ digits, Numeral.fractionChars (Numeral.takeFraction text).1 = '.' :: digits ∧
        ∀ c ∈ digits, c.isDigit = true := by
  fun_cases Numeral.takeFraction text with
  | case1 rest => exact .inr ⟨_, rfl, List.all_eq_true.mp List.all_takeWhile⟩
  | case2 => exact .inl rfl

private theorem isMark_takeMark (text : List Char) :
    (Numeral.takeMark text).1.toList = [] ∨ (Numeral.takeMark text).1.toList = ['e'] ∨
      (Numeral.takeMark text).1.toList = ['E'] := by
  fun_cases Numeral.takeMark text with
  | case1 => exact .inr (.inl rfl)
  | case2 => exact .inr (.inr rfl)
  | case3 => exact .inl rfl

private theorem isNumber_scan {c : Char} (rest : List Char) (start : c.isDigit = true ∨ c = '-') :
    IsNumber (Numeral.scan (c :: rest)).1.chars := by
  constructor
  · have whole := Numeral.chars_scan (c :: rest)
    have nonempty := scan_chars_ne_nil rest (by simpa using start)
    obtain ⟨d, more, spelled⟩ := List.exists_cons_of_ne_nil nonempty
    rw [spelled] at whole ⊢
    obtain ⟨rfl, -⟩ := List.cons.inj whole
    exact ⟨d, rfl, start⟩
  · let numeral := (Numeral.scan (c :: rest)).1
    refine ⟨Numeral.signChars numeral.negative, numeral.whole, Numeral.fractionChars numeral.fraction,
      numeral.mark.toList, by simp only [numeral, Numeral.chars, List.append_assoc], ?_,
      List.all_eq_true.mp List.all_takeWhile, isFraction_takeFraction _, isMark_takeMark _⟩
    cases numeral.negative with
    | true => exact .inr rfl
    | false => exact .inl rfl

private theorem length_chars_scan (text : List Char) :
    (Numeral.scan text).1.chars.length =
      (Numeral.signChars (Numeral.takeSign text).1).length + wholeReach (Numeral.takeSign text).2 := by
  simp only [Numeral.scan, Numeral.chars, List.length_append, wholeReach, fractionReach, markReach]
  omega

private theorem takeSign_of_ne {c : Char} (rest : List Char) (unsigned : c ≠ '-') :
    Numeral.takeSign (c :: rest) = (false, c :: rest) := by
  unfold Numeral.takeSign
  split
  · rename_i same
    cases same
    exact absurd rfl unsigned
  · rfl

theorem longest_number {c : Char} (rest : List Char) (start : c.isDigit = true ∨ c = '-') :
    Longest IsNumber (Numeral.scan (c :: rest)).1.chars (Numeral.scan (c :: rest)).2 := by
  refine ⟨isNumber_scan rest start, ?_⟩
  rw [Numeral.chars_scan, length_chars_scan]
  rintro longer found ⟨⟨d, head, first⟩, sign, whole, fraction, mark, rfl, isSign, inside, isFraction, isMark⟩
  rcases isSign with rfl | rfl
  · have same : d = c := by
      obtain ⟨more, spelled⟩ := List.head?_eq_some_iff.mp head
      rw [spelled] at found
      exact (List.cons_prefix_cons.mp found).1
    subst same
    -- Without a sign the numeral begins with a digit, for nothing else could follow a missing sign.
    have unsigned : d ≠ '-' := by
      rintro rfl
      cases whole with
      | cons e whole =>
        cases head
        exact absurd (inside '-' (by simp)) (by decide)
      | nil =>
        rcases isFraction with rfl | ⟨digits, rfl, -⟩
        · rcases isMark with rfl | rfl | rfl <;> cases head
        · cases head
    rw [takeSign_of_ne rest unsigned]
    simpa [Numeral.signChars] using whole_le inside isFraction isMark found
  · obtain ⟨rfl, behind⟩ := List.cons_prefix_cons.mp found
    have bound := whole_le inside isFraction isMark behind
    simp only [Numeral.takeSign, Numeral.signChars, List.cons_append, List.nil_append, List.length_cons,
      List.length_nil] at bound ⊢
    omega

theorem eq_nil_of_read? {source : List Char} (unread : read? source = none) : source = [] := by
  cases source with
  | nil => rfl
  | cons c source =>
    simp only [read?] at unread
    split at unread
    · cases unread
    · split at unread
      · cases unread
      · split at unread
        · cases unread
        · split at unread <;> cases unread

theorem chars_ne_nil_of_read? {source rest : List Char} {lexeme : Lexeme}
    (read : read? source = some (lexeme, rest)) : lexeme.chars ≠ [] := by
  have shorter := length_lt_of_read? read
  rw [← chars_append_of_read? read] at shorter
  rintro empty
  simp [empty] at shorter

/-- What the scanner reads at a place where no trivia starts is a lexeme of the grammar, of the right kind
and with the right text. -/
theorem spelled_of_read? {source rest : List Char} {lexeme : Lexeme}
    (read : read? source = some (lexeme, rest)) :
    ∃ opening closing, lexeme.chars = opening ++ (lexeme.text ++ closing) ∧
      Utf8.byteLength opening = lexeme.margin ∧ Spelled lexeme.kind opening lexeme.text closing rest := by
  cases source with
  | nil => cases read
  | cons c source =>
    simp only [read?] at read
    split at read
    · rename_i kind known
      cases read
      exact ⟨[], [], rfl, rfl, .mark (mem_marks_iff.mpr known)⟩
    · rename_i noMark
      split at read
      · cases read
        obtain ⟨body, same, quotes, ended, unended⟩ := bodyInto_spelled [] source (by simp [Escaped])
        simp only [List.reverse_nil, List.nil_append] at same quotes ended
        cases closed : (bodyInto [] source).2.1 with
        | true =>
          refine ⟨['"'], ['"'], by simp [chars, text], rfl, ?_⟩
          exact .closed (same ▸ quotes) (same ▸ ended closed)
        | false =>
          refine ⟨['"'], [], by simp [chars, text], rfl, ?_⟩
          rw [unended closed]
          exact .unclosed (same ▸ quotes)
      · rename_i noQuote
        split at read
        · rename_i letter
          cases read
          exact ⟨[], [], by simp [chars, text], rfl, .word (longest_word source letter)⟩
        · rename_i noLetter
          split at read
          · rename_i start
            simp only [Option.some.injEq, Prod.mk.injEq] at read
            obtain ⟨rfl, rfl⟩ := read
            exact ⟨[], [], by simp [chars, text], rfl, .number (longest_number source (by simpa using start))⟩
          · rename_i noStart
            cases read
            have unlisted (kind : Token.Kind) : (c, kind) ∉ marks := by
              rw [mem_marks_iff, noMark]
              simp
            refine ⟨[], [], rfl, rfl, .unknown unlisted (by simpa using noLetter) ?_ noQuote⟩
            simpa using noStart

end EffectLang.Lexeme
