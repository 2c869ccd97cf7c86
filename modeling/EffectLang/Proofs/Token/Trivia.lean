import EffectLang.Token.Lexeme
import Mathlib

/-!
The grammar of blanks and comments, stated without the scanner, and its agreement with it: splitting off
trivia takes a run of the grammar, and the longest one.
-/
namespace EffectLang.Trivia

/-- One blank or comment, with the text that follows it. A line comment stops before the line end, or at
the end of the text. A block comment stops with the first `*/`, or at the end of the text. -/
inductive Trivium : List Char → List Char → Prop
  | blank {c : Char} {rest : List Char} (blank : c ∈ [' ', '\t', '\r', '\n']) : Trivium [c] rest
  | line {body rest : List Char} (inside : ∀ c ∈ body, c ∉ ['\r', '\n'])
      (stop : ∀ c ∈ rest.head?, c ∈ ['\r', '\n']) : Trivium ('/' :: '/' :: body) rest
  | block {body rest : List Char} (inside : ¬['*', '/'] <:+: body) :
      Trivium ('/' :: '*' :: (body ++ ['*', '/'])) rest
  | unclosed {body : List Char} (inside : ¬['*', '/'] <:+: body) : Trivium ('/' :: '*' :: body) []

/-- Blanks and comments one after another, with the text that follows them. -/
inductive Run : List Char → List Char → Prop
  | nil {rest : List Char} : Run [] rest
  | cons {first more rest : List Char} (head : Trivium first (more ++ rest)) (last : Run more rest) :
      Run (first ++ more) rest

/-- A text that begins with no blank and no comment. -/
def Stuck (text : List Char) : Prop :=
  ∀ first rest, text = first ++ rest → ¬Trivium first rest

theorem isBlank_iff (c : Char) : isBlank c = true ↔ c ∈ [' ', '\t', '\r', '\n'] := by
  simp only [isBlank, Bool.or_eq_true, decide_eq_true_eq, List.mem_cons, List.not_mem_nil]
  grind

theorem isLineEnd_iff (c : Char) : isLineEnd c = true ↔ c ∈ ['\r', '\n'] := by
  simp only [isLineEnd, Bool.or_eq_true, decide_eq_true_eq, List.mem_cons, List.not_mem_nil]
  grind

theorem Trivium.ne_nil {first rest : List Char} (trivium : Trivium first rest) : first ≠ [] := by
  cases trivium <;> simp

theorem Trivium.head {first rest : List Char} (trivium : Trivium first rest) :
    (∃ c, first = [c] ∧ isBlank c = true) ∨
      ∃ c body, first = '/' :: c :: body ∧ (c = '/' ∨ c = '*') := by
  cases trivium with
  | blank blank => exact .inl ⟨_, rfl, (isBlank_iff _).mpr blank⟩
  | line => exact .inr ⟨_, _, rfl, .inl rfl⟩
  | block => exact .inr ⟨_, _, rfl, .inr rfl⟩
  | unclosed => exact .inr ⟨_, _, rfl, .inr rfl⟩

theorem stuck_nil : Stuck [] := by
  intro first rest whole trivium
  have empty := List.append_eq_nil_iff.mp whole.symm
  exact trivium.ne_nil empty.1

theorem stuck_cons {c : Char} {rest : List Char} (visible : isBlank c = false)
    (noComment : c = '/' → ∀ d ∈ rest.head?, d ≠ '/' ∧ d ≠ '*') : Stuck (c :: rest) := by
  intro first more whole trivium
  rcases trivium.head with ⟨d, rfl, blank⟩ | ⟨d, body, rfl, comment⟩
  · obtain ⟨rfl, -⟩ := List.cons.inj whole
    rw [blank] at visible
    cases visible
  · obtain ⟨rfl, rfl⟩ := List.cons.inj whole
    have other := noComment rfl d rfl
    rcases comment with rfl | rfl
    · exact other.1 rfl
    · exact other.2 rfl

-- What a run looks like that starts outside of comments, inside a line comment or inside a block comment.
private def Continues : Mode → List Char → List Char → Prop
  | .blank, taken, rest => Run taken rest
  | .line, taken, rest =>
    ∃ body more, taken = body ++ more ∧ (∀ c ∈ body, c ∉ ['\r', '\n']) ∧
      (∀ c ∈ (more ++ rest).head?, c ∈ ['\r', '\n']) ∧ Run more rest
  | .block, taken, rest =>
    (∃ body more, taken = body ++ '*' :: '/' :: more ∧ ¬['*', '/'] <:+: body ∧ Run more rest) ∨
      (¬['*', '/'] <:+: taken ∧ rest = [])

private theorem infix_cons {c : Char} {body : List Char} (inside : ¬['*', '/'] <:+: body)
    (apart : c = '*' → body.head? ≠ some '/') : ¬['*', '/'] <:+: c :: body := by
  intro found
  rcases List.infix_cons_iff.mp found with front | later
  · obtain ⟨more, whole⟩ := front
    obtain ⟨rfl, rfl⟩ := List.cons.inj whole
    exact apart rfl rfl
  · exact inside later

private theorem takeInto_continues (mode : Mode) (taken text : List Char) :
    ∃ more rest, takeInto mode taken text = (taken.reverse ++ more, rest) ∧ text = more ++ rest ∧
      Stuck rest ∧ Continues mode more rest := by
  fun_induction takeInto mode taken text with
  | case1 mode taken =>
    refine ⟨[], [], by simp, rfl, stuck_nil, ?_⟩
    cases mode with
    | blank => exact .nil
    | line => exact ⟨[], [], rfl, by simp, by simp, .nil⟩
    | block => exact .inr ⟨by simp, rfl⟩
  | case2 taken text ih =>
    obtain ⟨more, rest, same, whole, stuck, body, later, rfl, inside, stop, run⟩ := ih
    refine ⟨'/' :: '/' :: (body ++ later), rest, by simp [same], by simp [whole], stuck, ?_⟩
    exact .cons (.line inside stop) run
  | case3 taken text ih =>
    obtain ⟨more, rest, same, whole, stuck, ⟨body, later, rfl, inside, run⟩ | ⟨inside, rfl⟩⟩ := ih
    · refine ⟨'/' :: '*' :: (body ++ '*' :: '/' :: later), rest, by simp [same], by simp [whole], stuck, ?_⟩
      have run : Run (('/' :: '*' :: (body ++ ['*', '/'])) ++ later) rest := .cons (.block inside) run
      simpa [Continues] using run
    · refine ⟨'/' :: '*' :: more, [], by simp [same], by simp [whole], stuck, ?_⟩
      have run : Run (('/' :: '*' :: more) ++ []) [] := .cons (.unclosed inside) .nil
      simpa [Continues] using run
  | case4 taken c text _ _ blank ih =>
    obtain ⟨more, rest, same, whole, stuck, run⟩ := ih
    refine ⟨c :: more, rest, by simp [same], by simp [whole], stuck, ?_⟩
    exact .cons (.blank ((isBlank_iff c).mp blank)) run
  | case5 taken c text noLine noBlock visible =>
    refine ⟨[], c :: text, by simp, rfl, ?_, .nil⟩
    apply stuck_cons (by simpa using visible)
    rintro slash d head
    cases text with
    | nil => cases head
    | cons e text =>
      cases head
      exact ⟨fun same => noLine text slash (by rw [same]), fun same => noBlock text slash (by rw [same])⟩
  | case6 taken c text ih =>
    obtain ⟨more, rest, same, whole, stuck, continues⟩ := ih
    refine ⟨c :: more, rest, by simp [same], by simp [whole], stuck, ?_⟩
    by_cases ended : isLineEnd c = true
    · rw [if_pos ended] at continues
      have stop := (isLineEnd_iff c).mp ended
      have blank : c ∈ [' ', '\t', '\r', '\n'] := by simp_all
      exact ⟨[], c :: more, rfl, by simp, by simpa using stop, .cons (.blank blank) continues⟩
    · rw [if_neg ended] at continues
      obtain ⟨body, later, rfl, inside, stop, run⟩ := continues
      refine ⟨c :: body, later, rfl, ?_, stop, run⟩
      intro d member
      rcases List.mem_cons.mp member with rfl | member
      · exact fun found => ended ((isLineEnd_iff d).mpr found)
      · exact inside d member
  | case7 taken text ih =>
    obtain ⟨more, rest, same, whole, stuck, run⟩ := ih
    refine ⟨'*' :: '/' :: more, rest, by simp [same], by simp [whole], stuck, .inl ?_⟩
    exact ⟨[], more, rfl, by simp, run⟩
  | case8 taken c text noEnd ih =>
    -- The first character is no part of `*/`, so the comment goes on behind it.
    obtain ⟨more, rest, same, whole, stuck, continues⟩ := ih
    refine ⟨c :: more, rest, by simp [same], by simp [whole], stuck, ?_⟩
    have apart (body later : List Char) (front : text = body ++ later) : c = '*' → body.head? ≠ some '/' := by
      rintro star slash
      obtain ⟨body, rfl⟩ := List.head?_eq_some_iff.mp slash
      exact noEnd (body ++ later) star front
    rcases continues with ⟨body, later, rfl, inside, run⟩ | ⟨inside, rfl⟩
    · have front : text = body ++ ('*' :: '/' :: later ++ rest) := by rw [whole, List.append_assoc]
      exact .inl ⟨c :: body, later, rfl, infix_cons inside (apart body _ front), run⟩
    · exact .inr ⟨infix_cons inside (apart more [] whole), rfl⟩

/-- Splitting takes a run of blanks and comments, and leaves a text that begins with none. -/
theorem split_run (text : List Char) : Run (split text).1 (split text).2 ∧ Stuck (split text).2 := by
  obtain ⟨more, rest, same, -, stuck, run⟩ := takeInto_continues .blank [] text
  rw [split, same]
  exact ⟨run, stuck⟩

private theorem takeInto_line (taken body rest : List Char) (inside : ∀ c ∈ body, c ∉ ['\r', '\n'])
    (stop : ∀ c ∈ rest.head?, c ∈ ['\r', '\n']) :
    takeInto .line taken (body ++ rest) = takeInto .blank (body.reverse ++ taken) rest := by
  induction body generalizing taken with
  | nil =>
    cases rest with
    | nil => simp [takeInto]
    | cons c rest =>
      have ended : isLineEnd c = true := (isLineEnd_iff c).mpr (stop c rfl)
      have blank : isBlank c = true := by
        apply (isBlank_iff c).mpr
        have := stop c rfl
        simp_all
      have noSlash : c ≠ '/' := by
        rintro rfl
        simp [isBlank] at blank
      simp [takeInto, ended, blank, noSlash]
  | cons c body ih =>
    have inner : isLineEnd c ≠ true := fun ended => inside c (by simp) ((isLineEnd_iff c).mp ended)
    have later := ih (c :: taken) fun d member => inside d (by simp [member])
    simpa [takeInto, inner] using later

private theorem takeInto_block_cons (taken : List Char) {c : Char} {text : List Char}
    (noEnd : c = '*' → text.head? ≠ some '/') :
    takeInto .block taken (c :: text) = takeInto .block (c :: taken) text := by
  rw [takeInto]
  rintro rest star rfl
  exact noEnd star rfl

theorem apart_of_inside {c : Char} {body rest : List Char} (inside : ¬['*', '/'] <:+: c :: body)
    (behind : rest.head? ≠ some '/') : c = '*' → (body ++ rest).head? ≠ some '/' := by
  rintro rfl slash
  cases body with
  | nil => exact behind slash
  | cons d body =>
    cases slash
    exact inside ⟨[], body, rfl⟩

theorem not_infix_tail {c : Char} {body : List Char} (inside : ¬['*', '/'] <:+: c :: body) :
    ¬['*', '/'] <:+: body :=
  fun found => inside (found.trans (List.suffix_cons c body).isInfix)

private theorem takeInto_block (taken body rest : List Char) (inside : ¬['*', '/'] <:+: body) :
    takeInto .block taken (body ++ '*' :: '/' :: rest) =
      takeInto .blank ('/' :: '*' :: (body.reverse ++ taken)) rest := by
  induction body generalizing taken with
  | nil => simp [takeInto]
  | cons c body ih =>
    rw [List.cons_append, takeInto_block_cons taken (apart_of_inside inside (by simp)),
      ih (c :: taken) (not_infix_tail inside)]
    simp

private theorem takeInto_unclosed (taken body : List Char) (inside : ¬['*', '/'] <:+: body) :
    takeInto .block taken body = (taken.reverse ++ body, []) := by
  induction body generalizing taken with
  | nil => simp [takeInto]
  | cons c body ih =>
    have apart := @apart_of_inside c body [] inside (by simp)
    rw [List.append_nil] at apart
    rw [takeInto_block_cons taken apart, ih (c :: taken) (not_infix_tail inside)]
    simp

private theorem takeInto_trivium {first rest : List Char} (taken : List Char) (trivium : Trivium first rest) :
    takeInto .blank taken (first ++ rest) = takeInto .blank (first.reverse ++ taken) rest := by
  cases trivium with
  | @blank c rest blank =>
    have isBlank : isBlank c = true := (isBlank_iff c).mpr blank
    have noSlash : c ≠ '/' := by
      rintro rfl
      simp at blank
    simp [takeInto, isBlank, noSlash]
  | line inside stop => simpa [takeInto] using takeInto_line ('/' :: '/' :: taken) _ rest inside stop
  | block inside => simpa [takeInto] using takeInto_block ('*' :: '/' :: taken) _ rest inside
  | unclosed inside => simpa [takeInto] using takeInto_unclosed ('*' :: '/' :: taken) _ inside

private theorem takeInto_run {trivia rest : List Char} (taken : List Char) (run : Run trivia rest) :
    takeInto .blank taken (trivia ++ rest) = takeInto .blank (trivia.reverse ++ taken) rest := by
  induction run generalizing taken with
  | nil => rfl
  | @cons first more rest head last ih =>
    rw [List.append_assoc, takeInto_trivium taken head, ih]
    simp

private theorem takeInto_stuck {text : List Char} (taken : List Char) (stuck : Stuck text) :
    takeInto .blank taken text = (taken.reverse, text) := by
  obtain ⟨more, rest, same, whole, -, run⟩ := takeInto_continues .blank taken text
  cases run with
  | nil =>
    rw [same, whole]
    simp
  | @cons first later _ head last =>
    rw [List.append_assoc] at whole
    exact absurd head (stuck first (later ++ rest) whole)

theorem stuck_cons_iff {c : Char} {rest : List Char} :
    Stuck (c :: rest) ↔ isBlank c = false ∧ (c = '/' → ∀ d ∈ rest.head?, d ≠ '/' ∧ d ≠ '*') := by
  refine ⟨fun stuck => ⟨?_, ?_⟩, fun ⟨visible, noComment⟩ => stuck_cons visible noComment⟩
  · rw [Bool.eq_false_iff]
    exact fun blank => stuck [c] rest rfl (.blank ((isBlank_iff c).mp blank))
  · rintro rfl d head
    obtain ⟨rest, rfl⟩ := List.head?_eq_some_iff.mp head
    -- Both openings move two characters onto the trivia, and a text that is stuck has none.
    have none := takeInto_stuck [] stuck
    constructor
    · rintro rfl
      obtain ⟨more, left, same, -⟩ := takeInto_continues .line ['/', '/'] rest
      simp [takeInto, same] at none
    · rintro rfl
      obtain ⟨more, left, same, -⟩ := takeInto_continues .block ['*', '/'] rest
      simp [takeInto, same] at none

/-- Splitting finds every run of blanks and comments that the text after it ends. -/
theorem split_of_run {trivia text : List Char} (run : Run trivia text) (stuck : Stuck text) :
    split (trivia ++ text) = (trivia, text) := by
  rw [split, takeInto_run [] run, takeInto_stuck _ stuck]
  simp

end EffectLang.Trivia
