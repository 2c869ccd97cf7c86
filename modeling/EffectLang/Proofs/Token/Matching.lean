import EffectLang.Effect.Property
import EffectLang.Proofs.Token.Stream

/-!
The same tokens in two layouts. Blanks and comments between the tokens are of no account, except that a number and the
word behind it make one type name only where they touch.
-/
namespace EffectLang

namespace Token

/-- What a token is apart from its place. -/
def spelling (token : Token) : Token.Kind × String :=
  (token.kind, token.text)

theorem spelling_eq_iff {first second : Token} :
    first.spelling = second.spelling ↔ first.kind = second.kind ∧ first.text = second.text :=
  Prod.mk_inj

/-- At an index of the list stands a number, and the word behind it begins where it ends. -/
def Touching (tokens : List Token) (index : Nat) : Prop :=
  ∃ number ∈ tokens[index]?, ∃ word ∈ tokens[index + 1]?,
    number.kind = .number ∧ word.kind = .identifier ∧ number.stop = word.offset

instance (tokens : List Token) (index : Nat) : Decidable (Touching tokens index) :=
  inferInstanceAs (Decidable (∃ number ∈ tokens[index]?, ∃ word ∈ tokens[index + 1]?,
    number.kind = .number ∧ word.kind = .identifier ∧ number.stop = word.offset))

theorem Touching.lt_length {tokens : List Token} {index : Nat} (touching : Touching tokens index) :
    index < tokens.length := by
  obtain ⟨number, there, -⟩ := touching
  exact (List.getElem?_eq_some_iff.mp there).1

/-- Two lists have the same tokens, and the same numbers in them touch the words behind. -/
structure Matching (first second : List Token) : Prop where
  spelled : first.map spelling = second.map spelling
  touching : ∀ index, Touching first index ↔ Touching second index

theorem matching_iff {first second : List Token} :
    Matching first second ↔ first.map spelling = second.map spelling ∧
      ∀ index < first.length, (Touching first index ↔ Touching second index) := by
  constructor
  · intro matching
    exact ⟨matching.spelled, fun index _ => matching.touching index⟩
  · rintro ⟨spelled, inside⟩
    refine ⟨spelled, ?_⟩
    intro index
    by_cases short : index < first.length
    · exact inside index short
    -- Behind the end of the lists nothing touches.
    · have sizes : first.length = second.length := by simpa using congrArg List.length spelled
      exact iff_of_false (mt Touching.lt_length short) (mt Touching.lt_length (sizes ▸ short))

instance (first second : List Token) : Decidable (Matching first second) :=
  decidable_of_iff _ matching_iff.symm

namespace Matching

variable {first second : List Token} {token other : Token}

theorem refl (tokens : List Token) : Matching tokens tokens :=
  ⟨rfl, fun _ => Iff.rfl⟩

theorem symm (matching : Matching first second) : Matching second first :=
  ⟨matching.spelled.symm, fun index => (matching.touching index).symm⟩

theorem head (matching : Matching (token :: first) (other :: second)) : token.spelling = other.spelling := by
  have spelled := matching.spelled
  simp only [List.map_cons, List.cons.injEq] at spelled
  exact spelled.1

theorem tail (matching : Matching (token :: first) (other :: second)) : Matching first second where
  spelled := by
    have spelled := matching.spelled
    simp only [List.map_cons, List.cons.injEq] at spelled
    exact spelled.2
  touching index := by simpa [Touching] using matching.touching (index + 1)

theorem touch {word word' : Token} (matching : Matching (token :: word :: first) (other :: word' :: second))
    (number : token.kind = .number) (name : word.kind = .identifier) :
    token.stop = word.offset ↔ other.stop = word'.offset := by
  obtain ⟨numbers, -⟩ := spelling_eq_iff.mp matching.head
  obtain ⟨words, -⟩ := spelling_eq_iff.mp matching.tail.head
  have touching := matching.touching 0
  simpa [Touching, ← numbers, ← words, number, name] using touching

end Matching

end Token

/-- A name that begins as a number does and has more than two characters is no type's. -/
theorem Property.Kind.ofTypeName_of_number {text : String} {c : Char} {rest : List Char}
    (spelled : text.toList = c :: rest) (number : c.isDigit = true ∨ c = '-') (long : 1 < rest.length) :
    ofTypeName text = .unknown := by
  unfold ofTypeName
  split
  all_goals first | rfl | (simp at spelled; obtain ⟨rfl, rfl⟩ := spelled)
  -- The names that begin with a digit have two characters, and the others begin with a letter.
  all_goals first | exact absurd number (by decide) | exact absurd long (by decide)

namespace Reader

variable {reader : Reader}

theorem isNumber_next (number : reader.next.1.kind = .number) : Lexeme.IsNumber reader.next.1.text.toList := by
  obtain ⟨opening, text, closing, rest, spelled, form⟩ := spelled_next number (by decide)
  rw [spelled]
  cases form with
  | mark listed => simp [Lexeme.marks] at listed
  | number longest => exact longest.1

/-- A number and the word behind it are joined with all that stands between them, which is nothing where they touch. -/
theorem Within.text_join {source : List Char} (within : reader.Within source) :
    ∃ between, (reader.next.2.next.2.join reader.next.1 reader.next.2.next.1).text.toList =
        reader.next.1.text.toList ++ (between ++ reader.next.2.next.1.text.toList) ∧
      (reader.next.1.stop = reader.next.2.next.1.offset ↔ between = []) := by
  obtain ⟨before, rest, -, located⟩ := within
  obtain ⟨gap, text, tail, later, rfl, lies, behind, -, -⟩ := located.next
  obtain ⟨gap', text', tail', later', rfl, lies', last, -, -⟩ := behind.next
  refine ⟨tail ++ gap', ?_, ?_⟩
  · have whole : reader.next.2.next.2.source =
        (before ++ gap) ++ ((text ++ (tail ++ (gap' ++ text'))) ++ (tail' ++ later')) := by
      rw [last.source]
      simp only [List.append_assoc]
    have stop : reader.next.2.next.1.stop =
        Utf8.byteLength ((before ++ gap) ++ (text ++ (tail ++ (gap' ++ text')))) := by
      rw [lies'.stop]
      simp only [List.append_assoc]
    rw [join, lies.offset, stop, textBetween_of_source _ _ _ whole, lies.text, lies'.text]
    simp only [String.toList_ofList, List.append_assoc]
  · have sum : reader.next.2.next.1.offset = reader.next.1.stop + Utf8.byteLength (tail ++ gap') := by
      rw [lies.stop, lies'.offset]
      simp only [Utf8.byteLength_append, Nat.add_assoc]
    constructor
    · intro touch
      by_contra apart
      have positive := Utf8.byteLength_pos apart
      omega
    · intro nothing
      rw [sum, nothing]
      rfl

theorem ofTypeName_join_of_apart {source : List Char} (within : reader.Within source)
    (number : reader.next.1.kind = .number) (word : reader.next.2.next.1.kind = .identifier)
    (apart : reader.next.1.stop ≠ reader.next.2.next.1.offset) :
    Property.Kind.ofTypeName (reader.next.2.next.2.join reader.next.1 reader.next.2.next.1).text = .unknown := by
  obtain ⟨between, joined, touch⟩ := within.text_join
  obtain ⟨⟨c, head, digit⟩, -⟩ := isNumber_next number
  obtain ⟨digits, first⟩ := List.head?_eq_some_iff.mp head
  obtain ⟨letter, letters, last, -, -⟩ := isWord_next word
  rw [first, last, List.cons_append] at joined
  refine Property.Kind.ofTypeName_of_number joined digit ?_
  have positive := List.length_pos_of_ne_nil (mt touch.mpr apart)
  simp only [List.length_append, List.length_cons]
  omega

end Reader

namespace Token.Matching

variable {reader other : Reader}

theorem next (matching : Matching reader.ahead other.ahead) :
    reader.next.1.spelling = other.next.1.spelling ∧ Matching reader.next.2.ahead other.next.2.ahead := by
  obtain ⟨rest, ahead⟩ := reader.head_ahead
  obtain ⟨rest', ahead'⟩ := other.head_ahead
  have same : reader.next.1.spelling = other.next.1.spelling := by
    rw [ahead, ahead'] at matching
    exact matching.head
  obtain ⟨kinds, -⟩ := spelling_eq_iff.mp same
  refine ⟨same, ?_⟩
  -- The end of the source stays ahead; any other token is taken from both lists.
  by_cases ended : reader.next.1.kind = .endOfStream
  · have ended' : other.next.1.kind = .endOfStream := kinds ▸ ended
    rw [Reader.ahead_of_end ended, Reader.ahead_of_end ended'] at matching
    rwa [Reader.ahead_next_of_end ended, Reader.ahead_next_of_end ended']
  · have more : other.next.1.kind ≠ .endOfStream := kinds ▸ ended
    rw [Reader.ahead_of_more ended, Reader.ahead_of_more more] at matching
    exact matching.tail

/-- In two layouts of the same tokens a number and the word behind it make names for the same type. -/
theorem ofTypeName_join {source source' : List Char} (matching : Matching reader.ahead other.ahead)
    (within : reader.Within source) (within' : other.Within source') (number : reader.next.1.kind = .number)
    (word : reader.next.2.next.1.kind = .identifier) :
    Property.Kind.ofTypeName (reader.next.2.next.2.join reader.next.1 reader.next.2.next.1).text =
      Property.Kind.ofTypeName (other.next.2.next.2.join other.next.1 other.next.2.next.1).text := by
  obtain ⟨sameNumber, behind⟩ := matching.next
  obtain ⟨sameWord, -⟩ := behind.next
  obtain ⟨numbers, digits⟩ := spelling_eq_iff.mp sameNumber
  obtain ⟨words, letters⟩ := spelling_eq_iff.mp sameWord
  have number' : other.next.1.kind = .number := numbers ▸ number
  have word' : other.next.2.next.1.kind = .identifier := words ▸ word
  have touch : reader.next.1.stop = reader.next.2.next.1.offset ↔ other.next.1.stop = other.next.2.next.1.offset := by
    have ahead {reader : Reader} (number : reader.next.1.kind = .number)
        (word : reader.next.2.next.1.kind = .identifier) :
        reader.ahead = reader.next.1 :: reader.next.2.next.1 :: reader.next.2.next.2.ahead := by
      rw [Reader.ahead_of_more (number ▸ by decide), Reader.ahead_of_more (word ▸ by decide)]
    rw [ahead number word, ahead number' word'] at matching
    exact matching.touch number word
  by_cases joined : reader.next.1.stop = reader.next.2.next.1.offset
  · obtain ⟨between, text, nothing⟩ := within.text_join
    obtain ⟨between', text', nothing'⟩ := within'.text_join
    rw [nothing.mp joined, digits, letters] at text
    rw [nothing'.mp (touch.mp joined)] at text'
    exact congrArg Property.Kind.ofTypeName (String.toList_injective (text.trans text'.symm))
  · rw [Reader.ofTypeName_join_of_apart within number word joined,
      Reader.ofTypeName_join_of_apart within' number' word' (mt touch.mpr joined)]

end Token.Matching

end EffectLang
