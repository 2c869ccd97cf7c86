import EffectLang.Proofs.Reading.Literals
import EffectLang.Proofs.Reading.Strays

/-!
What numbers cost. A reading that has complained may look at a number twice before it takes it, and the value is kept
each time. Three places for a number is the most there can be, and there are sources in which every number but the last
one takes three.
-/
namespace EffectLang

namespace Source

/-- The atoms that make one lexeme. -/
def Atom.isSingle : Atom → Bool
  | .word _ => true
  | .literal _ => true
  | .label _ => true
  | .mark _ => true
  | _ => false

def Atom.isLiteral : Atom → Bool
  | .literal _ => true
  | _ => false

theorem Atom.exists_spells {atom : Atom} (single : atom.isSingle = true) :
    ∃ lexeme, atom.Spells lexeme ∧ (lexeme.kind = .number ↔ atom.isLiteral = true) := by
  cases atom with
  | word word => exact ⟨_, spells_word word, by simp [Lexeme.kind, isLiteral]⟩
  | literal literal => exact ⟨_, spells_literal literal, by simp [Lexeme.kind, isLiteral]⟩
  | label label => exact ⟨_, spells_label label, by simp [Lexeme.kind, isLiteral]⟩
  | mark mark => exact ⟨_, spells_mark mark, by cases mark <;> simp [Lexeme.kind, Mark.kind, isLiteral]⟩
  | _ => cases single

/-- A property without its parentheses: after a complaint the number is looked at twice before it is passed over. -/
def strayRange : List Atom :=
  [.word .p, .word .range, .literal .seven]

/-- A source that complains at once, then has a number of stray ranges and a default at the end. -/
def strays (count : Nat) : List Atom :=
  behindStray ((List.replicate count strayRange).flatten ++ strayFloat)

end Source

namespace Reader

open Source

variable {reader : Reader} {atoms : List Atom}

theorem length_numbersLeft {before rest : List Char} (placed : reader.Placed before rest) (layout : Layout atoms rest)
    (single : ∀ atom ∈ atoms, atom.isSingle = true) : reader.numbersLeft.length = atoms.countP Atom.isLiteral := by
  induction layout generalizing reader before with
  | nil run =>
    have ended : reader.next.1.kind = .endOfStream := by rw [(placed.next_end run).1]
    rw [numbersLeft_of_end ended]
    rfl
  | @cons atom atoms gap rest complete ends last ih =>
    rw [List.forall_mem_cons] at single
    obtain ⟨lexeme, spells, numeric⟩ := Atom.exists_spells single.1
    obtain ⟨-, kind, -, -, later⟩ := placed.next_of_spells complete ends spells
    have same : reader.next.1.isNumber = atom.isLiteral := by
      rw [Bool.eq_iff_iff, Token.isNumber_iff, kind, numeric]
    rw [numbersLeft_eq, List.length_append, ih later single.2, List.filter_singleton, same, List.countP_cons]
    cases atom.isLiteral with
    | true => exact Nat.add_comm _ _
    | false => exact Nat.zero_add _

end Reader

namespace Document

open Source StateTransition

namespace Moment

variable (progress : Progress) {room : Nat} {values : List Double} {atoms : List Atom}

/-- A stray range takes three places: when bounds are looked for, when a default is, and when it is passed over. -/
theorem reaches_strayRange (stocked : progress.reader.Stocked true room values (strayRange ++ atoms)) :
    ∃ later taken, Reaches step ⟨progress, .propertyName⟩ ⟨later, .propertyName⟩ ∧
      later.reader.Stocked true room taken atoms ∧ taken.length = values.length + 3 := by
  obtain ⟨before, front, stocked⟩ := reaches_typed progress stocked
  let first := progress.moveTo before
  have stocked : first.reader.Stocked true room values (.literal .seven :: atoms) := stocked
  obtain ⟨firstKind, -, again⟩ := stocked.next_literal
  let second := first.moveTo (first.reader.next.2.restore first.reader.cursor)
  have again : second.reader.Stocked true room _ (.literal .seven :: atoms) := again
  obtain ⟨secondKind, -, twice⟩ := again.next_literal
  let third := (second.moveTo (second.reader.next.2.restore second.reader.cursor)).addProperties
    [⟨Word.p.text, "", .empty .range⟩]
  have twice : third.reader.Stocked true room _ (.literal .seven :: atoms) := twice
  obtain ⟨thirdKind, behind, -⟩ := twice.next_literal
  refine ⟨third.moveTo third.reader.next.2, _, front.trans ?_, behind, by simp⟩
  have bounds : step ⟨first, .property Word.p.text (.bounds "")⟩ =
      some ⟨second, .property Word.p.text (.sign "" (.empty .range))⟩ := by
    rw [step_read first rfl rfl, read, readProperty, firstKind]
    rfl
  have sign : step ⟨second, .property Word.p.text (.sign "" (.empty .range))⟩ =
      some ⟨third, .property Word.p.text .closing⟩ := by
    rw [step_read second rfl rfl, read, readProperty, secondKind]
    rfl
  have passed : step ⟨third, .propertyName⟩ = some ⟨third.moveTo third.reader.next.2, .propertyName⟩ := by
    rw [step_read third rfl rfl, read, readPropertyName, thirdKind]
    rfl
  exact .head bounds (.head sign (.head (step_of_complaint twice.error_eq rfl) (.single passed)))

theorem reaches_strayRanges (count : Nat)
    (stocked : progress.reader.Stocked true room values ((List.replicate count strayRange).flatten ++ atoms)) :
    ∃ later taken, Reaches step ⟨progress, .propertyName⟩ ⟨later, .propertyName⟩ ∧
      later.reader.Stocked true room taken atoms ∧ taken.length = values.length + 3 * count := by
  induction count generalizing progress values with
  | zero => exact ⟨progress, values, .refl, stocked, rfl⟩
  | succ count ih =>
    rw [List.replicate_succ, List.flatten_cons, List.append_assoc] at stocked
    obtain ⟨first, some, front, behind, three⟩ := reaches_strayRange progress stocked
    obtain ⟨last, all, back, stocked, more⟩ := ih first behind
    exact ⟨last, all, front.trans back, stocked, by omega⟩

/-- A default needs its value also after a complaint. -/
theorem overflows_strayFloat (stocked : progress.reader.Stocked true room values strayFloat)
    (full : room ≤ values.length ∨ values.length = noIndex.toNat) :
    ∃ last, Reaches step ⟨progress, .propertyName⟩ last ∧ last.Overflows := by
  obtain ⟨before, front, stocked⟩ := reaches_strayFloat progress stocked
  let signed := progress.moveTo before
  have stocked : signed.reader.Stocked true room values [.literal .seven] := stocked
  obtain ⟨kind, -, -⟩ := stocked.next_literal
  have missing : signed.reader.next.2.lastLiteral? = none := by
    rw [Reader.lastLiteral?_next_eq_none kind, stocked.room_eq, stocked.size_eq]
    by_cases reached : room ≤ values.length
    · exact .inl (Nat.min_eq_left reached).ge
    · rw [Nat.min_eq_right (Nat.le_of_not_le reached), full.resolve_left reached, UInt32.ofNat_toNat]
      exact .inr rfl
  let last : Moment := ⟨signed.moveTo signed.reader.next.2, .done (some (.literalOverflow signed.reader.next.1.line))⟩
  have default : step ⟨signed, .property Word.p.text (.default "" (.empty .float))⟩ = some last := by
    rw [step_read signed rfl rfl, read, readProperty, readDefault]
    simp only [Property.Value.empty, skipsDefault, defaultValue, kind, literal, missing, Progress.reader_moveTo]
    rfl
  exact ⟨last, front.tail default, signed.reader.next.1.line, rfl⟩

end Moment

theorem layout_strays (count : Nat) : Layout (strays count) (String.ofList (spaced (strays count))).toList := by
  rw [String.toList_ofList]
  exact layout_spaced _

theorem length_numbersIn_strays (count : Nat) :
    (Token.numbersIn (String.ofList (spaced (strays count)))).length = count + 1 := by
  have single : ∀ atom ∈ strays count, atom.isSingle = true := by
    rw [← List.all_eq_true]
    simp [strays, behindStray, strayRange, strayFloat, Atom.isSingle, List.all_flatten]
  have placed := Reader.placed_start (String.ofList (spaced (strays count))) {}
  calc (Token.numbersIn (String.ofList (spaced (strays count)))).length
    _ = (strays count).countP Atom.isLiteral := Reader.length_numbersLeft placed (layout_strays count) single
    _ = count + 1 := by simp [strays, behindStray, strayRange, strayFloat, Atom.isLiteral, List.countP_flatten]

/-- When each number but the last has taken three places, there is none for the last, or its index is the one that
refers to nothing. -/
theorem overflows_strays {count : Nat} {capacity : LiteralTable.Capacity}
    (full : capacity.room ≤ 3 * count ∨ 3 * count = noIndex.toNat) :
    ∃ line, parse (String.ofList (spaced (strays count))) capacity = .error (.literalOverflow line) := by
  let first : Progress := ⟨{}, 0, .start (String.ofList (spaced (strays count))) capacity⟩
  have stocked : first.reader.Stocked false capacity.room [] (strays count) :=
    Reader.stocked_start capacity (layout_strays count)
  obtain ⟨reader, front, stocked⟩ := Moment.reaches_behindStray first stocked
  obtain ⟨filled, taken, middle, stocked, length⟩ := Moment.reaches_strayRanges (first.moveTo reader) count stocked
  rw [List.length_nil, Nat.zero_add] at length
  rw [← length] at full
  obtain ⟨⟨progress, task⟩, back, line, ended⟩ := Moment.overflows_strayFloat filled stocked full
  subst ended
  exact ⟨line, Moment.outcome_of_failed ((front.trans middle).trans back)⟩

/-- An overflow says that the numbers would not fit if each took three places but the last. Without a complaint they do
not fit with one place each. -/
theorem sure_lt_of_overflow {source : String} {capacity : LiteralTable.Capacity} {line : Nat}
    (given : parse source capacity = .error (.literalOverflow line)) :
    capacity.sure + 3 ≤ 3 * (Token.numbersIn source).length ∧
      ((read (.start source capacity)).2.error = none → capacity.sure < (Token.numbersIn source).length) := by
  obtain ⟨progress, course, reader⟩ := Moment.exists_failed given
  obtain ⟨past, -, accounts⟩ | ⟨-, much, calm⟩ := Moment.tallies_of_reaches course
  · exact accounts.plain.elim
  · exact ⟨much, reader ▸ calm⟩

/-- When numbers that would fit still overflow. Without a complaint they never do, but after one a number may take three
places. So a count of numbers is safe in every source just when the last one is sure of a place behind three for each
other, and no capacity for two or more numbers is safe for as many as it holds. -/
theorem overflow_of_fitting_numbers (capacity : LiteralTable.Capacity) :
    (∀ source line, parse source capacity = .error (.literalOverflow line) →
        (Token.numbersIn source).length ≤ capacity.sure → (read (.start source capacity)).2.hasError = true) ∧
      (∀ count,
        (∀ source line, (Token.numbersIn source).length ≤ count →
            parse source capacity ≠ .error (.literalOverflow line)) ↔
          3 * count < capacity.sure + 3) ∧
      ((∀ source line, (Token.numbersIn source).length ≤ capacity.room →
            parse source capacity ≠ .error (.literalOverflow line)) ↔
          capacity.room ≤ 1) := by
  have indices : noIndex.toNat = 3 * 1431655765 := rfl
  have sure : capacity.sure = min capacity.room noIndex.toNat := rfl
  have safe (count : Nat) :
      (∀ source line, (Token.numbersIn source).length ≤ count →
          parse source capacity ≠ .error (.literalOverflow line)) ↔
        3 * count < capacity.sure + 3 := by
    constructor
    · intro never
      by_contra much
      -- Three places for each number come to just the index that refers to nothing.
      obtain ⟨fewer, few, full⟩ : ∃ fewer, fewer + 1 ≤ count ∧
          (capacity.room ≤ 3 * fewer ∨ 3 * fewer = noIndex.toNat) := by
        by_cases scarce : capacity.room ≤ noIndex.toNat
        · exact ⟨count - 1, by omega, .inl (by omega)⟩
        · exact ⟨1431655765, by omega, .inr indices.symm⟩
      obtain ⟨line, overflows⟩ := overflows_strays full
      exact never _ line ((length_numbersIn_strays fewer).trans_le few) overflows
    · intro little source line few overflows
      have much := (sure_lt_of_overflow overflows).1
      omega
  refine ⟨?_, safe, ?_⟩
  · intro source line overflows fits
    rw [Reader.hasError, Option.isSome_iff_ne_none]
    intro calm
    exact absurd ((sure_lt_of_overflow overflows).2 calm) (Nat.not_lt.mpr fits)
  · rw [safe]
    omega

/-- Two numbers for a table with room for three. The first stands where a parenthesis is required and takes all of it;
one number alone never overflows there. -/
theorem overflow_of_fitting_numbers_two :
    let source := "properties \x7b p(\"P\", Range 1) p Float = 1 \x7d"
    let capacity : LiteralTable.Capacity := ⟨3, 31⟩
    parse source capacity = .error (.literalOverflow 1) ∧ (Token.numbersIn source).length = 2 ∧
      (read (.start source capacity)).2.hasError = true ∧
      ∀ other line, (Token.numbersIn other).length ≤ 1 → parse other capacity ≠ .error (.literalOverflow line) := by
  intro source capacity
  have overflows : parse source capacity = .error (.literalOverflow 1) := by decide +kernel
  have two : (Token.numbersIn source).length = 2 := by decide +kernel
  have three : capacity.sure = 3 := by decide
  obtain ⟨complains, safe, -⟩ := overflow_of_fitting_numbers capacity
  refine ⟨overflows, two, complains source 1 overflows ?_, (safe 1).mpr ?_⟩
  · rw [two, three]
    decide
  · rw [three]
    decide

/-- A table with room for all numbers of a source can overflow. -/
theorem parse_overflows_with_room :
    let source := "properties \x7b a(\"A\", Range 2) b Float = 1 \x7d"
    let capacity : LiteralTable.Capacity := ⟨3, 24⟩
    (Token.numbersIn source).length ≤ capacity.room ∧ parse source capacity = .error (.literalOverflow 1) := by
  decide +kernel

end Document

end EffectLang
