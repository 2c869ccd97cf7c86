import EffectLang.Proofs.Reading.Aftermath
import EffectLang.Proofs.Reading.Literals

/-!
Where the numbers of properties come from. What is stored in a property is the value of the number that was just taken,
at its own place behind the sign or in the parentheses of a range. A value that only stands in the literal table, from
an earlier number or one that was looked at, never gets into a property.
-/
namespace EffectLang

namespace Token

/-- What is asked of a token: to have a kind, to be a number with a value, or to name a type. -/
inductive Shape where
  | is (kind : Token.Kind)
  | number (value : Double)
  | type (kind : Property.Kind)

def Shape.Fits : Shape → Token → Prop
  | .is kind, token => token.kind = kind
  | .number value, token => token.kind = .number ∧ token.value = value
  | .type kind, token => Property.Kind.ofTypeName token.text = kind

/-- The last of some tokens have given shapes. -/
def EndIn (tokens : List Token) (shapes : List Shape) : Prop :=
  ∃ front back, tokens = front ++ back ∧ List.Forall₂ Shape.Fits shapes back

theorem endIn_singleton {token : Token} {shape : Shape} (front : List Token) (fits : shape.Fits token) :
    EndIn (front ++ [token]) [shape] :=
  ⟨front, [token], rfl, .cons fits .nil⟩

theorem EndIn.snoc {tokens : List Token} {shapes : List Shape} (ends : EndIn tokens shapes) {token : Token}
    (shape : Shape) (fits : shape.Fits token) : EndIn (tokens ++ [token]) (shapes ++ [shape]) := by
  obtain ⟨front, back, rfl, shaped⟩ := ends
  exact ⟨front, back ++ [token], List.append_assoc _ _ _, List.rel_append shaped (.cons fits .nil)⟩

end Token

/-- The value with its default replaced by a number, if it takes one. -/
def Property.Value.withDefault : Property.Value → Double → Property.Value
  | .float _, number => .float number.toSingle
  | .int _, number => .int number.toInt32
  | .range low high _, number => .range low high number.toSingle
  | value, _ => value

namespace Reader

variable {reader : Reader}

/-- The token that reading takes from those ahead; none at the end of the source. -/
def taken (reader : Reader) : List Token :=
  if reader.next.1.kind = .endOfStream then [] else [reader.next.1]

theorem taken_append_ahead (reader : Reader) : reader.taken ++ reader.next.2.ahead = reader.ahead := by
  unfold taken
  split
  · rename_i ended
    rw [ahead_next_of_end ended, ahead_of_end ended]
    rfl
  · rename_i more
    rw [ahead_of_more more]
    rfl

theorem taken_of_kind {kind : Token.Kind} (found : reader.next.1.kind = kind) (more : kind ≠ .endOfStream) :
    reader.taken = [reader.next.1] :=
  if_neg (found ▸ more)

/-- Whatever a step does to a reader, the tokens that it takes go from those ahead to those that are past. -/
theorem Move.exists_past {later : Reader} (move : reader.Move later) (past : List Token) :
    ∃ taken, taken ++ later.ahead = past ++ reader.ahead := by
  have reads (same : later.cursor = reader.next.2.cursor) : ∃ taken, taken ++ later.ahead = past ++ reader.ahead := by
    refine ⟨past ++ reader.taken, ?_⟩
    rw [List.append_assoc, show later.ahead = reader.next.2.ahead from congrArg Cursor.tokens same,
      taken_append_ahead]
  cases move with
  | next => exact reads rfl
  | look => exact ⟨past, rfl⟩
  | complain ended => exact reads (cursor_report _ _ _)
  | expect kind =>
    obtain ⟨-, given⟩ | ⟨-, -, given⟩ | ⟨-, -, given⟩ := reader.expect_cases kind
    · exact ⟨past, by rw [given]⟩
    · exact reads (by rw [given])
    · exact reads (by rw [given, cursor_report])

theorem lastLiteral?_next_of_room (small : reader.literals.capacity.maxBytes ≤ 2 ^ 32)
    (number : reader.next.1.kind = .number) (room : reader.literals.size < reader.literals.capacity.room) :
    reader.next.2.lastLiteral? = some reader.next.1.value := by
  have fits := (LiteralTable.hasRoom_iff_lt _).mpr room
  rw [lastLiteral?_next_of_number number,
    LiteralTable.valueAt?_add_of_lt fits (LiteralTable.lt_offsetCount_of_room small fits)]

/-- The value at hand behind a number is that number's own. -/
theorem value_of_lastLiteral? (small : reader.literals.capacity.maxBytes ≤ 2 ^ 32) {value : Double}
    (number : reader.next.1.kind = .number) (last : reader.next.2.lastLiteral? = some value) :
    reader.next.1.value = value := by
  by_cases room : reader.literals.size < reader.literals.capacity.room
  · exact Option.some.inj ((lastLiteral?_next_of_room small number room).symm.trans last)
  · rw [(lastLiteral?_next_eq_none number).mpr (.inl (Nat.le_of_not_lt room))] at last
    cases last

end Reader

namespace Document

open StateTransition

/-- A name that begins as a number does is not one of a type whose default is a number. -/
theorem takesNumber_of_number {text : String} {c : Char} (head : text.toList.head? = some c)
    (digit : c.isDigit = true ∨ c = '-') : takesNumber (.empty (.ofTypeName text)) = false := by
  unfold Property.Kind.ofTypeName
  split
  case h_1 | h_2 | h_3 =>
    cases head
    exact absurd digit (by decide)
  all_goals rfl

theorem takesNumber_next {reader : Reader} (number : reader.next.1.kind = .number) :
    takesNumber (.empty (.ofTypeName reader.next.1.text)) = false := by
  obtain ⟨⟨c, head, digit⟩, -⟩ := Reader.isNumber_next number
  exact takesNumber_of_number head digit

theorem takesNumber_join {reader : Reader} {source : List Char} (within : reader.Within source)
    (number : reader.next.1.kind = .number) :
    takesNumber
      (.empty (.ofTypeName (reader.next.2.next.2.join reader.next.1 reader.next.2.next.1).text)) = false := by
  obtain ⟨between, joined, -⟩ := within.text_join
  obtain ⟨⟨c, head, digit⟩, -⟩ := Reader.isNumber_next number
  refine takesNumber_of_number ?_ digit
  rw [joined, List.head?_append, head]
  rfl

theorem ne_range_of_takesNumber {kind : Property.Kind} (other : takesNumber (.empty kind) = false) : kind ≠ .range := by
  rintro rfl
  cases other

theorem numberless_of_skipsDefault {value : Property.Value} (skips : Moment.skipsDefault value = true) :
    takesNumber value = false := by
  cases value with
  | color => rfl
  | vector => rfl
  | _ => cases skips

theorem exists_of_literal {reader : Reader} {token : Token} {wrap : Double → Property.Value} {result : Property.Value}
    (given : (literal reader token).map wrap = .ok result) :
    ∃ number, reader.lastLiteral? = some number ∧ result = wrap number := by
  unfold literal at given
  split at given
  · rename_i number last
    cases given
    exact ⟨number, last, rfl⟩
  · cases given

/-- A default that is stored as a number is the value at hand behind the number that was read for it. -/
theorem number_of_defaultValue {name : String} {value result : Property.Value} {token : Token} {reader : Reader}
    (given : (defaultValue name value token reader).1 = .ok result) (takes : takesNumber result = true) :
    token.kind = .number ∧ takesNumber value = true ∧
      ∃ number, reader.lastLiteral? = some number ∧ result = value.withDefault number := by
  unfold defaultValue at given
  split at given
  case h_5 found =>
    exact ⟨found, rfl, exists_of_literal given⟩
  case h_6 found =>
    exact ⟨found, rfl, exists_of_literal given⟩
  case h_7 found =>
    exact ⟨found, rfl, exists_of_literal given⟩
  case h_8 noColor noVector noFloat noInt noRange found =>
    cases given
    cases result with
    | float default => exact absurd rfl (noFloat default)
    | int default => exact absurd rfl (noInt default)
    | range low high default => exact absurd rfl (noRange low high default)
    | _ => cases takes
  all_goals
    cases given
    try cases takes

theorem literal_of_room {reader : Reader} (small : reader.literals.capacity.maxBytes ≤ 2 ^ 32)
    (number : reader.next.1.kind = .number) (room : reader.literals.size < reader.literals.capacity.room) :
    literal reader.next.2 reader.next.1 = .ok reader.next.1.value := by
  rw [literal, Reader.lastLiteral?_next_of_room small number room]

theorem literal_of_full {reader : Reader} (number : reader.next.1.kind = .number)
    (full : reader.literals.capacity.room ≤ reader.literals.size) :
    literal reader.next.2 reader.next.1 = .error (.literalOverflow reader.next.1.line) := by
  rw [literal, (Reader.lastLiteral?_next_eq_none number).mpr (.inl full)]

theorem defaultValue_of_number {name : String} {value : Property.Value} {token : Token} {reader : Reader}
    (takes : takesNumber value = true) (number : token.kind = .number) :
    (defaultValue name value token reader).1 = (literal reader token).map value.withDefault := by
  cases value with
  | float default => simp only [defaultValue, number]; rfl
  | int default => simp only [defaultValue, number]; rfl
  | range low high default => simp only [defaultValue, number]; rfl
  | _ => cases takes

theorem takesNumber_of_overflow {name : String} {value : Property.Value} {token : Token} {reader : Reader} {line : Nat}
    (given : (defaultValue name value token reader).1 = .error (.literalOverflow line)) : takesNumber value = true := by
  unfold defaultValue at given
  split at given
  case h_5 | h_6 | h_7 => rfl
  all_goals cases given

section Origins

variable (error : Option Unexpected)

/-- The value of a property before its default, by the tokens up to there and the one ahead. Both bounds of a range are
those that stand in its parentheses, or both are left alone. -/
inductive Typed : List Token → Token → Property.Value → Prop
  | numberless {past : List Token} {ahead : Token} {kind : Property.Kind}
      (other : takesNumber (.empty kind) = false) : Typed past ahead (.empty kind)
  | named {past : List Token} {ahead : Token} {kind : Property.Kind} (ends : Token.EndIn past [.type kind])
      (unbounded : kind = .range → ahead.kind ≠ .openParen) : Typed past ahead (.empty kind)
  | broken {past : List Token} {ahead : Token} (complaint : error.isSome) : Typed past ahead (.empty .range)
  | bounded {past : List Token} {ahead : Token} {low high : Double} (calm : error = none)
      (ends : Token.EndIn past
        [.type .range, .is .openParen, .number low, .is .comma, .number high, .is .closeParen]) :
      Typed past ahead (.range low.toSingle high.toSingle .zero)

/-- The value of a property, by the tokens up to where it is stored and the one ahead: without a sign there is no
default, and behind one a number gives the default. -/
inductive Valued : List Token → Token → Property.Value → Prop
  | numberless {past : List Token} {ahead : Token} {value : Property.Value} (other : takesNumber value = false) :
      Valued past ahead value
  | bare {past : List Token} {ahead : Token} {value : Property.Value} (typed : Typed error past ahead value)
      (unsigned : ahead.kind ≠ .equals) : Valued past ahead value
  | default {past : List Token} {ahead sign number : Token} {value : Property.Value}
      (typed : Typed error past sign value) (equals : sign.kind = .equals) (found : number.kind = .number) :
      Valued (past ++ [sign, number]) ahead (value.withDefault number.value)

end Origins

/-- How a part of a property follows upon the tokens that were taken before it. -/
def PropertyTask.BehindTokens (reader : Reader) (past : List Token) : PropertyTask → Prop
  | .typeSuffix _ number =>
    takesNumber (.empty (.ofTypeName number.text)) = false ∧
      takesNumber (.empty (.ofTypeName (reader.next.2.join number reader.next.1).text)) = false
  | .bounds _ => Token.EndIn past [.type .range]
  | .low _ => Token.EndIn past [.type .range, .is .openParen]
  | .boundsComma _ first => reader.error = none ∧ Token.EndIn past [.type .range, .is .openParen, .number first]
  | .high _ first =>
    reader.error = none ∧ Token.EndIn past [.type .range, .is .openParen, .number first, .is .comma]
  | .boundsEnd _ first second =>
    reader.error = none ∧
      Token.EndIn past [.type .range, .is .openParen, .number first, .is .comma, .number second]
  | .sign _ value => Typed reader.error past reader.next.1 value
  | .default _ value =>
    ∃ front sign, past = front ++ [sign] ∧ sign.kind = .equals ∧ Typed reader.error front sign value
  | .group _ value _ => takesNumber value = false
  | _ => True

def Task.BehindTokens (reader : Reader) (past : List Token) : Task → Prop
  | .property _ part => part.BehindTokens reader past
  | _ => True

/-- The places at which the value of a number goes into a property. -/
def Task.Stores (error : Option Unexpected) : Task → Prop
  | .property _ (.low _) => error = none
  | .property _ (.high _ _) => error = none
  | .property _ (.default _ value) => takesNumber value = true
  | _ => False

namespace Moment

/-- A moment that is come to behind `past`, with one more property at the most, which has its own numbers. -/
structure Continues (properties : List Property) (past : List Token) (moment : Moment) : Prop where
  behindTokens : moment.task.BehindTokens moment.reader past
  stored : moment.progress.effect.properties = properties ∨
    ∃ property, moment.progress.effect.properties = properties ++ [property] ∧
      Valued moment.reader.error past moment.reader.next.1 property.value

variable {past : List Token}

theorem continues_same (progress : Progress) {task : Task} (behindTokens : task.BehindTokens progress.reader past) :
    Continues progress.effect.properties past ⟨progress, task⟩ :=
  ⟨behindTokens, .inl rfl⟩

theorem continues_addProperty (progress : Progress) {value : Property.Value} (name label : String)
    (valued : Valued progress.reader.error past progress.reader.next.1 value) :
    Continues progress.effect.properties past (addProperty name label value progress) :=
  ⟨trivial, .inr ⟨⟨name, label, value⟩, rfl, valued⟩⟩

/-- Outside of properties nothing is stored in one. -/
structure Quiet (progress : Progress) (moment : Moment) : Prop where
  behindTokens : ∀ reader past, moment.task.BehindTokens reader past
  same : moment.progress.effect.properties = progress.effect.properties

theorem Quiet.continues {progress : Progress} {moment : Moment} (quiet : Quiet progress moment) (past : List Token) :
    Continues progress.effect.properties past moment :=
  ⟨quiet.behindTokens _ past, .inl quiet.same⟩

section Quiet

variable (progress : Progress)

theorem quiet_readDeclaration (token : Token) : Quiet progress (readDeclaration token progress) := by
  unfold readDeclaration
  split_ifs
  · exact ⟨fun _ _ => trivial, rfl⟩
  · exact ⟨fun _ _ => trivial, rfl⟩
  · exact ⟨fun _ _ => trivial, rfl⟩
  · refine ⟨fun _ _ => ?_, rfl⟩
    dsimp only [Task.ofWord]
    split <;> trivial
  · exact ⟨fun _ _ => trivial, rfl⟩

theorem quiet_readCode (brace : Token) (braces : Nat) (block : Block) (token : Token) :
    Quiet progress (readCode brace braces block token progress) := by
  unfold readCode
  split_ifs <;> exact ⟨fun _ _ => trivial, rfl⟩

theorem quiet_readPass (name : String) (shaders : List Shader) (token : Token) :
    Quiet progress (readPass name shaders token progress) := by
  unfold readPass
  split_ifs
  · exact ⟨fun _ _ => trivial, rfl⟩
  · exact ⟨fun _ _ => trivial, rfl⟩
  · split <;> exact ⟨fun _ _ => trivial, rfl⟩
  · exact ⟨fun _ _ => trivial, rfl⟩

theorem quiet_readPropertyName (token : Token) : Quiet progress (readPropertyName token progress) := by
  unfold readPropertyName
  split_ifs <;> exact ⟨fun _ _ => trivial, rfl⟩

end Quiet

section Reads

variable (progress : Progress)

theorem continues_typed {name label type : String} (bounds : Property.Kind.ofTypeName type = .range →
      Token.EndIn past [.type .range])
    (value : Property.Kind.ofTypeName type ≠ .range →
      Typed progress.reader.error past progress.reader.next.1 (.empty (.ofTypeName type))) :
    Continues progress.effect.properties past (typed name label type progress) := by
  unfold Moment.typed
  split
  · rename_i range
    exact continues_same progress (bounds range)
  · rename_i other
    exact continues_same progress (value other)

theorem continues_readDefault {name label : String} {value : Property.Value} {reader : Reader}
    (small : reader.literals.capacity.maxBytes ≤ 2 ^ 32)
    (behindTokens : PropertyTask.BehindTokens reader past (.default label value)) :
    Continues progress.effect.properties (past ++ reader.taken)
      (readDefault name label value reader.next.1 (progress.moveTo reader.next.2)) := by
  obtain ⟨front, sign, rfl, equals, typed⟩ := behindTokens
  unfold readDefault
  split
  · rename_i skips
    exact continues_same (progress.moveTo reader.next.2) (numberless_of_skipsDefault skips.1)
  · split
    · rename_i result given
      refine continues_addProperty (progress.moveTo reader.next.2) name label ?_
      cases takes : takesNumber result with
      | false => exact .numberless takes
      | true =>
        obtain ⟨number, -, own, last, rfl⟩ := number_of_defaultValue given takes
        rw [← Reader.value_of_lastLiteral? small number last, Reader.taken_of_kind number (by decide),
          List.append_assoc]
        rw [← Reader.error_next] at typed
        exact .default typed equals number
    · exact continues_same (progress.moveTo reader.next.2) trivial

theorem continues_readGroup {name label : String} {value : Property.Value} {depth : Nat} (token : Token)
    (behindTokens : takesNumber value = false) :
    Continues progress.effect.properties past (readGroup name label value depth token progress) := by
  unfold readGroup
  split_ifs
  · exact continues_addProperty progress name label (.numberless behindTokens)
  · exact continues_same progress behindTokens
  · exact continues_addProperty progress name label (.numberless behindTokens)
  · exact continues_same progress behindTokens
  · exact continues_same progress behindTokens

theorem continues_readType {source : List Char} {name label : String} {reader : Reader}
    (within : reader.Within source) :
    Continues progress.effect.properties (past ++ reader.taken)
      (readProperty reader.cursor name reader.next.1 (progress.moveTo reader.next.2) (.typeName label)) := by
  simp only [readProperty]
  split
  · rename_i number
    exact continues_same (progress.moveTo reader.next.2) ⟨takesNumber_next number, takesNumber_join within number⟩
  · by_cases ended : reader.next.1.kind = .endOfStream
    · -- The end of the source names no type.
      rw [Reader.text_of_end ended]
      exact continues_typed (progress.moveTo reader.next.2) (fun range => absurd range (by decide)) fun _ =>
        .numberless rfl
    · have named : Token.EndIn (past ++ reader.taken) [.type (.ofTypeName reader.next.1.text)] := by
        rw [Reader.taken, if_neg ended]
        exact Token.endIn_singleton past rfl
      refine continues_typed (progress.moveTo reader.next.2) ?_ ?_
      · intro range
        rwa [range] at named
      · intro other
        exact .named named fun range => absurd range other

/-- A part of a property that takes any token goes on behind it, or before it where it was only looked at. -/
theorem continues_readProperty {source : List Char} {name : String} {part : PropertyTask} {reader : Reader}
    (small : reader.literals.capacity.maxBytes ≤ 2 ^ 32) (free : part.required? = none)
    (within : reader.Within source) (behindTokens : part.BehindTokens reader past) :
    ∃ later,
      later ++ (readProperty reader.cursor name reader.next.1 (progress.moveTo reader.next.2) part).reader.ahead =
        past ++ reader.ahead ∧
      Continues progress.effect.properties later
        (readProperty reader.cursor name reader.next.1 (progress.moveTo reader.next.2) part) := by
  have taken : (past ++ reader.taken) ++ reader.next.2.ahead = past ++ reader.ahead := by
    rw [List.append_assoc, Reader.taken_append_ahead]
  let before := progress.moveTo (reader.next.2.restore reader.cursor)
  cases part with
  | typeName label =>
    refine ⟨past ++ reader.taken, ?_, continues_readType progress within⟩
    simp only [readProperty]
    split
    · exact taken
    · rw [reader_typed]
      exact taken
  | typeSuffix label number =>
    obtain ⟨alone, joined⟩ := behindTokens
    simp only [readProperty]
    split
    · refine ⟨past ++ reader.taken, ?_, continues_typed (progress.moveTo reader.next.2) ?_ fun _ => .numberless joined⟩
      · rw [reader_typed]
        exact taken
      · intro range
        exact absurd range (ne_range_of_takesNumber joined)
    · refine ⟨past, ?_, continues_typed before ?_ fun _ => .numberless alone⟩
      · rw [reader_typed]
        rfl
      · intro range
        exact absurd range (ne_range_of_takesNumber alone)
  | bounds label =>
    simp only [readProperty]
    split
    · rename_i opens
      refine ⟨past ++ reader.taken, taken, continues_same (progress.moveTo reader.next.2) ?_⟩
      rw [Reader.taken_of_kind opens (by decide)]
      exact behindTokens.snoc (.is .openParen) opens
    · rename_i other
      exact ⟨past, rfl, continues_same before (.named behindTokens fun _ => other)⟩
  | sign label value =>
    have typed : Typed reader.error past reader.next.1 value := behindTokens
    simp only [readProperty]
    split
    · rename_i equals
      refine ⟨past ++ reader.taken, taken, continues_same (progress.moveTo reader.next.2) ?_⟩
      rw [Reader.taken_of_kind equals (by decide)]
      rw [← Reader.error_next] at typed
      exact ⟨past, reader.next.1, rfl, equals, typed⟩
    · rename_i other
      rw [← Reader.error_next] at typed
      exact ⟨past, rfl, continues_addProperty before name label (.bare typed other)⟩
  | default label value =>
    refine ⟨past ++ reader.taken, ?_, continues_readDefault progress small behindTokens⟩
    simp only [readProperty, reader_readDefault]
    exact taken
  | group label value depth =>
    refine ⟨past ++ reader.taken, ?_, continues_readGroup (progress.moveTo reader.next.2) _ behindTokens⟩
    simp only [readProperty, reader_readGroup]
    exact taken
  | _ => cases free

/-- Goes on with a bound. Its value is the one of the number that was just taken. -/
theorem continues_number {name label : String} {next : Double → PropertyTask} {reader : Reader}
    (small : reader.literals.capacity.maxBytes ≤ 2 ^ 32) (found : reader.next.1.kind = .number)
    (behindTokens : reader.error = none → (next reader.next.1.value).BehindTokens reader.next.2 past) :
    Continues progress.effect.properties past
      (number name label reader.next.1 next (progress.moveTo reader.next.2)) := by
  unfold number
  split
  · rename_i complaint
    exact continues_same (progress.moveTo reader.next.2) (.broken complaint)
  · rename_i calm
    have quiet : reader.error = none := by
      rw [← Reader.error_next]
      simpa [Reader.hasError] using calm
    split
    · rename_i value given
      have own : reader.next.1.value = value := by
        unfold literal at given
        split at given
        · rename_i last
          cases given
          exact Reader.value_of_lastLiteral? small found last
        · cases given
      rw [own] at behindTokens
      exact continues_same (progress.moveTo reader.next.2) (behindTokens quiet)
    · exact continues_same (progress.moveTo reader.next.2) trivial

theorem continues_foundInProperty {name : String} {part : PropertyTask} {reader : Reader} {kind : Token.Kind}
    (small : reader.literals.capacity.maxBytes ≤ 2 ^ 32) (required : part.required? = some kind)
    (calm : reader.error = none) (met : reader.next.1.kind = kind) (behindTokens : part.BehindTokens reader past) :
    Continues progress.effect.properties (past ++ [reader.next.1])
      (foundInProperty name reader.next.1 (progress.moveTo reader.next.2) part) := by
  have still : reader.next.2.error = none := by rw [Reader.error_next, calm]
  cases part with
  | low label =>
    cases required
    exact continues_number progress small met fun _ => ⟨still, behindTokens.snoc (.number _) ⟨met, rfl⟩⟩
  | boundsComma label low =>
    cases required
    exact continues_same (progress.moveTo reader.next.2) ⟨still, behindTokens.2.snoc (.is .comma) met⟩
  | high label low =>
    cases required
    exact continues_number progress small met fun _ => ⟨still, behindTokens.2.snoc (.number _) ⟨met, rfl⟩⟩
  | boundsEnd label low high =>
    cases required
    exact continues_same (progress.moveTo reader.next.2) (.bounded still (behindTokens.2.snoc (.is .closeParen) met))
  | opening => exact continues_same (progress.moveTo reader.next.2) trivial
  | label => exact continues_same (progress.moveTo reader.next.2) trivial
  | comma label => exact continues_same (progress.moveTo reader.next.2) trivial
  | closing => exact continues_same (progress.moveTo reader.next.2) trivial
  | _ => cases required

/-- After a complaint nothing is taken, and the bounds of a range are left alone. -/
theorem continues_placeholder {name : String} {part : PropertyTask} {kind : Token.Kind} (token : Token)
    (required : part.required? = some kind) (complaint : progress.reader.error.isSome)
    (behindTokens : part.BehindTokens progress.reader past) :
    Continues progress.effect.properties past (foundInProperty name token progress part) := by
  have loud : progress.reader.error ≠ none := Option.isSome_iff_ne_none.mp complaint
  cases part with
  | low label =>
    simp only [foundInProperty, number, Reader.hasError, complaint, if_true]
    exact continues_same progress (.broken complaint)
  | boundsComma label low => exact absurd behindTokens.1 loud
  | high label low => exact absurd behindTokens.1 loud
  | boundsEnd label low high => exact absurd behindTokens.1 loud
  | opening => exact continues_same progress trivial
  | label => exact continues_same progress trivial
  | comma label => exact continues_same progress trivial
  | closing => exact continues_same progress trivial
  | _ => cases required

theorem behindTokens_missed {reader : Reader} (complaint : reader.error.isSome) (task : Task) :
    (missed task).BehindTokens reader past := by
  unfold missed
  split
  · trivial
  · trivial
  · exact .broken complaint
  · exact .broken complaint
  · exact .broken complaint
  · exact .broken complaint
  · trivial
  · trivial

end Reads

theorem behindTokens_missed_outside {reader : Reader} {task : Task}
    (outside : ∀ name part, task ≠ .property name part) : (missed task).BehindTokens reader past := by
  cases task with
  | property name part => exact absurd rfl (outside name part)
  | _ => trivial

theorem quiet_read {place : Cursor} {task : Task} (token : Token) (progress : Progress)
    (free : task.required? = none) (outside : ∀ name part, task ≠ .property name part) :
    Quiet progress (read place token progress task) := by
  cases task with
  | declaration => exact quiet_readDeclaration progress token
  | chunk brace braces block part =>
    cases part with
    | code => exact quiet_readCode progress brace braces block token
    | _ => exact ⟨fun _ _ => trivial, rfl⟩
  | passLine name shaders => exact quiet_readPass progress name shaders token
  | propertyName => exact quiet_readPropertyName progress token
  | property name part => exact absurd rfl (outside name part)
  | done error => exact ⟨fun _ _ => trivial, rfl⟩
  | _ => cases free

theorem quiet_found {task : Task} (token : Token) (progress : Progress)
    (outside : ∀ name part, task ≠ .property name part) : Quiet progress (found token progress task) := by
  cases task with
  | property name part => exact absurd rfl (outside name part)
  | _ => exact ⟨fun _ _ => trivial, rfl⟩

variable {moment next : Moment}

/-- A step goes on behind the tokens that it takes, and what it stores in a property are numbers among them. -/
theorem continues_step {source : List Char} (small : moment.reader.literals.capacity.maxBytes ≤ 2 ^ 32)
    (within : moment.reader.Within source) (behindTokens : moment.task.BehindTokens moment.reader past)
    (goes : step moment = some next) :
    ∃ later, later ++ next.reader.ahead = past ++ moment.reader.ahead ∧
      Continues moment.progress.effect.properties later next := by
  obtain ⟨later, ahead⟩ := (move_of_step goes).exists_past past
  obtain ⟨progress, task⟩ := moment
  by_cases inside : ∃ name part, task = .property name part
  · obtain ⟨name, part, rfl⟩ := inside
    obtain ⟨-, free, rfl⟩ | ⟨kind, required, -⟩ := step_cases goes
    · exact continues_readProperty progress small free within behindTokens
    · obtain ⟨complaint, given⟩ | ⟨calm, met, given⟩ | ⟨calm, unmet, given⟩ := progress.reader.expect_cases kind
      · cases (step_found progress required given).symm.trans goes
        refine ⟨past, ?_, continues_placeholder (progress.moveTo progress.reader) _ required complaint behindTokens⟩
        rw [reader_found]
        rfl
      · cases (step_found progress required given).symm.trans goes
        refine ⟨past ++ [progress.reader.next.1], ?_,
          continues_foundInProperty progress small required calm met behindTokens⟩
        have more : progress.reader.next.1.kind ≠ .endOfStream := by
          intro ended
          exact Task.required?_ne_endOfStream _ (required.trans (congrArg some (met.symm.trans ended)))
        rw [reader_found, List.append_assoc]
        exact congrArg (past ++ ·) (Reader.ahead_of_more more).symm
      · cases (step_missed progress required given).symm.trans goes
        exact ⟨later, ahead, continues_same (progress.moveTo _) (behindTokens_missed (Reader.error_report _ _ _) _)⟩
  · push Not at inside
    refine ⟨later, ahead, ?_⟩
    obtain ⟨-, free, rfl⟩ | ⟨kind, required, ⟨token, behind, met, rfl⟩ | ⟨error, behind, unmet, rfl⟩⟩ := step_cases goes
    · exact (quiet_read progress.reader.next.1 (progress.moveTo progress.reader.next.2) free inside).continues later
    · exact (quiet_found token (progress.moveTo behind) inside).continues later
    · exact continues_same (progress.moveTo behind) (behindTokens_missed_outside inside)

/-- A number stands ahead at a place where its value goes into a property. Bounds are left alone after a complaint. -/
structure Takes (moment : Moment) : Prop where
  number : moment.reader.next.1.kind = .number
  stores : moment.task.Stores moment.reader.error

/-- The step takes a value over: as a bound to go on with, or as the default of a property that is added. -/
def Keeps (moment : Moment) (value : Double) (next : Moment) : Prop :=
  match moment.task with
  | .property name (.low label) => next.task = .property name (.boundsComma label value)
  | .property name (.high label low) => next.task = .property name (.boundsEnd label low value)
  | .property name (.default label given) =>
    next.progress.effect.properties = moment.progress.effect.properties ++ [⟨name, label, given.withDefault value⟩]
  | _ => False

section Taking

variable {progress : Progress} {name label : String}

/-- What becomes of a required number: a bound to go on with, or the error that it brings. -/
theorem step_bound {part : PropertyTask} {follow : Double → PropertyTask}
    (required : part.required? = some .number) (calm : progress.reader.error = none)
    (isNumber : progress.reader.next.1.kind = .number)
    (goesOn : ∀ token progress, foundInProperty name token progress part = number name label token follow progress)
    (goes : step ⟨progress, .property name part⟩ = some next) :
    (∀ value, literal progress.reader.next.2 progress.reader.next.1 = .ok value →
        next.task = .property name (follow value)) ∧
      ∀ error, literal progress.reader.next.2 progress.reader.next.1 = .error error →
        next.task = .done (some error) := by
  have still : progress.reader.next.2.hasError = false := by
    rw [Reader.hasError, Reader.error_next, calm]
    rfl
  obtain ⟨complaint, -⟩ | ⟨-, -, given⟩ | ⟨-, unmet, -⟩ := progress.reader.expect_cases .number
  · rw [calm] at complaint
    cases complaint
  · cases (step_found progress (show Task.required? (.property name part) = _ from required) given).symm.trans goes
    simp only [found, goesOn, number, Progress.reader_moveTo, still, Bool.false_eq_true, if_false]
    constructor
    · intro value own
      rw [own]
    · intro error failed
      rw [failed]
  · exact absurd isNumber unmet

/-- What becomes of a number behind the sign: the default of a new property, or the error that it brings. -/
theorem step_default {value : Property.Value} (takes : takesNumber value = true)
    (isNumber : progress.reader.next.1.kind = .number)
    (goes : step ⟨progress, .property name (.default label value)⟩ = some next) :
    (∀ number, literal progress.reader.next.2 progress.reader.next.1 = .ok number →
        next.progress.effect.properties =
          progress.effect.properties ++ [⟨name, label, value.withDefault number⟩]) ∧
      ∀ error, literal progress.reader.next.2 progress.reader.next.1 = .error error →
        next.task = .done (some error) := by
  have keeps : skipsDefault value = false := by
    cases value <;> first | rfl | cases takes
  obtain ⟨-, -, rfl⟩ | ⟨kind, required, -⟩ := step_cases goes
  · simp only [read, readProperty, readDefault, keeps, Bool.false_eq_true, false_and, if_false, reader,
      Progress.reader_moveTo, defaultValue_of_number takes isNumber]
    constructor
    · intro number own
      rw [own]
      rfl
    · intro error failed
      rw [failed]
      rfl
  · cases required

end Taking

/-- A number at its place is taken over, or brings its error. -/
theorem step_of_takes (takes : moment.Takes) (goes : step moment = some next) :
    (∀ value, literal moment.reader.next.2 moment.reader.next.1 = .ok value → moment.Keeps value next) ∧
      ∀ error, literal moment.reader.next.2 moment.reader.next.1 = .error error → next.task = .done (some error) := by
  obtain ⟨isNumber, stores⟩ := takes
  obtain ⟨progress, task⟩ := moment
  cases task with
  | property name part =>
    cases part with
    | low label => exact step_bound rfl stores isNumber (fun _ _ => rfl) goes
    | high label low => exact step_bound rfl stores isNumber (fun _ _ => rfl) goes
    | default label value => exact step_default stores isNumber goes
    | _ => cases stores
  | _ => cases stores

theorem keeps_of_takes (small : moment.reader.literals.capacity.maxBytes ≤ 2 ^ 32) (takes : moment.Takes)
    (room : moment.reader.literals.size < moment.reader.literals.capacity.room) (goes : step moment = some next) :
    moment.Keeps moment.reader.next.1.value next :=
  (step_of_takes takes goes).1 _ (literal_of_room small takes.number room)

theorem overflow_of_takes (takes : moment.Takes)
    (full : moment.reader.literals.capacity.room ≤ moment.reader.literals.size) (goes : step moment = some next) :
    next.task = .done (some (.literalOverflow moment.reader.next.1.line)) :=
  (step_of_takes takes goes).2 _ (literal_of_full takes.number full)

/-- After a complaint the step that requires a number goes on without one, so it does not overflow. -/
theorem calm_of_overflow {progress : Progress} {name label : String} {part : PropertyTask}
    {follow : Double → PropertyTask} {line : Nat} (required : part.required? = some .number)
    (goesOn : ∀ token progress, foundInProperty name token progress part = number name label token follow progress)
    (goes : step ⟨progress, .property name part⟩ = some next)
    (ended : next.task = .done (some (.literalOverflow line))) : progress.reader.error = none := by
  by_contra complaint
  have has : progress.reader.hasError = true := Option.isSome_iff_ne_none.mpr complaint
  have given := Reader.expect_of_complaint (Option.isSome_iff_ne_none.mpr complaint) .number
  cases (step_found progress (show Task.required? (.property name part) = _ from required) given).symm.trans goes
  simp only [found, goesOn, number, Progress.reader_moveTo, has, if_true] at ended
  cases ended

theorem stores_of_overflow {line : Nat} (literal : moment.task.takesLiteral = true) (goes : step moment = some next)
    (ended : next.task = .done (some (.literalOverflow line))) : moment.task.Stores moment.reader.error := by
  obtain ⟨progress, task⟩ := moment
  cases task with
  | property name part =>
    cases part with
    | low label => exact calm_of_overflow rfl (fun _ _ => rfl) goes ended
    | high label low => exact calm_of_overflow rfl (fun _ _ => rfl) goes ended
    | default label value =>
      obtain ⟨-, -, rfl⟩ | ⟨kind, required, -⟩ := step_cases goes
      · simp only [read, readProperty, readDefault] at ended
        split at ended
        · cases ended
        · split at ended
          · cases ended
          · rename_i failed
            cases ended
            exact takesNumber_of_overflow failed
      · cases required
    | _ => cases literal
  | _ => cases literal

theorem takes_of_overflow {line : Nat} (small : moment.reader.literals.capacity.maxBytes ≤ 2 ^ 32)
    (plain : moment.task.Plain) (goes : step moment = some next)
    (ended : next.task = .done (some (.literalOverflow line))) :
    moment.Takes ∧ moment.reader.literals.capacity.room ≤ moment.reader.literals.size ∧
      line = moment.reader.next.1.line := by
  obtain still | ⟨lacks, -⟩ := plain_step plain goes
  · rw [ended] at still
    cases still
  · have full := Reader.sure_le_of_missing lacks.number lacks.missing
    rw [LiteralTable.Capacity.sure_eq_room small] at full
    have takes : moment.Takes := ⟨lacks.number, stores_of_overflow lacks.takes goes ended⟩
    cases (overflow_of_takes takes full goes).symm.trans ended
    exact ⟨takes, full, rfl⟩

theorem plain_of_behindTokens (behindTokens : moment.task.BehindTokens moment.reader past)
    (goes : step moment = some next) : moment.task.Plain := by
  obtain ⟨progress, task⟩ := moment
  cases task with
  | property name part =>
    cases part with
    | typeSuffix label number => exact ne_range_of_takesNumber behindTokens.1
    | _ => trivial
  | done error => cases goes
  | _ => trivial

/-- Somewhere among some tokens a property stands with its value. Without a complaint in the end there is none there. -/
def Stands (tokens : List Token) (complaint : Option Unexpected) (property : Property) : Prop :=
  ∃ past ahead later error, past ++ ahead :: later = tokens ∧ (complaint = none → error = none) ∧
    Valued error past ahead property.value

/-- How a reading stands to its source: the tokens are those that were taken and those ahead, and every property that is
there stands among those that were taken. -/
structure Traces (source : String) (moment : Moment) : Prop where
  small : moment.reader.literals.capacity.maxBytes ≤ 2 ^ 32
  within : moment.reader.Within source.toList
  behindTokens : ∃ past, past ++ moment.reader.ahead = (Cursor.start source.toList).tokens ∧
    moment.task.BehindTokens moment.reader past
  stands : ∀ property ∈ moment.progress.effect.properties,
    Stands (Cursor.start source.toList).tokens moment.reader.error property

namespace Traces

variable {source : String}

theorem start (source : String) {capacity : LiteralTable.Capacity} (small : capacity.maxBytes ≤ 2 ^ 32) :
    Traces source (start (.start source capacity)) where
  small := small
  within := ⟨[], source.toList, rfl, Reader.located_start source capacity⟩
  behindTokens := ⟨[], rfl, trivial⟩
  stands := fun _ member => absurd member List.not_mem_nil

theorem continues (traces : Traces source moment) (goes : Moment.step moment = some next) :
    ∃ past, past ++ next.reader.ahead = (Cursor.start source.toList).tokens ∧
      Continues moment.progress.effect.properties past next := by
  obtain ⟨past, whole, behindTokens⟩ := traces.behindTokens
  rw [← whole]
  exact continues_step traces.small traces.within behindTokens goes

theorem step (traces : Traces source moment) (goes : Moment.step moment = some next) :
    Traces source next := by
  obtain ⟨past, whole, continues⟩ := traces.continues goes
  have small : next.reader.literals.capacity.maxBytes ≤ 2 ^ 32 := by
    rw [(move_of_step goes).capacity]
    exact traces.small
  refine ⟨small, (move_of_step goes).within traces.within, ⟨past, whole, continues.behindTokens⟩, ?_⟩
  have before : ∀ property ∈ moment.progress.effect.properties,
      Stands (Cursor.start source.toList).tokens next.reader.error property := by
    intro property member
    obtain ⟨past, ahead, later, error, whole, calm, valued⟩ := traces.stands property member
    exact ⟨past, ahead, later, error, whole, fun quiet => calm (calm_of_step goes quiet), valued⟩
  obtain same | ⟨property, more, valued⟩ := continues.stored
  · rwa [same]
  · obtain ⟨later, ahead⟩ := next.reader.head_ahead
    have here : Stands (Cursor.start source.toList).tokens next.reader.error property :=
      ⟨past, next.reader.next.1, later, next.reader.error, ahead ▸ whole, id, valued⟩
    rw [more]
    intro other member
    obtain earlier | last := List.mem_append.mp member
    · exact before other earlier
    · rwa [List.mem_singleton.mp last]

theorem of_reaches {capacity : LiteralTable.Capacity} (small : capacity.maxBytes ≤ 2 ^ 32)
    (course : Reaches Moment.step (Moment.start (.start source capacity)) moment) :
    Traces source moment :=
  invariant_of_reaches (fun _ _ traces goes => traces.step goes) (.start source small) course

end Traces

end Moment

open Moment

/-- No stale literal reaches a property. Whenever a step stores a property, its value is the one that the tokens up to
there spell: the default is that of the number that was just taken behind the sign, and the bounds of a range are those
in its parentheses, or both left alone. A number at such a place is taken over if it fits the literal table, and
otherwise the reading fails with an overflow on the line of that number, and for no other reason. The bytes of the table
have to be within the reach of an offset. -/
theorem properties_take_own_numbers (source : String) (capacity : LiteralTable.Capacity)
    (small : capacity.maxBytes ≤ 2 ^ 32) :
    (∀ moment next, Reaches step (start (.start source capacity)) moment → step moment = some next →
      (∃ past, past ++ next.reader.ahead = (Cursor.start source.toList).tokens ∧
        (next.progress.effect.properties = moment.progress.effect.properties ∨
          ∃ property, next.progress.effect.properties = moment.progress.effect.properties ++ [property] ∧
            Valued next.reader.error past next.reader.next.1 property.value)) ∧
      (moment.Takes → moment.reader.literals.size < capacity.room → moment.Keeps moment.reader.next.1.value next) ∧
      (moment.Takes → capacity.room ≤ moment.reader.literals.size →
        parse source capacity = .error (.literalOverflow moment.reader.next.1.line)) ∧
      ∀ line, next.task = .done (some (.literalOverflow line)) →
        moment.Takes ∧ capacity.room ≤ moment.reader.literals.size ∧ line = moment.reader.next.1.line) ∧
    ∀ effect complaint, parse source capacity = .ok ⟨effect, complaint⟩ → ∀ property ∈ effect.properties,
      Stands (Cursor.start source.toList).tokens complaint property := by
  constructor
  · intro moment next course goes
    have traces := Traces.of_reaches small course
    obtain ⟨past, whole, continues⟩ := traces.continues goes
    have room : moment.reader.literals.capacity = capacity := capacity_of_reaches course
    refine ⟨⟨past, whole, continues.stored⟩, ?_, ?_, ?_⟩
    · intro takes fits
      exact keeps_of_takes traces.small takes (room ▸ fits) goes
    · intro takes full
      have ended := overflow_of_takes takes (room ▸ full) goes
      have last : Reaches step (start (.start source capacity)) next := course.tail goes
      obtain ⟨progress, task⟩ := next
      cases ended
      exact outcome_of_failed last
    · intro line ended
      obtain ⟨before, -, behindTokens⟩ := traces.behindTokens
      rw [← room]
      exact takes_of_overflow traces.small (plain_of_behindTokens behindTokens goes) goes ended
  · intro effect complaint given property member
    obtain ⟨progress, course, rfl, rfl⟩ := exists_settled given
    exact (Traces.of_reaches small course).stands property member

/-- Behind a complaint about a stray number, the bounds of a range are left alone and the default of the next property
is its own number. With room for two numbers only, the first default is an overflow on its line. -/
theorem properties_take_own_numbers_stray :
    let source := "properties \x7b a(\"A\", Range(3, 4) =\n5) b(\"B\", Float 7) c Range(8, 9) d Int = 6 \x7d"
    let small : LiteralTable.Capacity := ⟨2, 16⟩
    (∃ effect complaint, parse source {} = .ok ⟨effect, some complaint⟩ ∧
        effect.properties.map (·.value) =
          [.range ⟨0x40400000⟩ ⟨0x40800000⟩ ⟨0x40a00000⟩, .float .zero, .range .zero .one .zero, .int 6] ∧
        ∀ property ∈ effect.properties,
          Stands (Cursor.start source.toList).tokens (some complaint) property) ∧
      ∃ moment, Reaches step (start (.start source small)) moment ∧ moment.Takes ∧
        small.room ≤ moment.reader.literals.size ∧ moment.reader.next.1.line = 2 ∧
        parse source small = .error (.literalOverflow 2) := by
  intro source small
  constructor
  · have given : ((parse source {}).toOption.any fun outcome => outcome.error.isSome &&
        outcome.effect.properties.map (·.value) ==
          [.range ⟨0x40400000⟩ ⟨0x40800000⟩ ⟨0x40a00000⟩, .float .zero, .range .zero .one .zero, .int 6]) = true := by
      decide +kernel
    simp only [Option.any_eq_true, Bool.and_eq_true, beq_iff_eq, Option.isSome_iff_exists] at given
    obtain ⟨⟨effect, error⟩, given, ⟨complaint, rfl⟩, values⟩ := given
    have parsed : parse source {} = .ok ⟨effect, some complaint⟩ := by
      cases outcome : parse source {} with
      | error reason => rw [outcome] at given; cases given
      | ok result => rw [outcome] at given; cases given; rfl
    exact ⟨effect, complaint, parsed, values, (properties_take_own_numbers source {} (by decide)).2 effect _ parsed⟩
  · have reached : ((advance 13 (start (.start source small))).any fun moment =>
        moment.reader.next.1.kind == .number && moment.reader.next.1.line == 2 &&
          decide (small.room ≤ moment.reader.literals.size) && (step moment).isSome &&
          moment.task == .property "a" (.default "A" (.range ⟨0x40400000⟩ ⟨0x40800000⟩ .zero))) = true := by
      decide +kernel
    simp only [Option.any_eq_true, Bool.and_eq_true, beq_iff_eq, decide_eq_true_eq, Option.isSome_iff_exists] at reached
    obtain ⟨moment, course, ⟨⟨⟨number, line⟩, full⟩, next, goes⟩, task⟩ := reached
    have takes : moment.Takes := ⟨number, by rw [task]; rfl⟩
    have own := (properties_take_own_numbers source small (by decide)).1 moment next (reaches_of_advance course) goes
    have failed := own.2.2.1
    rw [line] at failed
    exact ⟨moment, reaches_of_advance course, takes, full, line, failed takes full⟩

end Document

end EffectLang
