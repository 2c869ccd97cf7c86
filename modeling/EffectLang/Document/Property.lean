import EffectLang.Document.Block
import EffectLang.Error

/-!
Properties in a source: the word `properties` and a block of items `name("label", Type = default)`. A range
may have bounds in parentheses after its type. A default that the type does not take, or one that did not
fit the literal table, ends the reading of the whole source.
-/
namespace EffectLang.Document

/-- A type name. A number and the word after it make one name, as in `2D`, with all that stands between
them. -/
def typeName (reader : Reader) : Token × Reader :=
  let first := reader.next
  if first.1.kind = .number then
    let second := first.2.next
    if second.1.kind = .identifier then (second.2.join first.1 second.1, second.2)
    else (first.1, second.2.restore first.2.cursor)
  else first

def literal (reader : Reader) (token : Token) : Except Error Double :=
  match reader.lastLiteral? with
  | some value => .ok value
  | none => .error (.literalOverflow token.line)

/-- Requires a number; none when there is none, also after a complaint. -/
def number? (reader : Reader) : Except Error (Option Double) × Reader :=
  match reader.expect .number with
  | (.error _, reader) => (.ok none, reader)
  | (.ok token, reader) =>
    if reader.hasError then (.ok none, reader)
    else ((literal reader token).map some, reader)

def bounds? (reader : Reader) : Except Error (Option (Double × Double)) × Reader :=
  match number? reader with
  | (.error error, reader) => (.error error, reader)
  | (.ok none, reader) => (.ok none, reader)
  | (.ok (some low), reader) =>
    match reader.expect .comma with
    | (.error _, reader) => (.ok none, reader)
    | (.ok _, reader) =>
      match number? reader with
      | (.error error, reader) => (.error error, reader)
      | (.ok none, reader) => (.ok none, reader)
      | (.ok (some high), reader) =>
        match reader.expect .closeParen with
        | (.error _, reader) => (.ok none, reader)
        | (.ok _, reader) => (.ok (some (low, high)), reader)

/-- The value of a property before its default: empty, but for the bounds of a range. -/
def typedValue (kind : Property.Kind) (reader : Reader) : Except Error Property.Value × Reader :=
  if kind = .range then
    let opening := reader.nextIs .openParen
    if opening.1 then
      match bounds? opening.2 with
      | (.error error, later) => (.error error, later)
      | (.ok none, later) => (.ok (.empty kind), later)
      | (.ok (some (low, high)), later) => (.ok (.range low.toSingle high.toSingle .zero), later)
    else (.ok (.empty kind), opening.2.restore reader.cursor)
  else (.ok (.empty kind), reader)

/-- Passes over a group with `depth + 1` parentheses open, to its end or to the end of the source. -/
def skipGroup (depth : Nat) (reader : Reader) : Reader :=
  let token := reader.next.1
  if token.kind = .endOfStream then reader.next.2
  else if token.kind = .openParen then skipGroup (depth + 1) reader.next.2
  else if token.kind = .closeParen then
    match depth with
    | 0 => reader.next.2
    | depth + 1 => skipGroup depth reader.next.2
  else skipGroup depth reader.next.2
termination_by reader.remaining
decreasing_by all_goals exact reader.remaining_next_lt ‹_›

/-- The value of a property with its default, which begins with `token`. Defaults of colors and vectors are
passed over. -/
def defaultValue (name : String) (value : Property.Value) (token : Token) (reader : Reader) :
    Except Error Property.Value × Reader :=
  match value, token.kind with
  | .color, .openParen => (.ok .color, skipGroup 0 reader)
  | .color, _ => (.ok .color, reader)
  | .vector, .openParen => (.ok .vector, skipGroup 0 reader)
  | .vector, _ => (.ok .vector, reader)
  | .float _, .number => ((literal reader token).map fun value => .float value.toSingle, reader)
  | .int _, .number => ((literal reader token).map fun value => .int value.toInt32, reader)
  | .range low high _, .number =>
    ((literal reader token).map fun value => .range low high value.toSingle, reader)
  | value, .number => (.ok value, reader)
  | .texture shape _, .string => (.ok (.texture shape token.text), reader)
  | _, _ => (.error (.unsupportedDefault name token.text token.line), reader)

def propertyValue (name : String) (reader : Reader) : Except Error Property.Value × Reader :=
  let type := typeName reader
  match typedValue (.ofTypeName type.1.text) type.2 with
  | (.error error, reader) => (.error error, reader)
  | (.ok value, reader) =>
    let sign := reader.nextIs .equals
    if sign.1 then defaultValue name value sign.2.next.1 sign.2.next.2
    else (.ok value, sign.2.restore reader.cursor)

/-- A property, from the parenthesis after its name on; none when it lacks a label or a type. -/
def property? (name : Token) (reader : Reader) : Except Error (Option Property) × Reader :=
  match reader.expect .openParen with
  | (.error _, reader) => (.ok none, reader)
  | (.ok _, reader) =>
    match reader.expect .string with
    | (.error _, reader) => (.ok none, reader)
    | (.ok label, reader) =>
      match reader.expect .comma with
      | (.error _, reader) => (.ok none, reader)
      | (.ok _, reader) =>
        match propertyValue name.text reader with
        | (.error error, reader) => (.error error, reader)
        | (.ok value, reader) => (.ok (some ⟨name.text, label.text, value⟩), (reader.expect .closeParen).2)

theorem remaining_nextIs_le (reader : Reader) (kind : Token.Kind) :
    (reader.nextIs kind).2.remaining ≤ reader.remaining :=
  reader.remaining_next_le

theorem remaining_typeName_le (reader : Reader) : (typeName reader).2.remaining ≤ reader.remaining := by
  have first := reader.remaining_next_le
  have second := reader.next.2.remaining_next_le
  simp only [typeName]
  split
  · split
    · exact Nat.le_trans second first
    · exact first
  · exact first

theorem remaining_number?_le (reader : Reader) : (number? reader).2.remaining ≤ reader.remaining := by
  have first := reader.remaining_expect_le .number
  unfold number?
  split
  · rename_i token
    rwa [token] at first
  · rename_i token
    rw [token] at first
    split <;> exact first

theorem remaining_bounds?_le (reader : Reader) : (bounds? reader).2.remaining ≤ reader.remaining := by
  have first := remaining_number?_le reader
  unfold bounds?
  split
  · rename_i low
    rwa [low] at first
  · rename_i low
    rwa [low] at first
  · rename_i low afterLow lowRead
    rw [lowRead] at first
    have second := afterLow.remaining_expect_le .comma
    split
    · rename_i comma
      rw [comma] at second
      exact Nat.le_trans second first
    · rename_i afterComma comma
      rw [comma] at second
      have third := remaining_number?_le afterComma
      split
      · rename_i high
        rw [high] at third
        exact Nat.le_trans third (Nat.le_trans second first)
      · rename_i high
        rw [high] at third
        exact Nat.le_trans third (Nat.le_trans second first)
      · rename_i high afterHigh highRead
        rw [highRead] at third
        have fourth := afterHigh.remaining_expect_le .closeParen
        split <;> rename_i closing <;> rw [closing] at fourth <;>
          exact Nat.le_trans fourth (Nat.le_trans third (Nat.le_trans second first))

theorem remaining_typedValue_le (kind : Property.Kind) (reader : Reader) :
    (typedValue kind reader).2.remaining ≤ reader.remaining := by
  have first := remaining_nextIs_le reader .openParen
  have second := remaining_bounds?_le (reader.nextIs .openParen).2
  unfold typedValue
  split
  · dsimp only
    split
    · split <;> rename_i bounds <;> rw [bounds] at second <;> exact Nat.le_trans second first
    · exact Nat.le_refl _
  · exact Nat.le_refl _

theorem remaining_skipGroup_le (depth : Nat) (reader : Reader) :
    (skipGroup depth reader).remaining ≤ reader.remaining := by
  fun_induction skipGroup depth reader with
  | case1 => exact Reader.remaining_next_le _
  | case2 _ _ _ _ _ ih => exact Nat.le_trans ih (Reader.remaining_next_le _)
  | case3 => exact Reader.remaining_next_le _
  | case4 _ _ _ _ _ _ ih => exact Nat.le_trans ih (Reader.remaining_next_le _)
  | case5 _ _ _ _ _ _ ih => exact Nat.le_trans ih (Reader.remaining_next_le _)

theorem remaining_defaultValue_le (name : String) (value : Property.Value) (token : Token) (reader : Reader) :
    (defaultValue name value token reader).2.remaining ≤ reader.remaining := by
  unfold defaultValue
  split <;> first | exact remaining_skipGroup_le _ _ | exact Nat.le_refl _

theorem remaining_propertyValue_le (name : String) (reader : Reader) :
    (propertyValue name reader).2.remaining ≤ reader.remaining := by
  have first := remaining_typeName_le reader
  have second := remaining_typedValue_le (.ofTypeName (typeName reader).1.text) (typeName reader).2
  simp only [propertyValue]
  split
  · rename_i typed
    rw [typed] at second
    exact Nat.le_trans second first
  · rename_i value later typed
    rw [typed] at second
    have third := remaining_nextIs_le later .equals
    have fourth := (later.nextIs .equals).2.remaining_next_le
    split
    · exact Nat.le_trans (remaining_defaultValue_le _ _ _ _)
        (Nat.le_trans fourth (Nat.le_trans third (Nat.le_trans second first)))
    · exact Nat.le_trans second first

theorem remaining_property?_le (name : Token) (reader : Reader) :
    (property? name reader).2.remaining ≤ reader.remaining := by
  have first := reader.remaining_expect_le .openParen
  unfold property?
  split
  · rename_i opening
    rwa [opening] at first
  · rename_i afterParen opening
    rw [opening] at first
    have second := afterParen.remaining_expect_le .string
    split
    · rename_i label
      rw [label] at second
      exact Nat.le_trans second first
    · rename_i afterLabel label
      rw [label] at second
      have third := afterLabel.remaining_expect_le .comma
      split
      · rename_i comma
        rw [comma] at third
        exact Nat.le_trans third (Nat.le_trans second first)
      · rename_i afterComma comma
        rw [comma] at third
        have fourth := remaining_propertyValue_le name.text afterComma
        split
        · rename_i value
          rw [value] at fourth
          exact Nat.le_trans fourth (Nat.le_trans third (Nat.le_trans second first))
        · rename_i afterValue value
          rw [value] at fourth
          exact Nat.le_trans (afterValue.remaining_expect_le .closeParen)
            (Nat.le_trans fourth (Nat.le_trans third (Nat.le_trans second first)))

def propertiesBody (properties : List Property) (reader : Reader) : Except Error (List Property) × Reader :=
  match _ : nextWord? reader with
  | (none, reader) => (.ok properties, reader)
  | (some name, reader) =>
    let item := property? name reader
    match item.1 with
    | .error error => (.error error, item.2)
    | .ok property => propertiesBody (properties ++ property.toList) item.2
termination_by reader.remaining
decreasing_by
  rename_i start found
  have shorter := remaining_nextWord?_lt start (by simp [found])
  rw [found] at shorter
  exact Nat.lt_of_le_of_lt (remaining_property?_le _ _) shorter

theorem remaining_propertiesBody_le (properties : List Property) (reader : Reader) :
    (propertiesBody properties reader).2.remaining ≤ reader.remaining := by
  fun_induction propertiesBody properties reader with
  | case1 properties start reader found =>
    have := remaining_nextWord?_le start
    rwa [found] at this
  | case2 properties start name reader found item error failed =>
    have := remaining_nextWord?_le start
    rw [found] at this
    exact Nat.le_trans (remaining_property?_le _ _) this
  | case3 properties start name reader found item property read ih =>
    have := remaining_nextWord?_le start
    rw [found] at this
    exact Nat.le_trans ih (Nat.le_trans (remaining_property?_le _ _) this)

def properties (reader : Reader) : Except Error (List Property) × Reader :=
  match reader.expect .openBrace with
  | (.error _, reader) => (.ok [], reader)
  | (.ok _, reader) => propertiesBody [] reader

theorem remaining_properties_le (reader : Reader) : (properties reader).2.remaining ≤ reader.remaining := by
  have first := reader.remaining_expect_le .openBrace
  unfold properties
  split
  · rename_i brace
    rwa [brace] at first
  · rename_i brace
    rw [brace] at first
    exact Nat.le_trans (remaining_propertiesBody_le _ _) first

end EffectLang.Document
