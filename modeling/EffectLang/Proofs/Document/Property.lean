import EffectLang.Proofs.Document.Facing

/-!
Properties are read back with their bounds and defaults. The one thing that can stop the reading is a number
for which the literal table has no room, so every statement here has that way out beside it.
-/
namespace EffectLang.Document

open Source

/-- The reading gives the value and leaves the reader facing the atoms. Otherwise a literal did not fit, and
there was not enough room from the start. -/
def Recovers {α : Type} (enough : Prop) (result : Except Error α × Reader) (value : α) (atoms : List Atom) : Prop :=
  (∃ later, result = (.ok value, later) ∧ later.Facing enough atoms) ∨
    ∃ line later, result = (.error (.literalOverflow line), later) ∧ ¬enough

variable {enough : Prop} {atoms : List Atom}

section Types

variable {reader : Reader}

theorem typeName_of_word {word : Word} (facing : reader.Facing enough (.word word :: atoms)) :
    (typeName reader).1.text = word.text ∧ (typeName reader).2.Facing enough atoms := by
  obtain ⟨kind, text, later⟩ := facing.next_word
  simp only [typeName, kind, reduceCtorEq, if_false]
  exact ⟨text, later⟩

private def letterD : Word := .letter 'D' (by decide)

theorem typeName_of_sized {digit : Char} {isDigit : digit.isDigit = true}
    (facing : reader.Facing enough (.sized digit isDigit :: atoms)) :
    (typeName reader).1.text = String.ofList [digit, 'D'] ∧ (typeName reader).2.Facing enough atoms := by
  obtain ⟨before, _, placed, layout⟩ := facing.written
  cases layout with
  | @cons _ _ gap rest complete ends last =>
    have read := read?_sized rest isDigit
    have stuck := stuck_digit ('D' :: rest) isDigit
    have placedSize : reader.Placed before
        (gap ++ ((Lexeme.number ⟨false, [digit], none, none⟩).chars ++ 'D' :: rest)) := placed
    have scanned := Cursor.scan_of_read placedSize.place.rest (complete _) stuck read
    obtain ⟨step, afterSize⟩ := placedSize.next_read (complete _) stuck read
    have placedLetter : reader.next.2.Placed (before ++ (gap ++ [digit]))
        ([] ++ ((Atom.word letterD).chars ++ rest)) := afterSize
    obtain ⟨lexed, kind, text, offset, placedLater⟩ :=
      placedLetter.next_of_spells Trivia.gap_nil ends (Atom.spells_word letterD)
    have steady := (facing.steady.next (by rw [scanned])).next lexed
    have sizeKind : reader.next.1.kind = .number := by rw [step]; rfl
    have start : reader.next.1.offset = Utf8.byteLength (before ++ gap) := by rw [step]; rfl
    have stop : reader.next.2.next.1.stop = Utf8.byteLength (before ++ gap ++ [digit, 'D']) := by
      rw [Token.stop, text, offset, Utf8.utf8ByteSize_ofList]
      simp [Lexeme.margin, Lexeme.text, letterD, Word.letter, Word.chars, Nat.add_assoc]
    have between := Reader.textBetween_of_source (before ++ gap) [digit, 'D'] rest
      (by simpa [Atom.chars, letterD, Word.letter, Word.chars] using placedLater.source)
    rw [← start, ← stop] at between
    have glued : typeName reader =
        (reader.next.2.next.2.join reader.next.1 reader.next.2.next.1, reader.next.2.next.2) := by
      simp only [typeName, sizeKind, kind, Lexeme.kind, if_true]
    rw [glued]
    exact ⟨between, steady, _, _, placedLater, last⟩

theorem typeName_of_shape {shape : TextureShape} (facing : reader.Facing enough (Typing.shapeAtom shape :: atoms)) :
    Property.Kind.ofTypeName (typeName reader).1.text = shape.kind ∧
      (typeName reader).2.Facing enough atoms := by
  cases shape with
  | volume =>
    obtain ⟨text, later⟩ := typeName_of_word facing
    exact ⟨by rw [text]; rfl, later⟩
  | _ =>
    obtain ⟨text, later⟩ := typeName_of_sized facing
    exact ⟨by rw [text]; rfl, later⟩

end Types

section Numbers

variable {reader : Reader}

/-- Whatever is made of the literal that was just read. -/
theorem recovers_literal {α : Type} {number : Literal} (build : Double → α)
    (facing : reader.Facing enough (.literal number :: atoms)) :
    Recovers enough ((literal reader.next.2 reader.next.1).map build, reader.next.2) (build number.value) atoms := by
  obtain ⟨-, later, found | ⟨missing, scarce⟩⟩ := facing.next_literal
  · exact .inl ⟨_, by simp only [literal, found]; rfl, later⟩
  · exact .inr ⟨_, _, by simp only [literal, missing]; rfl, scarce⟩

theorem recovers_number? {number : Literal} (facing : reader.Facing enough (.literal number :: atoms)) :
    Recovers enough (number? reader) (some number.value) atoms := by
  obtain ⟨kind, later, -⟩ := facing.next_literal
  have calm := later.steady.calm
  have read : number? reader = ((literal reader.next.2 reader.next.1).map some, reader.next.2) := by
    simp [number?, facing.expect kind, Reader.hasError, calm]
  rw [read]
  exact recovers_literal some facing

theorem recovers_bounds? {low high : Literal}
    (facing : reader.Facing enough
      (.literal low :: .mark .comma :: .literal high :: .mark .closeParen :: atoms)) :
    Recovers enough (bounds? reader) (some (low.value, high.value)) atoms := by
  rcases recovers_number? facing with ⟨afterLow, lowRead, facingComma⟩ | ⟨line, later, lowRead, scarce⟩
  · obtain ⟨commaKind, -, facingHigh⟩ := facingComma.next_mark
    have comma : afterLow.expect .comma = _ := facingComma.expect commaKind
    rcases recovers_number? facingHigh with ⟨afterHigh, highRead, facingParen⟩ | ⟨line, later, highRead, scarce⟩
    · obtain ⟨parenKind, -, facingLater⟩ := facingParen.next_mark
      have paren : afterHigh.expect .closeParen = _ := facingParen.expect parenKind
      exact .inl ⟨_, by simp only [bounds?, lowRead, comma, highRead, paren], facingLater⟩
    · exact .inr ⟨line, later, by simp only [bounds?, lowRead, comma, highRead], scarce⟩
  · exact .inr ⟨line, later, by simp only [bounds?, lowRead], scarce⟩

/-- The bounds of a range, or none where the next mark opens no parenthesis. -/
theorem recovers_typedValue_range (bounds : Option (Literal × Literal)) {mark : Mark}
    (other : mark.kind ≠ .openParen)
    (facing : reader.Facing enough (Typing.boundsAtoms bounds ++ .mark mark :: atoms)) :
    Recovers enough (typedValue .range reader) (Typing.range bounds none).value (.mark mark :: atoms) := by
  cases bounds with
  | none =>
    obtain ⟨kind, back, -⟩ := Reader.Facing.next_mark facing
    have shut : reader.nextIs .openParen = (false, reader.next.2) := by simp [Reader.nextIs, kind, other]
    refine .inl ⟨reader, ?_, facing⟩
    simp only [typedValue, shut, if_true, Bool.false_eq_true, if_false, back]
    rfl
  | some pair =>
    obtain ⟨low, high⟩ := pair
    obtain ⟨kind, -, facingLow⟩ := Reader.Facing.next_mark facing
    have opened : reader.nextIs .openParen = (true, reader.next.2) := by simp [Reader.nextIs, kind, Mark.kind]
    rcases recovers_bounds? facingLow with ⟨later, read, facingLater⟩ | ⟨line, later, read, scarce⟩
    · refine .inl ⟨later, ?_, facingLater⟩
      simp only [typedValue, opened, if_true, read]
      rfl
    · exact .inr ⟨line, later, by simp only [typedValue, opened, if_true, read], scarce⟩

end Numbers

section Defaults

private theorem skipGroup_opening {depth : Nat} {reader : Reader} (opening : reader.next.1.kind = .openParen) :
    skipGroup depth reader = skipGroup (depth + 1) reader.next.2 := by
  rw [skipGroup.eq_def]
  simp [opening]

private theorem skipGroup_closing {depth : Nat} {reader : Reader} (closing : reader.next.1.kind = .closeParen)
    (inside : depth ≠ 0) : skipGroup depth reader = skipGroup (depth - 1) reader.next.2 := by
  obtain ⟨outer, rfl⟩ := Nat.exists_eq_succ_of_ne_zero inside
  rw [skipGroup.eq_def]
  simp [closing]

private theorem skipGroup_other {depth : Nat} {reader : Reader} (more : reader.next.1.kind ≠ .endOfStream)
    (noOpening : reader.next.1.kind ≠ .openParen) (noClosing : reader.next.1.kind ≠ .closeParen) :
    skipGroup depth reader = skipGroup depth reader.next.2 := by
  rw [skipGroup.eq_def]
  simp [more, noOpening, noClosing]

theorem facing_skipGroup (items : List GroupItem) {depth : Nat} {reader : Reader}
    (balanced : nesting .openParen .closeParen depth (items.map GroupItem.kind) = some 0)
    (facing : reader.Facing enough (items.map GroupItem.atom ++ .mark .closeParen :: atoms)) :
    (skipGroup depth reader).Facing enough atoms := by
  induction items generalizing depth reader with
  | nil =>
    cases balanced
    obtain ⟨kind, -, later⟩ := Reader.Facing.next_mark facing
    rw [skipGroup]
    simpa [kind, Mark.kind] using later
  | cons item items ih =>
    rw [List.map_cons, nesting] at balanced
    cases item with
    | opening =>
      obtain ⟨kind, -, later⟩ := Reader.Facing.next_mark facing
      rw [skipGroup_opening kind]
      exact ih balanced later
    | closing =>
      obtain ⟨kind, -, later⟩ := Reader.Facing.next_mark facing
      have inside : depth ≠ 0 := by
        rintro rfl
        cases balanced
      rw [skipGroup_closing kind inside]
      exact ih (by simpa [GroupItem.kind, inside] using balanced) later
    | comma =>
      obtain ⟨kind, -, later⟩ := Reader.Facing.next_mark facing
      rw [skipGroup_other (by simp [kind, Mark.kind]) (by simp [kind, Mark.kind]) (by simp [kind, Mark.kind])]
      exact ih balanced later
    | literal number =>
      obtain ⟨kind, later, -⟩ := Reader.Facing.next_literal facing
      rw [skipGroup_other (by simp [kind]) (by simp [kind]) (by simp [kind])]
      exact ih balanced later

-- The second half of a property's value: its default, if there is an equals sign.
private def withDefault (name : String) (value : Property.Value) (reader : Reader) :
    Except Error Property.Value × Reader :=
  let sign := reader.nextIs .equals
  if sign.1 then defaultValue name value sign.2.next.1 sign.2.next.2
  else (.ok value, sign.2.restore reader.cursor)

private theorem propertyValue_of_typed {name : String} {value : Property.Value} {reader later : Reader}
    (typed : typedValue (.ofTypeName (typeName reader).1.text) (typeName reader).2 = (.ok value, later)) :
    propertyValue name reader = withDefault name value later := by
  simp only [propertyValue, typed]
  rfl

private theorem propertyValue_plain (kind : Property.Kind) {name : String} {reader : Reader}
    (named : Property.Kind.ofTypeName (typeName reader).1.text = kind) (plain : kind ≠ .range) :
    propertyValue name reader = withDefault name (.empty kind) (typeName reader).2 := by
  apply propertyValue_of_typed
  simp only [named, typedValue, plain, if_false]

variable {name : String} {value : Property.Value} {reader : Reader}

private theorem recovers_withDefault_none (facing : reader.Facing enough (.mark .closeParen :: atoms)) :
    Recovers enough (withDefault name value reader) value (.mark .closeParen :: atoms) := by
  obtain ⟨kind, back, -⟩ := facing.next_mark
  have plain : reader.nextIs .equals = (false, reader.next.2) := by simp [Reader.nextIs, kind, Mark.kind]
  refine .inl ⟨reader, ?_, facing⟩
  simp only [withDefault, plain, Bool.false_eq_true, if_false, back]

private theorem withDefault_some (facing : reader.Facing enough (.mark .equals :: atoms)) :
    withDefault name value reader = defaultValue name value reader.next.2.next.1 reader.next.2.next.2 ∧
      reader.next.2.Facing enough atoms := by
  obtain ⟨kind, -, later⟩ := facing.next_mark
  have sign : reader.nextIs .equals = (true, reader.next.2) := by simp [Reader.nextIs, kind, Mark.kind]
  refine ⟨?_, later⟩
  simp only [withDefault, sign, if_true]

private theorem recovers_literalDefault (name : String) (result : Option Literal → Property.Value)
    (build : Double → Property.Value) (agrees : ∀ number, result (some number) = build number.value)
    (takes : ∀ token later, token.kind = .number →
      defaultValue name (result none) token later = ((literal later token).map build, later))
    (default : Option Literal)
    (facing : reader.Facing enough (Typing.literalAtoms default ++ .mark .closeParen :: atoms)) :
    Recovers enough (withDefault name (result none) reader) (result default) (.mark .closeParen :: atoms) := by
  cases default with
  | none => exact recovers_withDefault_none facing
  | some number =>
    obtain ⟨same, facingLiteral⟩ := withDefault_some facing
    rw [same, takes _ _ (Reader.Facing.next_literal facingLiteral).1, agrees]
    exact recovers_literal build facingLiteral

private theorem recovers_groupDefault (name : String) (value : Property.Value)
    (takes : ∀ token later, token.kind = .openParen →
      defaultValue name value token later = (.ok value, skipGroup 0 later))
    (default : Option Group)
    (facing : reader.Facing enough (Typing.groupAtoms default ++ .mark .closeParen :: atoms)) :
    Recovers enough (withDefault name value reader) value (.mark .closeParen :: atoms) := by
  cases default with
  | none => exact recovers_withDefault_none facing
  | some group =>
    obtain ⟨same, facingGroup⟩ := withDefault_some facing
    obtain ⟨kind, -, facingItems⟩ := Reader.Facing.next_mark facingGroup
    rw [same, takes _ _ kind]
    refine .inl ⟨_, rfl, facing_skipGroup group.items group.balanced ?_⟩
    simpa using facingItems

private theorem recovers_labelDefault (name : String) (shape : TextureShape) (default : Option Label)
    (facing : reader.Facing enough (Typing.labelAtoms default ++ .mark .closeParen :: atoms)) :
    Recovers enough (withDefault name (.texture shape "") reader) (Typing.texture shape default).value
      (.mark .closeParen :: atoms) := by
  cases default with
  | none => exact recovers_withDefault_none facing
  | some label =>
    obtain ⟨same, facingLabel⟩ := withDefault_some facing
    obtain ⟨kind, text, later⟩ := Reader.Facing.next_label facingLabel
    rw [same]
    refine .inl ⟨_, ?_, later⟩
    simp only [defaultValue, kind, text]
    rfl

private theorem recovers_range (bounds : Option (Literal × Literal)) (default : Option Literal)
    (named : Property.Kind.ofTypeName (typeName reader).1.text = .range)
    (facing : (typeName reader).2.Facing enough
      (Typing.boundsAtoms bounds ++ (Typing.literalAtoms default ++ .mark .closeParen :: atoms))) :
    Recovers enough (propertyValue name reader) (Typing.range bounds default).value
      (.mark .closeParen :: atoms) := by
  -- The mark behind the bounds is an equals sign or the closing parenthesis.
  have typed : Recovers enough (typedValue .range (typeName reader).2) (Typing.range bounds none).value
      (Typing.literalAtoms default ++ .mark .closeParen :: atoms) := by
    cases default with
    | none => exact recovers_typedValue_range bounds (by decide) facing
    | some number => exact recovers_typedValue_range bounds (by decide) facing
  rw [← named] at typed
  rcases typed with ⟨later, read, facingDefault⟩ | ⟨line, later, read, scarce⟩
  · rw [propertyValue_of_typed read]
    exact recovers_literalDefault name (fun default => (Typing.range bounds default).value)
      (fun value => .range (Typing.limits bounds).1 (Typing.limits bounds).2 value.toSingle) (fun _ => rfl)
      (fun token later kind => by simp only [Typing.value, defaultValue, kind]) default facingDefault
  · exact .inr ⟨line, later, by simp only [propertyValue, read], scarce⟩

theorem recovers_propertyValue (typing : Typing)
    (facing : reader.Facing enough (typing.atoms ++ .mark .closeParen :: atoms)) :
    Recovers enough (propertyValue name reader) typing.value (.mark .closeParen :: atoms) := by
  cases typing with
  | float default =>
    obtain ⟨text, facingDefault⟩ := typeName_of_word facing
    rw [propertyValue_plain .float (by rw [text]; rfl) (by decide)]
    exact recovers_literalDefault name (fun default => (Typing.float default).value)
      (fun value => .float value.toSingle) (fun _ => rfl)
      (fun token later kind => by simp only [Typing.value, defaultValue, kind]) default facingDefault
  | int default =>
    obtain ⟨text, facingDefault⟩ := typeName_of_word facing
    rw [propertyValue_plain .int (by rw [text]; rfl) (by decide)]
    exact recovers_literalDefault name (fun default => (Typing.int default).value)
      (fun value => .int value.toInt32) (fun _ => rfl)
      (fun token later kind => by simp only [Typing.value, defaultValue, kind]) default facingDefault
  | range bounds default =>
    obtain ⟨text, facingDefault⟩ := typeName_of_word facing
    exact recovers_range bounds default (by rw [text]; rfl) (by simpa using facingDefault)
  | color default =>
    obtain ⟨text, facingDefault⟩ := typeName_of_word facing
    rw [propertyValue_plain .color (by rw [text]; rfl) (by decide)]
    exact recovers_groupDefault name .color (fun token later kind => by simp only [defaultValue, kind]) default
      facingDefault
  | vector default =>
    obtain ⟨text, facingDefault⟩ := typeName_of_word facing
    rw [propertyValue_plain .vector (by rw [text]; rfl) (by decide)]
    exact recovers_groupDefault name .vector (fun token later kind => by simp only [defaultValue, kind]) default
      facingDefault
  | texture shape default =>
    obtain ⟨named, facingDefault⟩ := typeName_of_shape facing
    rw [propertyValue_plain shape.kind named (by cases shape <;> decide)]
    have recovered := recovers_labelDefault name shape default facingDefault
    cases shape <;> exact recovered

end Defaults

section Items

theorem recovers_property? (item : Item) {name : Token} {reader : Reader} (named : name.text = item.name.text)
    (facing : reader.Facing enough (.mark .openParen :: .label item.label :: .mark .comma ::
      (item.typing.atoms ++ .mark .closeParen :: atoms))) :
    Recovers enough (property? name reader) (some item.property) atoms := by
  obtain ⟨parenKind, -, facingLabel⟩ := facing.next_mark
  obtain ⟨labelKind, text, facingComma⟩ := facingLabel.next_label
  obtain ⟨commaKind, -, facingTyping⟩ := facingComma.next_mark
  have paren : reader.expect .openParen = _ := facing.expect parenKind
  have label := facingLabel.expect labelKind
  have comma : reader.next.2.next.2.expect .comma = _ := facingComma.expect commaKind
  rcases @recovers_propertyValue enough atoms name.text _ item.typing facingTyping with
    ⟨later, read, facingLater⟩ | ⟨line, later, read, scarce⟩
  · obtain ⟨closingKind, -, facingRest⟩ := facingLater.next_mark
    have closing : later.expect .closeParen = _ := facingLater.expect closingKind
    refine .inl ⟨later.next.2, ?_, facingRest⟩
    simp only [property?, paren, label, comma, read, closing]
    rw [named, text, Item.property]
  · exact .inr ⟨line, later, by simp only [property?, paren, label, comma, read], scarce⟩

private theorem propertiesBody_done {properties : List Property} {reader later : Reader}
    (found : nextWord? reader = (none, later)) :
    propertiesBody properties reader = (.ok properties, later) := by
  rw [propertiesBody]
  split <;> simp_all

private theorem propertiesBody_item {properties : List Property} {property : Property} {name : Token}
    {reader afterName later : Reader} (found : nextWord? reader = (some name, afterName))
    (read : property? name afterName = (.ok (some property), later)) :
    propertiesBody properties reader = propertiesBody (properties ++ [property]) later := by
  rw [propertiesBody]
  split <;> simp_all

private theorem propertiesBody_error {properties : List Property} {error : Error} {name : Token}
    {reader afterName later : Reader} (found : nextWord? reader = (some name, afterName))
    (read : property? name afterName = (.error error, later)) :
    propertiesBody properties reader = (.error error, later) := by
  rw [propertiesBody]
  split <;> simp_all

theorem recovers_propertiesBody (items : List Item) (properties : List Property) {reader : Reader}
    (facing : reader.Facing enough (items.flatMap Item.atoms ++ .mark .closeBrace :: atoms)) :
    Recovers enough (propertiesBody properties reader) (properties ++ items.map Item.property) atoms := by
  induction items generalizing properties reader with
  | nil =>
    obtain ⟨later, found, facingLater⟩ := nextWord?_of_closeBrace facing
    exact .inl ⟨later, by simp [propertiesBody_done found], facingLater⟩
  | cons item items ih =>
    simp only [List.flatMap_cons, Item.atoms, List.append_assoc, List.cons_append, List.nil_append] at facing
    obtain ⟨name, afterName, found, named, facingItem⟩ := nextWord?_of_word facing
    rcases recovers_property? item named facingItem with
      ⟨later, read, facingItems⟩ | ⟨line, later, read, scarce⟩
    · have recovered := ih (properties ++ [item.property]) facingItems
      rw [propertiesBody_item found read]
      simpa using recovered
    · exact .inr ⟨line, later, propertiesBody_error found read, scarce⟩

/-- A block of properties is read back in order. -/
theorem recovers_properties {items : List Item} {reader : Reader}
    (facing : reader.Facing enough
      (.mark .openBrace :: (items.flatMap Item.atoms ++ .mark .closeBrace :: atoms))) :
    Recovers enough (properties reader) (items.map Item.property) atoms := by
  obtain ⟨kind, -, facingItems⟩ := facing.next_mark
  have brace : reader.expect .openBrace = _ := facing.expect kind
  simp only [properties, brace]
  exact recovers_propertiesBody items [] facingItems

end Items

end EffectLang.Document
