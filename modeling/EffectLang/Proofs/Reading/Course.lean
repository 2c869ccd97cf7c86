import EffectLang.Proofs.Reading.Moment

/-!
The course of a reading. The steps lead through every declaration to what the reading of the whole source gives,
so what holds at every moment holds of the reading.
-/
namespace EffectLang.Document.Moment

open StateTransition

section Steps

variable (progress : Progress) {task : Task} {kind : Token.Kind}

theorem step_found {token : Token} {later : Reader} (required : task.required? = some kind)
    (met : progress.reader.expect kind = (.ok token, later)) :
    step ⟨progress, task⟩ = some (found token (progress.moveTo later) task) := by
  have running : ∀ error, task ≠ .done error := by
    rintro error rfl
    cases required
  simp only [step, reader, required, met]

theorem step_missed {error : Unexpected} {later : Reader} (required : task.required? = some kind)
    (unmet : progress.reader.expect kind = (.error error, later)) :
    step ⟨progress, task⟩ = some ⟨progress.moveTo later, missed task⟩ := by
  have running : ∀ error, task ≠ .done error := by
    rintro error rfl
    cases required
  simp only [step, reader, required, unmet]

theorem step_read (running : task.isDone = false) (free : task.required? = none) :
    step ⟨progress, task⟩ =
      some (read progress.reader.cursor progress.reader.next.1 (progress.moveTo progress.reader.next.2) task) := by
  have running : ∀ error, task ≠ .done error := by
    rintro error rfl
    cases running
  simp only [step, reader, free]

theorem reaches_found {token : Token} {later : Reader} {last : Moment} (required : task.required? = some kind)
    (met : progress.reader.expect kind = (.ok token, later))
    (rest : Reaches step (found token (progress.moveTo later) task) last) : Reaches step ⟨progress, task⟩ last :=
  .head (step_found progress required met) rest

theorem reaches_missed {error : Unexpected} {later : Reader} (required : task.required? = some kind)
    (unmet : progress.reader.expect kind = (.error error, later)) :
    Reaches step ⟨progress, task⟩ ⟨progress.moveTo later, missed task⟩ :=
  .single (step_missed progress required unmet)

theorem reaches_read {last : Moment} (running : task.isDone = false) (free : task.required? = none)
    (rest : Reaches step
      (read progress.reader.cursor progress.reader.next.1 (progress.moveTo progress.reader.next.2) task) last) :
    Reaches step ⟨progress, task⟩ last :=
  .head (step_read progress running free) rest

end Steps

theorem reaches_heading (progress : Progress) :
    Reaches step ⟨progress, .effectName⟩ ⟨heading progress, .declaration⟩ := by
  unfold heading
  split
  · rename_i named
    exact reaches_missed _ rfl named
  · rename_i name later named
    refine reaches_found _ rfl named ?_
    dsimp only
    split
    · rename_i braced
      exact reaches_missed _ rfl braced
    · rename_i braced
      exact reaches_found _ rfl braced .refl

section Chunks

variable (progress : Progress) (brace : Token) (braces : Nat) (block : Block)

private def atCode (item : Block × Reader) : Moment :=
  ⟨progress.moveTo item.2, .chunk brace braces item.1 .code⟩

theorem reaches_insideParen :
    Reaches step ⟨progress, .chunk brace braces block .condition⟩
      ⟨progress.moveTo (insideParen progress.reader).2, .chunk brace braces
        { block with conditionals := block.conditionals.enter (insideParen progress.reader).1.text } .code⟩ := by
  refine reaches_read _ rfl rfl ?_
  unfold insideParen
  split
  · rename_i paren
    simp only [read, readItem, if_pos paren]
    exact reaches_read _ rfl rfl .refl
  · rename_i bare
    simp only [read, readItem, if_neg bare]
    exact .refl

theorem reaches_conditional :
    Reaches step ⟨progress, .chunk brace braces block .defined⟩
      (atCode progress brace braces (conditional block progress.reader)) := by
  refine reaches_read _ rfl rfl ?_
  unfold conditional
  split
  · rename_i keyword
    simp only [read, readItem, if_pos keyword]
    exact reaches_insideParen (progress.moveTo progress.reader.next.2) brace braces block
  · rename_i other
    simp only [read, readItem, if_neg other]
    exact .refl

theorem reaches_pragma :
    Reaches step ⟨progress, .chunk brace braces block .pragma⟩
      (atCode progress brace braces (pragma block progress.reader)) := by
  refine reaches_read _ rfl rfl ?_
  unfold pragma
  split
  · rename_i other
    simp only [read, readItem, other]
    exact .refl
  · rename_i flag word
    simp only [read, readItem, word]
    exact reaches_read _ rfl rfl .refl

theorem reaches_directive :
    Reaches step ⟨progress, .chunk brace braces block .directive⟩
      (atCode progress brace braces (directive progress.reader.next.1 block progress.reader.next.2)) := by
  refine reaches_read _ rfl rfl ?_
  unfold directive
  split
  · rename_i word
    simp only [read, readItem, word]
    exact reaches_conditional (progress.moveTo progress.reader.next.2) brace braces block
  · rename_i word
    simp only [read, readItem, word]
    exact reaches_pragma (progress.moveTo progress.reader.next.2) brace braces block
  · rename_i word
    simp only [read, readItem, word]
    exact .refl
  · rename_i noIf noPragma noEnd
    simp only [read, readItem]
    exact .refl

theorem reaches_uniform :
    Reaches step ⟨progress, .chunk brace braces block .uniformType⟩
      (atCode progress brace braces (uniform progress.reader.next.1 block progress.reader.next.2)) := by
  refine reaches_read _ rfl rfl ?_
  unfold uniform
  split
  · rename_i other
    simp only [read, readItem, other]
    exact .refl
  · rename_i kind type
    simp only [read, readItem, type]
    exact reaches_read _ rfl rfl .refl

theorem reaches_blockItem (more : progress.reader.next.1.kind ≠ .endOfStream)
    (noOpening : progress.reader.next.1.kind ≠ .openBrace) (noClosing : progress.reader.next.1.kind ≠ .closeBrace) :
    Reaches step ⟨progress, .chunk brace braces block .code⟩
      (atCode progress brace braces (blockItem progress.reader.next.1 block progress.reader.next.2)) := by
  refine reaches_read _ rfl rfl ?_
  simp only [read, readCode, if_neg more, if_neg noOpening, if_neg noClosing]
  unfold blockItem
  split
  · exact reaches_directive (progress.moveTo progress.reader.next.2) brace braces block
  · split
    · exact reaches_uniform (progress.moveTo progress.reader.next.2) brace braces block
    · exact .refl

private def withChunk (result : Option Chunk × Reader) : Progress :=
  match result with
  | (none, later) => progress.moveTo later
  | (some chunk, later) => (progress.moveTo later).addChunk chunk

private def closeBlock (result : Option (Chunk × Token) × Reader) : Option Chunk × Reader :=
  match result with
  | (none, later) => (none, later)
  | (some (chunk, closing), later) =>
    (some { chunk with code := later.textBetween (min brace.stop closing.offset) closing.offset }, later)

theorem reaches_blockBody (reader : Reader) :
    Reaches step ⟨progress.moveTo reader, .chunk brace (braces + 1) block .code⟩
      ⟨withChunk progress (closeBlock brace (blockBody braces block reader)), .declaration⟩ := by
  -- The task counts all braces that are open, the recursion only those inside of the block.
  fun_induction blockBody braces block reader with
  | case1 braces block reader token ended =>
    refine reaches_read _ rfl rfl ?_
    simp only [read, readCode, Progress.reader_moveTo, show reader.next.1.kind = .endOfStream from ended, ↓reduceIte]
    exact .refl
  | case2 braces block reader token more opening ih =>
    refine reaches_read _ rfl rfl ?_
    simp only [read, readCode, Progress.reader_moveTo, show reader.next.1.kind = .openBrace from opening, ↓reduceIte,
      reduceCtorEq]
    exact ih
  | case3 block reader token more noOpening closing =>
    refine reaches_read _ rfl rfl ?_
    simp only [read, readCode, Progress.reader_moveTo, show reader.next.1.kind = .closeBrace from closing, ↓reduceIte,
      reduceCtorEq, Nat.add_sub_cancel]
    exact .refl
  | case4 block reader token more noOpening closing braces ih =>
    refine reaches_read _ rfl rfl ?_
    simp only [read, readCode, Progress.reader_moveTo, show reader.next.1.kind = .closeBrace from closing, ↓reduceIte,
      reduceCtorEq, Nat.add_sub_cancel, Nat.add_one_ne_zero]
    exact ih
  | case5 braces block reader token more noOpening noClosing item ih =>
    exact (reaches_blockItem (progress.moveTo reader) brace (braces + 1) block more noOpening noClosing).trans ih

theorem reaches_chunk? :
    Reaches step ⟨progress, .chunkName⟩ ⟨withChunk progress (chunk? progress.reader), .declaration⟩ := by
  unfold chunk?
  split
  · rename_i named
    exact reaches_missed _ rfl named
  · rename_i name opened named
    refine reaches_found _ rfl named ?_
    split
    · rename_i braced
      exact reaches_missed (progress.moveTo opened) rfl braced
    · rename_i brace inside braced
      refine reaches_found (progress.moveTo opened) rfl braced ?_
      exact reaches_blockBody progress brace 0 ⟨{ name := name.text }, {}⟩ inside

end Chunks

section Words

variable (progress : Progress) {task : Task}

/-- A task in a block of named items: it goes on with its words and with the end of the block, and passes over
everything else. -/
structure Awaits (task : Task) : Prop where
  running : task.isDone = false
  free : task.required? = none
  passes : ∀ place token progress, token.kind ≠ .endOfStream → token.kind ≠ .closeBrace → token.kind ≠ .identifier →
    read place token progress task = ⟨progress, task⟩

theorem awaits_passLine (name : String) (shaders : List Shader) : Awaits (.passLine name shaders) where
  running := rfl
  free := rfl
  passes _ _ _ more noClosing noWord := by
    simp only [read, readPass, if_neg more, if_neg noClosing, if_neg noWord]

theorem awaits_propertyName : Awaits .propertyName where
  running := rfl
  free := rfl
  passes _ _ _ more noClosing noWord := by
    simp only [read, readPropertyName, if_neg more, if_neg noClosing, if_neg noWord]

/-- Such a task comes to the place before the word, the brace or the end that is met next. -/
theorem reaches_nextWord? (awaits : Awaits task) (reader : Reader) :
    ∃ here : Reader, Reaches step ⟨progress.moveTo reader, task⟩ ⟨progress.moveTo here, task⟩ ∧
      (here.next.1.kind = .endOfStream ∧ nextWord? reader = (none, here.next.2.report .closeBrace here.next.1) ∨
        here.next.1.kind = .closeBrace ∧ nextWord? reader = (none, here.next.2) ∨
        here.next.1.kind = .identifier ∧ nextWord? reader = (some here.next.1, here.next.2)) := by
  fun_induction nextWord? reader with
  | case1 reader token ended => exact ⟨reader, .refl, .inl ⟨ended, rfl⟩⟩
  | case2 reader token more closing => exact ⟨reader, .refl, .inr (.inl ⟨closing, rfl⟩)⟩
  | case3 reader token more noClosing word => exact ⟨reader, .refl, .inr (.inr ⟨word, rfl⟩)⟩
  | case4 reader token more noClosing noWord ih =>
    obtain ⟨here, course, stands⟩ := ih
    refine ⟨here, reaches_read _ awaits.running awaits.free ?_, stands⟩
    simp only [Progress.reader_moveTo, awaits.passes _ reader.next.1 _ more noClosing noWord]
    exact course

end Words

section Passes

variable (progress : Progress) (name : String) (shaders : List Shader)

theorem reaches_shader (stage : Stage) :
    Reaches step ⟨progress, .shaderSign name shaders stage⟩
      ⟨progress.moveTo (shader progress.effect stage progress.reader).2,
        .passLine name (shaders ++ [(shader progress.effect stage progress.reader).1])⟩ := by
  unfold shader
  split
  · rename_i sign
    exact reaches_missed _ rfl sign
  · rename_i later sign
    refine reaches_found _ rfl sign ?_
    split
    · rename_i unnamed
      exact reaches_missed (progress.moveTo later) rfl unnamed
    · rename_i named
      exact reaches_found (progress.moveTo later) rfl named .refl

theorem reaches_passLine (word : progress.reader.next.1.kind = .identifier) :
    Reaches step ⟨progress, .passLine name shaders⟩
      ⟨progress.moveTo (passLine progress.effect progress.reader.next.1 progress.reader.next.2).2,
        .passLine name (shaders ++ (passLine progress.effect progress.reader.next.1 progress.reader.next.2).1)⟩ := by
  refine reaches_read _ rfl rfl ?_
  simp only [read, readPass, word, ↓reduceIte, reduceCtorEq, passLine]
  cases lineStage? progress.reader.next.1.text with
  | none => simpa only [List.append_nil] using .refl
  | some stage => exact reaches_shader (progress.moveTo progress.reader.next.2) name shaders stage

theorem reaches_passBody (reader : Reader) :
    Reaches step ⟨progress.moveTo reader, .passLine name shaders⟩
      (addPass name (passBody progress.effect shaders reader).1
        (progress.moveTo (passBody progress.effect shaders reader).2)) := by
  fun_induction passBody progress.effect shaders reader with
  | case1 shaders start later none =>
    obtain ⟨here, course, ⟨ended, stands⟩ | ⟨closing, stands⟩ | ⟨word, stands⟩⟩ :=
      reaches_nextWord? progress (awaits_passLine name shaders) start
    · obtain rfl : _ = later := congrArg Prod.snd (stands.symm.trans none)
      refine course.trans (reaches_read _ rfl rfl ?_)
      simp only [read, readPass, Progress.reader_moveTo, ended, ↓reduceIte]
      exact .refl
    · obtain rfl : _ = later := congrArg Prod.snd (stands.symm.trans none)
      refine course.trans (reaches_read _ rfl rfl ?_)
      simp only [read, readPass, Progress.reader_moveTo, closing, ↓reduceIte, reduceCtorEq]
      exact .refl
    · cases stands.symm.trans none
  | case2 shaders start word later found line ih =>
    obtain ⟨here, course, ⟨ended, stands⟩ | ⟨closing, stands⟩ | ⟨isWord, stands⟩⟩ :=
      reaches_nextWord? progress (awaits_passLine name shaders) start
    · cases stands.symm.trans found
    · cases stands.symm.trans found
    · cases stands.symm.trans found
      exact (course.trans (reaches_passLine (progress.moveTo here) name shaders isWord)).trans ih

private def withPass (result : Option Pass × Reader) : Progress :=
  match result with
  | (none, later) => progress.moveTo later
  | (some pass, later) => (progress.moveTo later).addPass pass

theorem reaches_pass? :
    Reaches step ⟨progress, .passName⟩
      ⟨withPass progress (pass? progress.effect progress.reader), .declaration⟩ := by
  unfold pass?
  split
  · rename_i named
    exact reaches_missed _ rfl named
  · rename_i name opened named
    refine reaches_found _ rfl named ?_
    split
    · rename_i braced
      exact reaches_missed (progress.moveTo opened) rfl braced
    · rename_i inside braced
      refine reaches_found (progress.moveTo opened) rfl braced ?_
      exact reaches_passBody progress name.text [] inside

end Passes

section Properties

variable (progress : Progress) (name label : String)

/-- The moment behind a part of the source: it goes on with what was read, or an error has ended the reading. -/
private def after {α : Type} (next : α → Progress → Moment) : Except Error α × Reader → Moment
  | (.ok value, later) => next value (progress.moveTo later)
  | (.error error, later) => ⟨progress.moveTo later, .done (some error)⟩

private theorem after_of_ok {α : Type} (next : α → Progress → Moment) {result : Except Error α × Reader} {value : α}
    (given : result.1 = .ok value) : after progress next result = next value (progress.moveTo result.2) := by
  obtain ⟨_, later⟩ := result
  cases given
  rfl

private theorem after_of_error {α : Type} (next : α → Progress → Moment) {result : Except Error α × Reader}
    {error : Error} (failed : result.1 = .error error) :
    after progress next result = ⟨progress.moveTo result.2, .done (some error)⟩ := by
  obtain ⟨_, later⟩ := result
  cases failed
  rfl

private def atSign (value : Property.Value) (progress : Progress) : Moment :=
  ⟨progress, .property name (.sign label value)⟩

private def behindBound (next : Double → PropertyTask) (bound : Option Double) (progress : Progress) : Moment :=
  match bound with
  | none => atSign name label (.empty .range) progress
  | some value => ⟨progress, .property name (next value)⟩

theorem reaches_number? (task : Task) {next : Double → PropertyTask} (required : task.required? = some .number)
    (goes : ∀ token progress, found token progress task = number name label token next progress)
    (stays : missed task = .property name (.sign label (.empty .range))) :
    Reaches step ⟨progress, task⟩ (after progress (behindBound name label next) (number? progress.reader)) := by
  unfold number?
  split
  · rename_i unmet
    have course := reaches_missed progress required unmet
    rwa [stays] at course
  · rename_i token later met
    refine reaches_found progress required met ?_
    rw [goes, number]
    split
    · rename_i complaint
      rw [if_pos (show later.hasError = true from complaint)]
      exact .refl
    · rename_i noComplaint
      rw [if_neg (show ¬later.hasError = true from noComplaint), Progress.reader_moveTo]
      cases literal later token with
      | ok value => exact .refl
      | error error => exact .refl

private def ranged (bounds : Option (Double × Double)) : Property.Value :=
  match bounds with
  | none => .empty .range
  | some (low, high) => .range low.toSingle high.toSingle .zero

theorem reaches_bounds? :
    Reaches step ⟨progress, .property name (.low label)⟩
      (after progress (fun bounds => atSign name label (ranged bounds)) (bounds? progress.reader)) := by
  have first := reaches_number? progress name label (.property name (.low label)) rfl (fun _ _ => rfl) rfl
  unfold bounds?
  split
  · rename_i failed
    rwa [failed] at first
  · rename_i missing
    rwa [missing] at first
  · rename_i low afterLow lowRead
    rw [lowRead] at first
    refine first.trans ?_
    split
    · rename_i noComma
      exact reaches_missed (progress.moveTo afterLow) rfl noComma
    · rename_i afterComma comma
      refine reaches_found (progress.moveTo afterLow) rfl comma ?_
      have second := reaches_number? (progress.moveTo afterComma) name label
        (.property name (.high label low)) rfl (fun _ _ => rfl) rfl
      rw [Progress.reader_moveTo] at second
      split
      · rename_i failed
        rwa [failed] at second
      · rename_i missing
        rwa [missing] at second
      · rename_i high afterHigh highRead
        rw [highRead] at second
        refine second.trans ?_
        split
        · rename_i noClosing
          exact reaches_missed (progress.moveTo afterHigh) rfl noClosing
        · rename_i closed
          exact reaches_found (progress.moveTo afterHigh) rfl closed .refl

theorem reaches_typedValue (type : String) :
    Reaches step (typed name label type progress)
      (after progress (atSign name label) (typedValue (.ofTypeName type) progress.reader)) := by
  unfold typed typedValue
  split
  · rename_i range
    refine reaches_read _ rfl rfl ?_
    simp only [read, readProperty, Reader.nextIs, beq_iff_eq]
    split
    · have course := reaches_bounds? (progress.moveTo progress.reader.next.2) name label
      rw [Progress.reader_moveTo] at course
      split
      · rename_i failed
        rwa [failed] at course
      · rename_i missing
        rw [range]
        rwa [missing] at course
      · rename_i bounds
        rwa [bounds] at course
    · rw [range]
      exact .refl
  · exact .refl

theorem reaches_typeName :
    Reaches step ⟨progress, .property name (.typeName label)⟩
      (typed name label (typeName progress.reader).1.text (progress.moveTo (typeName progress.reader).2)) := by
  refine reaches_read _ rfl rfl ?_
  simp only [read, readProperty, typeName]
  split
  · refine reaches_read _ rfl rfl ?_
    by_cases word : progress.reader.next.2.next.1.kind = .identifier
    · simp only [read, readProperty, Progress.reader_moveTo, word, ↓reduceIte]
      exact .refl
    · simp only [read, readProperty, Progress.reader_moveTo, word, ↓reduceIte]
      exact .refl
  · exact .refl

theorem reaches_skipGroup (value : Property.Value) (depth : Nat) (reader : Reader) :
    Reaches step ⟨progress.moveTo reader, .property name (.group label value (depth + 1))⟩
      (addProperty name label value (progress.moveTo (skipGroup depth reader))) := by
  fun_induction skipGroup depth reader with
  | case1 depth reader token ended =>
    refine reaches_read _ rfl rfl ?_
    simp only [read, readProperty, readGroup, Progress.reader_moveTo,
      show reader.next.1.kind = .endOfStream from ended, ↓reduceIte]
    exact .refl
  | case2 depth reader token more opening ih =>
    refine reaches_read _ rfl rfl ?_
    simp only [read, readProperty, readGroup, Progress.reader_moveTo,
      show reader.next.1.kind = .openParen from opening, ↓reduceIte, reduceCtorEq]
    exact ih
  | case3 reader token more noOpening closing =>
    refine reaches_read _ rfl rfl ?_
    simp only [read, readProperty, readGroup, Progress.reader_moveTo,
      show reader.next.1.kind = .closeParen from closing, ↓reduceIte, reduceCtorEq, Nat.add_sub_cancel]
    exact .refl
  | case4 reader token more noOpening closing depth ih =>
    refine reaches_read _ rfl rfl ?_
    simp only [read, readProperty, readGroup, Progress.reader_moveTo,
      show reader.next.1.kind = .closeParen from closing, ↓reduceIte, reduceCtorEq, Nat.add_sub_cancel,
      Nat.add_one_ne_zero]
    exact ih
  | case5 depth reader token more noOpening noClosing ih =>
    refine reaches_read _ rfl rfl ?_
    simp only [read, readProperty, readGroup, Progress.reader_moveTo,
      show ¬reader.next.1.kind = .endOfStream from more, show ¬reader.next.1.kind = .openParen from noOpening,
      show ¬reader.next.1.kind = .closeParen from noClosing, ↓reduceIte]
    exact ih

theorem defaultValue_of_group {value : Property.Value} {token : Token} (reader : Reader)
    (group : skipsDefault value ∧ token.kind = .openParen) :
    defaultValue name value token reader = (.ok value, skipGroup 0 reader) := by
  obtain ⟨skips, opening⟩ := group
  unfold defaultValue
  cases value with
  | color => rw [opening]
  | vector => rw [opening]
  | _ => cases skips

theorem reader_defaultValue {value : Property.Value} {token : Token} (reader : Reader)
    (single : ¬(skipsDefault value ∧ token.kind = .openParen)) :
    (defaultValue name value token reader).2 = reader := by
  unfold defaultValue
  split
  · rename_i opening
    exact absurd ⟨rfl, opening⟩ single
  · rfl
  · rename_i opening
    exact absurd ⟨rfl, opening⟩ single
  all_goals rfl

theorem reaches_default (value : Property.Value) :
    Reaches step ⟨progress, .property name (.default label value)⟩
      (after progress (addProperty name label)
        (defaultValue name value progress.reader.next.1 progress.reader.next.2)) := by
  refine reaches_read _ rfl rfl ?_
  simp only [read, readProperty, readDefault, Progress.reader_moveTo]
  by_cases group : skipsDefault value ∧ progress.reader.next.1.kind = .openParen
  · simp only [group, and_self, ↓reduceIte, defaultValue_of_group name _ group]
    exact reaches_skipGroup progress name label value 0 progress.reader.next.2
  · have stays := reader_defaultValue name progress.reader.next.2 group
    simp only [group, ↓reduceIte]
    rcases given : defaultValue name value progress.reader.next.1 progress.reader.next.2 with ⟨result, later⟩
    rw [given] at stays
    cases result with
    | ok value => exact stays ▸ .refl
    | error error => exact stays ▸ .refl

theorem reaches_propertyValue :
    Reaches step ⟨progress, .property name (.typeName label)⟩
      (after progress (addProperty name label) (propertyValue name progress.reader)) := by
  have typed := reaches_typedValue (progress.moveTo (typeName progress.reader).2) name label
    (typeName progress.reader).1.text
  refine (reaches_typeName progress name label).trans ?_
  simp only [propertyValue]
  rw [Progress.reader_moveTo] at typed
  split
  · rename_i failed
    rwa [failed] at typed
  · rename_i value later valued
    rw [valued] at typed
    refine typed.trans (reaches_read (progress.moveTo later) rfl rfl ?_)
    simp only [read, readProperty, Reader.nextIs, Progress.reader_moveTo, beq_iff_eq]
    by_cases sign : later.next.1.kind = .equals
    · simp only [sign, ↓reduceIte]
      exact reaches_default (progress.moveTo later.next.2) name label value
    · simp only [sign, ↓reduceIte]
      exact .refl

private def behindProperty (property : Option Property) (progress : Progress) : Moment :=
  ⟨progress.addProperties property.toList, .propertyName⟩

theorem behindProperty_none : behindProperty none progress = ⟨progress, .propertyName⟩ := by
  simp only [behindProperty, Option.toList_none, Progress.addProperties, List.append_nil]

/-- Whether the parenthesis behind a property is there or not, the next property follows. -/
theorem reaches_closing :
    Reaches step ⟨progress, .property name .closing⟩
      ⟨progress.moveTo (progress.reader.expect .closeParen).2, .propertyName⟩ := by
  rcases given : progress.reader.expect .closeParen with ⟨result, later⟩
  cases result with
  | ok token => exact reaches_found progress rfl given .refl
  | error error => exact reaches_missed progress rfl given

theorem reaches_property? (word : Token) :
    Reaches step ⟨progress, .property word.text .opening⟩
      (after progress behindProperty (property? word progress.reader)) := by
  unfold property?
  split
  · rename_i later unopened
    rw [after, behindProperty_none]
    exact reaches_missed progress rfl unopened
  · rename_i afterParen opened
    refine reaches_found progress rfl opened ?_
    split
    · rename_i later unlabelled
      rw [after, behindProperty_none]
      exact reaches_missed (progress.moveTo afterParen) rfl unlabelled
    · rename_i label afterLabel labelled
      refine reaches_found (progress.moveTo afterParen) rfl labelled ?_
      split
      · rename_i later noComma
        rw [after, behindProperty_none]
        exact reaches_missed (progress.moveTo afterLabel) rfl noComma
      · rename_i afterComma comma
        refine reaches_found (progress.moveTo afterLabel) rfl comma ?_
        have valued := reaches_propertyValue (progress.moveTo afterComma) word.text label.text
        rw [Progress.reader_moveTo] at valued
        split
        · rename_i failed
          rwa [failed] at valued
        · rename_i value afterValue given
          rw [given] at valued
          exact valued.trans (reaches_closing _ word.text)

/-- What has come of a part of the source: the next task with all that was read, or an error with the place that it
left the reading at. -/
def Concludes (last : Moment) (next : Task) : Option Error × Progress → Prop
  | (none, progress) => last = ⟨progress, next⟩
  | (some error, progress) => last.task = .done (some error) ∧ last.reader = progress.reader

private def withProperties (result : Except Error (List Property) × Reader) : Option Error × Progress :=
  match result with
  | (.error error, later) => (some error, progress.moveTo later)
  | (.ok properties, later) => (none, (progress.moveTo later).addProperties properties)

theorem behindProperty_moveTo (properties : List Property) (property : Option Property) (here later : Reader) :
    behindProperty property (((progress.addProperties properties).moveTo here).moveTo later) =
      ⟨(progress.addProperties (properties ++ property.toList)).moveTo later, .propertyName⟩ := by
  simp only [behindProperty, Progress.addProperties, Progress.moveTo, List.append_assoc]

theorem reaches_propertyItem (word : progress.reader.next.1.kind = .identifier) :
    Reaches step ⟨progress, .propertyName⟩
      (after progress behindProperty (property? progress.reader.next.1 progress.reader.next.2)) := by
  refine reaches_read _ rfl rfl ?_
  simp only [read, readPropertyName, word, ↓reduceIte, reduceCtorEq]
  exact reaches_property? (progress.moveTo progress.reader.next.2) progress.reader.next.1

theorem reaches_propertiesBody (properties : List Property) (reader : Reader) :
    ∃ last, Reaches step ⟨(progress.addProperties properties).moveTo reader, .propertyName⟩ last ∧
      last.Concludes .declaration (withProperties progress (propertiesBody properties reader)) := by
  fun_induction propertiesBody properties reader with
  | case1 properties start later none =>
    obtain ⟨here, course, ⟨ended, stands⟩ | ⟨closing, stands⟩ | ⟨word, stands⟩⟩ :=
      reaches_nextWord? (progress.addProperties properties) awaits_propertyName start
    · obtain rfl : _ = later := congrArg Prod.snd (stands.symm.trans none)
      refine ⟨_, course.trans (reaches_read _ rfl rfl .refl), ?_⟩
      simp only [read, readPropertyName, Progress.reader_moveTo, ended, ↓reduceIte]
      rfl
    · obtain rfl : _ = later := congrArg Prod.snd (stands.symm.trans none)
      refine ⟨_, course.trans (reaches_read _ rfl rfl .refl), ?_⟩
      simp only [read, readPropertyName, Progress.reader_moveTo, closing, ↓reduceIte, reduceCtorEq]
      rfl
    · cases stands.symm.trans none
  | case2 properties start word later found item error failed =>
    obtain ⟨here, course, ⟨ended, stands⟩ | ⟨closing, stands⟩ | ⟨isWord, stands⟩⟩ :=
      reaches_nextWord? (progress.addProperties properties) awaits_propertyName start
    · cases stands.symm.trans found
    · cases stands.symm.trans found
    · cases stands.symm.trans found
      have item := reaches_propertyItem ((progress.addProperties properties).moveTo here) isWord
      rw [Progress.reader_moveTo, after_of_error _ _ failed] at item
      exact ⟨_, course.trans item, rfl, rfl⟩
  | case3 properties start word later found item property given ih =>
    obtain ⟨last, rest, concludes⟩ := ih
    obtain ⟨here, course, ⟨ended, stands⟩ | ⟨closing, stands⟩ | ⟨isWord, stands⟩⟩ :=
      reaches_nextWord? (progress.addProperties properties) awaits_propertyName start
    · cases stands.symm.trans found
    · cases stands.symm.trans found
    · cases stands.symm.trans found
      have item := reaches_propertyItem ((progress.addProperties properties).moveTo here) isWord
      rw [Progress.reader_moveTo, after_of_ok _ _ given, behindProperty_moveTo] at item
      exact ⟨last, (course.trans item).trans rest, concludes⟩

theorem reaches_properties :
    ∃ last, Reaches step ⟨progress, .propertiesBrace⟩ last ∧
      last.Concludes .declaration (withProperties progress (properties progress.reader)) := by
  unfold properties
  split
  · rename_i later unopened
    refine ⟨_, reaches_missed progress rfl unopened, ?_⟩
    simp only [withProperties, Progress.addProperties, List.append_nil]
    rfl
  · rename_i later opened
    obtain ⟨last, course, concludes⟩ := reaches_propertiesBody progress [] later
    refine ⟨last, reaches_found progress rfl opened ?_, concludes⟩
    simp only [Progress.addProperties, List.append_nil] at course
    exact course

end Properties

theorem reaches_declaration (progress : Progress) (word : String) :
    ∃ last, Reaches step ⟨progress, .ofWord word⟩ last ∧ last.Concludes .declaration (declaration word progress) := by
  unfold declaration
  split
  · exact ⟨_, reaches_heading progress, rfl⟩
  · refine ⟨_, reaches_chunk? progress, ?_⟩
    split
    · rename_i incomplete
      rw [incomplete]
      rfl
    · rename_i complete
      rw [complete]
      rfl
  · refine ⟨_, reaches_pass? progress, ?_⟩
    split
    · rename_i incomplete
      rw [incomplete]
      rfl
    · rename_i complete
      rw [complete]
      rfl
  · obtain ⟨last, course, concludes⟩ := reaches_properties progress
    refine ⟨last, course, ?_⟩
    split
    · rename_i failed
      rwa [failed] at concludes
    · rename_i given
      rwa [given] at concludes
  · rename_i noEffect noChunk noPass noProperties
    refine ⟨_, .refl, ?_⟩
    simp only [Task.ofWord]
    rfl

/-- The steps from a place outside of blocks lead to what the declarations from there give. -/
theorem reaches_declarations (progress : Progress) :
    ∃ last, Reaches step ⟨progress, .declaration⟩ last ∧ last.Concludes (.done none) (declarations progress) := by
  fun_induction declarations progress with
  | case1 progress token later ended outside =>
    refine ⟨_, reaches_read _ rfl rfl .refl, ?_⟩
    simp only [read, readDeclaration, show progress.reader.next.1.kind = .endOfStream from ended,
      show (progress.moveTo progress.reader.next.2).depth = 0 from outside, ↓reduceIte]
    rfl
  | case2 progress token later ended inside =>
    refine ⟨_, reaches_read _ rfl rfl .refl, ?_⟩
    simp only [read, readDeclaration, show progress.reader.next.1.kind = .endOfStream from ended,
      show ¬(progress.moveTo progress.reader.next.2).depth = 0 from inside, ↓reduceIte]
    rfl
  | case3 progress token later more closing ih =>
    obtain ⟨last, rest, concludes⟩ := ih
    refine ⟨last, reaches_read _ rfl rfl ?_, concludes⟩
    simp only [read, readDeclaration, show progress.reader.next.1.kind = .closeBrace from closing, ↓reduceIte,
      reduceCtorEq]
    exact rest
  | case4 progress token later more noClosing word item error failed =>
    obtain ⟨last, rest, concludes⟩ := reaches_declaration later token.text
    refine ⟨last, reaches_read _ rfl rfl ?_, ?_⟩
    · simp only [read, readDeclaration, show progress.reader.next.1.kind = .identifier from word, ↓reduceIte,
        reduceCtorEq]
      exact rest
    · have given : declaration token.text later = (some error, item.2) := Prod.ext failed rfl
      rwa [given] at concludes
  | case5 progress token later more noClosing word item given ih =>
    obtain ⟨here, first, stands⟩ := reaches_declaration later token.text
    obtain ⟨last, rest, concludes⟩ := ih
    refine ⟨last, reaches_read _ rfl rfl ?_, concludes⟩
    have given : declaration token.text later = (none, item.2) := Prod.ext given rfl
    rw [given] at stands
    cases stands
    simp only [read, readDeclaration, show progress.reader.next.1.kind = .identifier from word, ↓reduceIte,
      reduceCtorEq]
    exact first.trans rest
  | case6 progress token later more noClosing noWord ih =>
    obtain ⟨last, rest, concludes⟩ := ih
    refine ⟨last, reaches_read _ rfl rfl ?_, concludes⟩
    simp only [read, readDeclaration, show ¬progress.reader.next.1.kind = .endOfStream from more,
      show ¬progress.reader.next.1.kind = .closeBrace from noClosing,
      show ¬progress.reader.next.1.kind = .identifier from noWord, ↓reduceIte]
    exact rest

def result? (moment : Moment) : Option (Except Error Effect × Reader) :=
  match moment.task with
  | .done none => some (.ok moment.progress.effect, moment.reader)
  | .done (some error) => some (.error error, moment.reader)
  | _ => none

theorem eq_of_result?_ok {moment : Moment} {effect : Effect} {later : Reader}
    (given : moment.result? = some (.ok effect, later)) : moment.progress.effect = effect ∧ moment.reader = later := by
  unfold result? at given
  split at given
  · cases given
    exact ⟨rfl, rfl⟩
  · cases given
  · cases given

/-- The steps from where a reader stands come to an end, with what the reading from there gives. -/
theorem exists_mem_eval (reader : Reader) :
    ∃ last ∈ eval step (start reader), last.result? = some (Document.read reader) := by
  obtain ⟨last, course, concludes⟩ := reaches_declarations ⟨{}, 0, reader⟩
  unfold Document.read
  rcases given : declarations ⟨{}, 0, reader⟩ with ⟨_ | error, progress⟩
  · rw [given] at concludes
    cases concludes
    exact ⟨_, mem_eval.2 ⟨course, rfl⟩, rfl⟩
  · rw [given] at concludes
    obtain ⟨progress', task⟩ := last
    obtain ⟨rfl, stands⟩ : task = .done (some error) ∧ progress'.reader = progress.reader := concludes
    refine ⟨_, mem_eval.2 ⟨course, rfl⟩, ?_⟩
    exact congrArg (fun later => some (Except.error error, later)) stands

theorem invariant_of_reaches {holds : Moment → Prop}
    (keeps : ∀ moment next, holds moment → step moment = some next → holds next) {first last : Moment}
    (has : holds first) (course : Reaches step first last) : holds last := by
  induction course with
  | refl => exact has
  | tail _ goes ih => exact keeps _ _ ih goes

/-- What the first moment has and every step keeps, the moment has that gives the reading's result. -/
theorem exists_result_of_invariant {holds : Moment → Prop} (reader : Reader) (first : holds (start reader))
    (keeps : ∀ moment next, holds moment → step moment = some next → holds next) :
    ∃ last, Reaches step (start reader) last ∧ holds last ∧ last.result? = some (Document.read reader) := by
  obtain ⟨last, ends, given⟩ := exists_mem_eval reader
  have course := (mem_eval.1 ends).1
  exact ⟨last, course, invariant_of_reaches keeps first course, given⟩

end EffectLang.Document.Moment
