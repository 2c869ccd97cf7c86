import EffectLang.Proofs.Blob.Lengths
import EffectLang.Proofs.Reading.InBounds
import EffectLang.Proofs.Reading.WellFormed

/-!
How much a source can hold. Every text of an effect that was read is a part of its source, and every element of its
lists is paid for by a byte that only this element has used, also after a complaint, when names and signs are made up.
So neither texts nor lists are longer than the source.
-/
namespace EffectLang

theorem Utf8.append_of_cutInto? {bytes : Nat} {taken text front rest : List Char}
    (cut : cutInto? bytes taken text = some (front, rest)) : taken.reverse ++ text = front ++ rest := by
  fun_induction cutInto? bytes taken text with
  | case1 taken text =>
    cases cut
    rfl
  | case2 => cases cut
  | case3 bytes taken c text fits ih => simpa using ih cut
  | case4 => cases cut

theorem Utf8.byteLength_slice?_le (text : List Char) (start stop : Nat) :
    byteLength ((slice? text start stop).getD []) ≤ byteLength text := by
  unfold slice?
  split
  · split
    · exact Nat.zero_le _
    · rename_i front rest first
      have whole : text = front ++ rest := by simpa using append_of_cutInto? first
      cases second : cut? (stop - start) rest with
      | none => exact Nat.zero_le _
      | some parts =>
        have inner : rest = parts.1 ++ parts.2 := by simpa using append_of_cutInto? second
        rw [whole, inner]
        simp only [Option.map_some, Option.getD_some, byteLength_append]
        omega
  · exact Nat.zero_le _

section Texts

variable (P : String → Prop)

structure Chunk.Texts (chunk : Chunk) : Prop where
  name : P chunk.name
  includes : ∀ name ∈ chunk.includes, P name
  resources : ∀ resource ∈ chunk.resources, P resource.name
  code : P chunk.code

def Property.Value.Texts : Property.Value → Prop
  | .texture _ default => P default
  | _ => True

structure Property.Texts (property : Property) : Prop where
  name : P property.name
  label : P property.label
  value : property.value.Texts P

/-- All texts that a source gives to an effect have a property. -/
structure Effect.Texts (effect : Effect) : Prop where
  name : P effect.name
  passes : ∀ pass ∈ effect.passes, P pass.name
  chunks : ∀ chunk ∈ effect.chunks, chunk.Texts P
  properties : ∀ property ∈ effect.properties, property.Texts P

end Texts

def Chunk.volume (chunk : Chunk) : Nat :=
  1 + chunk.includes.length + chunk.resources.length

def Pass.volume (pass : Pass) : Nat :=
  1 + pass.shaders.length

/-- The number of all elements that a source gives to an effect. -/
def Effect.volume (effect : Effect) : Nat :=
  (effect.passes.map Pass.volume).sum + (effect.chunks.map Chunk.volume).sum + effect.properties.length

namespace Document

variable (P : String → Prop)

def PropertyTask.Texts : PropertyTask → Prop
  | .comma caption => P caption
  | .typeName caption => P caption
  | .typeSuffix caption _ => P caption
  | .bounds caption => P caption
  | .low caption => P caption
  | .boundsComma caption _ => P caption
  | .high caption _ => P caption
  | .boundsEnd caption _ _ => P caption
  | .sign caption value => P caption ∧ value.Texts P
  | .default caption value => P caption ∧ value.Texts P
  | .group caption value _ => P caption ∧ value.Texts P
  | _ => True

def Task.Texts : Task → Prop
  | .chunkBrace name => P name
  | .chunk _ _ block _ => block.chunk.Texts P
  | .passBrace name => P name
  | .passLine name _ => P name
  | .shaderSign name _ _ => P name
  | .shaderName name _ _ => P name
  | .property name part => P name ∧ part.Texts P
  | _ => True

/-- The elements that a task may still add, each of which has been paid for. A pass, a chunk and a property are paid
for by their first word, a shader by that of its stage, and an include or a resource by the sign before it. -/
def Task.pending : Task → Nat
  | .chunkName => 1
  | .chunkBrace _ => 1
  | .chunk _ _ block part => block.chunk.volume + part.inside
  | .passName => 1
  | .passBrace _ => 1
  | .passLine _ shaders => 1 + shaders.length
  | .shaderSign _ shaders _ => 2 + shaders.length
  | .shaderName _ shaders _ => 2 + shaders.length
  | .property _ .closing => 0
  | .property _ _ => 1
  | _ => 0

namespace Moment

/-- The texts are parts of the source, and all elements are paid for by what has been read. -/
structure Sized (moment : Moment) : Prop where
  effect : moment.progress.effect.Texts P
  task : moment.task.Texts P
  volume : moment.progress.effect.volume + moment.task.pending ≤ moment.reader.cursor.position

/-- What a token pays: nothing at the end of the source, as none is read there. -/
def worth (token : Token) : Nat :=
  if token.kind = .endOfStream then 0 else 1

variable {P} {progress : Progress}

theorem worth_of_ne {token : Token} (more : token.kind ≠ .endOfStream) : worth token = 1 :=
  if_neg more

section Additions

variable (progress)

theorem volume_addChunk (chunk : Chunk) :
    (progress.addChunk chunk).effect.volume = progress.effect.volume + chunk.volume := by
  simp only [Effect.volume, Progress.addChunk, List.map_append, List.sum_append, List.map_cons, List.map_nil,
    List.sum_cons, List.sum_nil]
  omega

theorem volume_addPass (pass : Pass) :
    (progress.addPass pass).effect.volume = progress.effect.volume + pass.volume := by
  simp only [Effect.volume, Progress.addPass, List.map_append, List.sum_append, List.map_cons, List.map_nil,
    List.sum_cons, List.sum_nil]
  omega

theorem volume_addProperties (properties : List Property) :
    (progress.addProperties properties).effect.volume = progress.effect.volume + properties.length := by
  simp only [Effect.volume, Progress.addProperties, List.length_append]
  omega

theorem cursor_unclosed (token : Token) : (unclosed token progress).reader.cursor = progress.reader.cursor :=
  Reader.cursor_report _ _ _

variable {progress}

theorem sized_addProperty {name label : String} {value : Property.Value} (effect : progress.effect.Texts P)
    (named : P name) (labelled : P label) (filled : value.Texts P)
    (paid : progress.effect.volume + 1 ≤ progress.reader.cursor.position) :
    (addProperty name label value progress).Sized P where
  effect := by
    refine ⟨effect.name, effect.passes, effect.chunks, ?_⟩
    intro property member
    rcases List.mem_append.mp member with before | added
    · exact effect.properties property before
    · obtain rfl := List.mem_singleton.mp added
      exact ⟨named, labelled, filled⟩
  task := ⟨named, trivial⟩
  volume := by
    rw [addProperty, volume_addProperties]
    exact paid

theorem sized_addPass {name : String} {shaders : List Shader} (effect : progress.effect.Texts P) (named : P name)
    (paid : progress.effect.volume + (1 + shaders.length) ≤ progress.reader.cursor.position) :
    (addPass name shaders progress).Sized P where
  effect := by
    refine ⟨effect.name, ?_, effect.chunks, effect.properties⟩
    intro pass member
    rcases List.mem_append.mp member with before | added
    · exact effect.passes pass before
    · obtain rfl := List.mem_singleton.mp added
      exact named
  task := trivial
  volume := by
    rw [addPass, volume_addPass]
    exact paid

theorem sized_addChunk {chunk : Chunk} (effect : progress.effect.Texts P) (texts : chunk.Texts P)
    (paid : progress.effect.volume + chunk.volume ≤ progress.reader.cursor.position) :
    Sized P ⟨progress.addChunk chunk, .declaration⟩ where
  effect := by
    refine ⟨effect.name, effect.passes, ?_, effect.properties⟩
    intro other member
    rcases List.mem_append.mp member with before | added
    · exact effect.chunks other before
    · obtain rfl := List.mem_singleton.mp added
      exact texts
  task := trivial
  volume := by
    rw [volume_addChunk]
    exact paid

end Additions

section Steps

theorem texts_empty (nothing : P "") (kind : Property.Kind) : (Property.Value.empty kind).Texts P := by
  cases kind <;> first | exact trivial | exact nothing

theorem sized_typed (nothing : P "") {name label : String} (type : String) (effect : progress.effect.Texts P)
    (named : P name) (labelled : P label) (paid : progress.effect.volume + 1 ≤ progress.reader.cursor.position) :
    (typed name label type progress).Sized P := by
  unfold typed
  split
  · exact ⟨effect, ⟨named, labelled⟩, paid⟩
  · exact ⟨effect, ⟨named, labelled, texts_empty nothing _⟩, paid⟩

theorem sized_foundInProperty {name : String} {part : PropertyTask} {token : Token}
    (sized : Sized P ⟨progress, .property name part⟩) (text : P token.text) :
    (foundInProperty name token progress part).Sized P := by
  obtain ⟨effect, ⟨named, inner⟩, paid⟩ := sized
  have range {label : String} (labelled : P label)
      (one : progress.effect.volume + 1 ≤ progress.reader.cursor.position) :
      Sized P ⟨progress, .property name (.sign label (.empty .range))⟩ :=
    ⟨effect, ⟨named, labelled, trivial⟩, one⟩
  unfold foundInProperty number
  split
  · exact ⟨effect, ⟨named, trivial⟩, paid⟩
  · exact ⟨effect, ⟨named, text⟩, paid⟩
  · exact ⟨effect, ⟨named, inner⟩, paid⟩
  · split
    · exact range inner paid
    · split
      · exact ⟨effect, ⟨named, inner⟩, paid⟩
      · exact ⟨effect, trivial, (Nat.le_add_right _ _).trans paid⟩
  · exact ⟨effect, ⟨named, inner⟩, paid⟩
  · split
    · exact range inner paid
    · split
      · exact ⟨effect, ⟨named, inner⟩, paid⟩
      · exact ⟨effect, trivial, (Nat.le_add_right _ _).trans paid⟩
  · exact ⟨effect, ⟨named, inner, trivial⟩, paid⟩
  · exact ⟨effect, trivial, paid⟩
  · exact ⟨effect, ⟨named, inner⟩, paid⟩

theorem sized_found (nothing : P "") {task : Task} {token : Token} (sized : Sized P ⟨progress, task⟩)
    (text : P token.text) : (found token progress task).Sized P := by
  obtain ⟨effect, inner, paid⟩ := sized
  cases task with
  | effectName => exact ⟨⟨text, effect.passes, effect.chunks, effect.properties⟩, trivial, paid⟩
  | effectBrace => exact ⟨effect, trivial, paid⟩
  | chunkName => exact ⟨effect, text, paid⟩
  | chunkBrace name => exact ⟨effect, ⟨inner, by simp, by simp, nothing⟩, paid⟩
  | passName => exact ⟨effect, text, paid⟩
  | passBrace name => exact ⟨effect, inner, paid⟩
  | shaderSign name shaders stage => exact ⟨effect, inner, paid⟩
  | shaderName name shaders stage =>
    refine ⟨effect, inner, ?_⟩
    simp only [found, Task.pending, List.length_append, List.length_cons, List.length_nil] at paid ⊢
    exact Nat.le_trans (by omega) paid
  | propertiesBrace => exact ⟨effect, trivial, paid⟩
  | property name part => exact sized_foundInProperty ⟨effect, inner, paid⟩ text
  | _ => exact ⟨effect, inner, paid⟩

/-- A shader without its sign or its name is added all the same, and so is a property with faulty bounds. -/
theorem sized_missed {task : Task} (sized : Sized P ⟨progress, task⟩) : Sized P ⟨progress, missed task⟩ := by
  obtain ⟨effect, inner, paid⟩ := sized
  have free : progress.effect.volume + 0 ≤ progress.reader.cursor.position := (Nat.le_add_right _ _).trans paid
  unfold missed
  split
  · refine ⟨effect, inner, ?_⟩
    simp only [Task.pending, List.length_append, List.length_cons, List.length_nil] at paid ⊢
    exact Nat.le_trans (by omega) paid
  · refine ⟨effect, inner, ?_⟩
    simp only [Task.pending, List.length_append, List.length_cons, List.length_nil] at paid ⊢
    exact Nat.le_trans (by omega) paid
  · exact ⟨effect, ⟨inner.1, inner.2, trivial⟩, paid⟩
  · exact ⟨effect, ⟨inner.1, inner.2, trivial⟩, paid⟩
  · exact ⟨effect, ⟨inner.1, inner.2, trivial⟩, paid⟩
  · exact ⟨effect, ⟨inner.1, inner.2, trivial⟩, paid⟩
  · exact ⟨effect, trivial, free⟩
  · exact ⟨effect, trivial, free⟩

theorem sized_readDeclaration {token : Token} (effect : progress.effect.Texts P)
    (paid : progress.effect.volume + worth token ≤ progress.reader.cursor.position) :
    (readDeclaration token progress).Sized P := by
  have free : progress.effect.volume ≤ progress.reader.cursor.position := (Nat.le_add_right _ _).trans paid
  unfold readDeclaration
  split_ifs with ended outside closing word
  · exact ⟨effect, trivial, free⟩
  · exact ⟨effect, trivial, by rw [reader, cursor_unclosed]; exact free⟩
  · exact ⟨effect, trivial, free⟩
  · rw [worth_of_ne ended] at paid
    refine ⟨effect, ?_, ?_⟩
    · unfold Task.ofWord
      split <;> exact trivial
    · have one : (Task.ofWord token.text).pending ≤ 1 := by
        unfold Task.ofWord
        split <;> simp [Task.pending]
      exact (Nat.add_le_add_left one _).trans paid
  · exact ⟨effect, trivial, free⟩

theorem sized_readCode {brace token : Token} {braces : Nat} {block : Block} (effect : progress.effect.Texts P)
    (texts : block.chunk.Texts P) (cut : ∀ start stop, P (progress.reader.textBetween start stop))
    (paid : progress.effect.volume + block.chunk.volume + worth token ≤ progress.reader.cursor.position) :
    (readCode brace braces block token progress).Sized P := by
  have whole : progress.effect.volume + block.chunk.volume ≤ progress.reader.cursor.position :=
    (Nat.le_add_right _ _).trans paid
  have free : progress.effect.volume ≤ progress.reader.cursor.position := (Nat.le_add_right _ _).trans whole
  unfold readCode
  split_ifs with ended opening closing last directive uniform
  · exact ⟨effect, trivial, by rw [reader, cursor_unclosed]; exact free⟩
  · exact ⟨effect, texts, whole⟩
  · exact sized_addChunk effect ⟨texts.name, texts.includes, texts.resources, cut _ _⟩ whole
  · exact ⟨effect, texts, whole⟩
  · rw [worth_of_ne ended] at paid
    exact ⟨effect, texts, paid⟩
  · rw [worth_of_ne ended] at paid
    exact ⟨effect, texts, paid⟩
  · exact ⟨effect, texts, whole⟩

theorem texts_readItem {block : Block} {token : Token} (texts : block.chunk.Texts P) (text : P token.text)
    (part : CodeTask) : (readItem block token part).1.chunk.Texts P := by
  unfold readItem
  split
  · exact texts
  · split <;> exact texts
  · exact texts
  · split <;> exact texts
  · exact texts
  · split <;> exact texts
  · refine ⟨texts.name, ?_, texts.resources, texts.code⟩
    intro name member
    rcases List.mem_append.mp member with before | added
    · exact texts.includes name before
    · obtain rfl := List.mem_singleton.mp added
      exact text
  · split <;> exact texts
  · refine ⟨texts.name, texts.includes, ?_, texts.code⟩
    intro resource member
    rcases List.mem_append.mp member with before | added
    · exact texts.resources resource before
    · obtain rfl := List.mem_singleton.mp added
      exact text

/-- An include or a resource is added only at the end of what its sign has begun. -/
theorem volume_readItem (block : Block) (token : Token) {part : CodeTask} (inside : part.inside = 1) :
    (readItem block token part).1.chunk.volume + (readItem block token part).2.inside ≤ block.chunk.volume + 1 := by
  unfold readItem
  split
  · cases inside
  · split <;> simp [CodeTask.inside]
  · split <;> simp [CodeTask.inside]
  · split <;> simp [CodeTask.inside]
  · simp [CodeTask.inside]
  · split <;> simp [CodeTask.inside]
  · simp only [Block.addInclude, Chunk.volume, CodeTask.inside, List.length_append, List.length_cons, List.length_nil]
    omega
  · split <;> simp [CodeTask.inside]
  · simp only [Block.addResource, Chunk.volume, CodeTask.inside, List.length_append, List.length_cons, List.length_nil]
    omega

theorem sized_readPass {name : String} {shaders : List Shader} {token : Token} (effect : progress.effect.Texts P)
    (named : P name)
    (paid : progress.effect.volume + (1 + shaders.length) + worth token ≤ progress.reader.cursor.position) :
    (readPass name shaders token progress).Sized P := by
  have whole : progress.effect.volume + (1 + shaders.length) ≤ progress.reader.cursor.position :=
    (Nat.le_add_right _ _).trans paid
  unfold readPass
  split_ifs with ended closing word
  · exact sized_addPass effect named (by rw [cursor_unclosed]; exact whole)
  · exact sized_addPass effect named whole
  · rw [worth_of_ne ended] at paid
    split
    · exact ⟨effect, named, whole⟩
    · refine ⟨effect, named, ?_⟩
      simp only [Task.pending]
      exact Nat.le_trans (by omega) paid
  · exact ⟨effect, named, whole⟩

theorem sized_readPropertyName {token : Token} (effect : progress.effect.Texts P) (text : P token.text)
    (paid : progress.effect.volume + worth token ≤ progress.reader.cursor.position) :
    (readPropertyName token progress).Sized P := by
  have free : progress.effect.volume ≤ progress.reader.cursor.position := (Nat.le_add_right _ _).trans paid
  unfold readPropertyName
  split_ifs with ended closing word
  · exact ⟨effect, trivial, by rw [reader, cursor_unclosed]; exact free⟩
  · exact ⟨effect, trivial, free⟩
  · rw [worth_of_ne ended] at paid
    exact ⟨effect, ⟨text, trivial⟩, paid⟩
  · exact ⟨effect, trivial, free⟩

theorem texts_defaultValue {name : String} {value result : Property.Value} {token : Token} {reader : Reader}
    (filled : value.Texts P) (text : P token.text) (given : (defaultValue name value token reader).1 = .ok result) :
    result.Texts P := by
  have mapped {f : Double → Property.Value} (given : (literal reader token).map f = .ok result)
      (plain : ∀ number, (f number).Texts P) : result.Texts P := by
    cases met : literal reader token with
    | error error =>
      rw [met] at given
      cases given
    | ok number =>
      rw [met] at given
      cases given
      exact plain number
  unfold defaultValue at given
  split at given
  · cases given
    exact trivial
  · cases given
    exact trivial
  · cases given
    exact trivial
  · cases given
    exact trivial
  · exact mapped given fun _ => trivial
  · exact mapped given fun _ => trivial
  · exact mapped given fun _ => trivial
  · cases given
    exact filled
  · cases given
    exact text
  · cases given

theorem sized_readDefault {name label : String} {value : Property.Value} {token : Token}
    (effect : progress.effect.Texts P) (named : P name) (labelled : P label) (filled : value.Texts P)
    (text : P token.text) (paid : progress.effect.volume + 1 ≤ progress.reader.cursor.position) :
    (readDefault name label value token progress).Sized P := by
  unfold readDefault
  split
  · exact ⟨effect, ⟨named, labelled, filled⟩, paid⟩
  · split
    · rename_i given
      exact sized_addProperty effect named labelled (texts_defaultValue filled text given) paid
    · exact ⟨effect, trivial, (Nat.le_add_right _ _).trans paid⟩

theorem sized_readGroup {name label : String} {value : Property.Value} (depth : Nat) (token : Token)
    (effect : progress.effect.Texts P) (named : P name) (labelled : P label) (filled : value.Texts P)
    (paid : progress.effect.volume + 1 ≤ progress.reader.cursor.position) :
    (readGroup name label value depth token progress).Sized P := by
  have added := sized_addProperty effect named labelled filled paid
  unfold readGroup
  split_ifs
  · exact added
  · exact ⟨effect, ⟨named, labelled, filled⟩, paid⟩
  · exact added
  · exact ⟨effect, ⟨named, labelled, filled⟩, paid⟩
  · exact ⟨effect, ⟨named, labelled, filled⟩, paid⟩

/-- A property has been paid for before its token is looked at, so it is paid for when the reader goes back. -/
theorem sized_readProperty (nothing : P "") {place : Cursor} {name : String} {part : PropertyTask} {token : Token}
    (sized : Sized P ⟨progress, .property name part⟩) (text : P token.text)
    (before : progress.effect.volume + 1 ≤ place.position) : (readProperty place name token progress part).Sized P := by
  obtain ⟨effect, ⟨named, inner⟩, paid⟩ := sized
  unfold readProperty
  split
  · split
    · exact ⟨effect, ⟨named, inner⟩, paid⟩
    · exact sized_typed nothing _ effect named inner paid
  · split
    · exact sized_typed nothing _ effect named inner paid
    · exact sized_typed nothing _ effect named inner before
  · split
    · exact ⟨effect, ⟨named, inner⟩, paid⟩
    · exact ⟨effect, ⟨named, inner, trivial⟩, before⟩
  · split
    · exact ⟨effect, ⟨named, inner⟩, paid⟩
    · exact sized_addProperty effect named inner.1 inner.2 before
  · exact sized_readDefault effect named inner.1 inner.2 text paid
  · exact sized_readGroup _ _ effect named inner.1 inner.2 paid
  · exact ⟨effect, ⟨named, inner⟩, paid⟩

end Steps

/-- No longer than a source. -/
def Short (source : List Char) (text : String) : Prop :=
  text.utf8ByteSize ≤ Utf8.byteLength source

variable {source : List Char} {reader : Reader}

theorem size_next (within : reader.Within source) : Short source reader.next.1.text := by
  obtain ⟨before, rest, whole, located⟩ := within
  obtain ⟨gap, text, tail, later, rfl, lies, -⟩ := located.next
  rw [Short, lies.text, Utf8.utf8ByteSize_ofList, whole]
  simp only [Utf8.byteLength_append]
  omega

theorem size_expect {later : Reader} {kind : Token.Kind} {token : Token} (within : reader.Within source)
    (met : reader.expect kind = (.ok token, later)) : Short source token.text := by
  obtain ⟨-, given⟩ | ⟨-, -, given⟩ | ⟨-, -, given⟩ := reader.expect_cases kind
  · cases given.symm.trans met
    exact Nat.zero_le _
  · cases given.symm.trans met
    exact size_next within
  · cases given.symm.trans met

theorem size_textBetween (within : reader.Within source) (start stop : Nat) :
    Short source (reader.textBetween start stop) := by
  rw [Short, Reader.textBetween, Utf8.utf8ByteSize_ofList, ← within.source_eq]
  exact Utf8.byteLength_slice?_le _ _ _

theorem position_of_expect (kind : Token.Kind) (within : reader.Within source) :
    reader.cursor.position ≤ (reader.expect kind).2.cursor.position := by
  have ordered := within.bounds.position_le
  obtain ⟨-, given⟩ | ⟨-, -, given⟩ | ⟨-, -, given⟩ := reader.expect_cases kind
  · rw [given]
  · rw [given]
    exact ordered
  · rw [given, Reader.cursor_report]
    exact ordered

theorem pending_property (name : String) {part : PropertyTask} (free : part.required? = none) :
    (Task.property name part).pending = 1 := by
  cases part <;> first | rfl | cases free

theorem sized_read {task : Task} (within : reader.Within source) (free : task.required? = none)
    (sized : Sized (Short source) ⟨progress.moveTo reader, task⟩) :
    (read reader.cursor reader.next.1 (progress.moveTo reader.next.2) task).Sized (Short source) := by
  obtain ⟨effect, inner, before⟩ := sized
  have text := size_next within
  have bounds := within.bounds
  have more : progress.effect.volume + task.pending + worth reader.next.1 ≤ reader.next.2.cursor.position := by
    unfold worth
    split
    · exact before.trans bounds.position_le
    · rename_i moves
      exact Nat.lt_of_le_of_lt before (bounds.moves moves)
  have paid : progress.effect.volume + task.pending ≤ reader.next.2.cursor.position := (Nat.le_add_right _ _).trans more
  unfold read
  split
  · exact sized_readDeclaration effect more
  · exact sized_readCode effect inner (size_textBetween within.next) more
  · rename_i brace braces block part elsewhere
    have inside : part.inside = 1 := CodeTask.inside_of_ne elsewhere
    have volume := volume_readItem block reader.next.1 inside
    refine ⟨effect, texts_readItem inner text part, ?_⟩
    rw [Task.pending, inside] at paid
    exact (Nat.add_le_add_left volume _).trans paid
  · exact sized_readPass effect inner more
  · exact sized_readPropertyName effect text more
  · rename_i name part
    have one : (Task.property name part).pending = 1 := pending_property name free
    have stands : Sized (Short source) ⟨progress.moveTo reader.next.2, .property name part⟩ := ⟨effect, inner, paid⟩
    rw [one] at before
    exact sized_readProperty (Nat.zero_le _) stands text before
  · exact ⟨effect, inner, paid⟩

/-- Every step keeps a reading within what its source can hold. -/
theorem sized_step {moment next : Moment} (within : moment.reader.Within source) (sized : moment.Sized (Short source))
    (goes : step moment = some next) : next.Sized (Short source) := by
  obtain ⟨-, free, rfl⟩ | ⟨kind, -, ⟨token, later, met, rfl⟩ | ⟨error, later, unmet, rfl⟩⟩ := step_cases goes
  · exact sized_read within free sized
  · have ordered := position_of_expect kind within
    rw [met] at ordered
    apply sized_found (Nat.zero_le _) ?_ (size_expect within met)
    exact ⟨sized.effect, sized.task, sized.volume.trans ordered⟩
  · have ordered := position_of_expect kind within
    rw [unmet] at ordered
    apply sized_missed
    exact ⟨sized.effect, sized.task, sized.volume.trans ordered⟩

theorem sized_start (source : String) (capacity : LiteralTable.Capacity) :
    (start (.start source capacity)).Sized (Short source.toList) where
  effect := ⟨Nat.zero_le _, by simp [start], by simp [start], by simp [start]⟩
  task := trivial
  volume := Nat.zero_le _

end Moment

end Document

theorem mem_listLengths {α : Type} {lengths : α → List Nat} {values : List α} {length : Nat} :
    length ∈ listLengths lengths values ↔ length = values.length ∨ ∃ value ∈ values, length ∈ lengths value := by
  rw [listLengths, List.mem_cons, List.mem_flatMap]

namespace Effect

variable {effect : Effect} {bound : Nat}

theorem lengths_chunk_le {chunk : Chunk} (formed : chunk.WellFormed)
    (texts : chunk.Texts fun text => text.utf8ByteSize ≤ bound) (few : chunk.volume ≤ bound) :
    ∀ length ∈ chunk.lengths, length ≤ bound := by
  unfold Chunk.volume at few
  have flagged := formed.flagged
  intro length member
  simp only [Chunk.lengths, List.mem_cons, List.mem_append, mem_listLengths, Resource.lengths, List.not_mem_nil,
    or_false, and_false, exists_false] at member
  obtain rfl | (rfl | ⟨name, inside, rfl⟩) | rfl | (rfl | ⟨resource, inside, rfl⟩) | rfl := member
  · exact texts.name
  · omega
  · exact texts.includes name inside
  · omega
  · omega
  · exact texts.resources resource inside
  · exact texts.code

theorem lengths_pass_le {pass : Pass} (formed : pass.WellFormed effect) (named : pass.name.utf8ByteSize ≤ bound)
    (few : pass.volume ≤ bound) : ∀ length ∈ pass.lengths, length ≤ bound := by
  unfold Pass.volume at few
  intro length member
  simp only [Pass.lengths, List.mem_cons, List.mem_append, mem_listLengths, formed.resourceLists, List.length_nil,
    List.not_mem_nil, and_false, exists_false, or_false] at member
  obtain rfl | rfl | rfl := member
  · exact named
  · omega
  · exact Nat.zero_le _

theorem lengths_property_le {property : Property} (texts : property.Texts fun text => text.utf8ByteSize ≤ bound) :
    ∀ length ∈ property.lengths, length ≤ bound := by
  obtain ⟨name, label, value⟩ := property
  obtain ⟨named, labelled, filled⟩ := texts
  intro length member
  simp only [Property.lengths, List.mem_cons] at member
  obtain rfl | rfl | inside := member
  · exact named
  · exact labelled
  · cases value with
    | texture shape default =>
      obtain rfl := List.mem_singleton.mp inside
      exact filled
    | _ => cases inside

/-- The lengths of an effect that a source has given stay below a bound of its texts and of its elements. -/
theorem lengths_le {complaint : Option Unexpected} (formed : effect.WellFormed complaint)
    (texts : effect.Texts fun text => text.utf8ByteSize ≤ bound) (few : effect.volume ≤ bound) :
    ∀ length ∈ effect.lengths, length ≤ bound := by
  have passes : effect.passes.length ≤ (effect.passes.map Pass.volume).sum := by
    have counted := List.length_le_sum_of_one_le (effect.passes.map Pass.volume) (by simp [Pass.volume])
    rwa [List.length_map] at counted
  have chunks : effect.chunks.length ≤ (effect.chunks.map Chunk.volume).sum := by
    have counted := List.length_le_sum_of_one_le (effect.chunks.map Chunk.volume) (by
      simp only [List.mem_map, forall_exists_index, and_imp, Chunk.volume]
      omega)
    rwa [List.length_map] at counted
  unfold volume at few
  intro length member
  simp only [lengths, List.mem_cons, List.mem_append, mem_listLengths, formed.resourceLists, formed.renderStates,
    List.length_nil, List.not_mem_nil, false_and, exists_false, or_false] at member
  obtain rfl | (rfl | ⟨pass, inside, member⟩) | (rfl | ⟨chunk, inside, member⟩) | rfl | rfl |
    (rfl | ⟨property, inside, member⟩) := member
  · exact texts.name
  · omega
  · have elements := List.le_sum_of_mem (List.mem_map_of_mem inside : pass.volume ∈ effect.passes.map Pass.volume)
    exact lengths_pass_le (formed.passes pass inside) (texts.passes pass inside) (by omega) length member
  · omega
  · have elements := List.le_sum_of_mem (List.mem_map_of_mem inside : chunk.volume ∈ effect.chunks.map Chunk.volume)
    exact lengths_chunk_le (formed.chunks chunk inside) (texts.chunks chunk inside) (by omega) length member
  · exact Nat.zero_le _
  · exact Nat.zero_le _
  · omega
  · exact lengths_property_le (texts.properties property inside) length member

end Effect

namespace Document

open Moment

theorem lengths_le_of_parse {source : String} {capacity : LiteralTable.Capacity} {outcome : Outcome}
    (given : parse source capacity = .ok outcome) :
    ∀ length ∈ outcome.effect.lengths, length ≤ source.utf8ByteSize := by
  have formed := wellFormed_of_outcome given
  have first : (Reader.start source capacity).Within source.toList := Reader.within_of_reached .refl
  have keeps (moment next : Moment) (both : moment.reader.Within source.toList ∧ moment.Sized (Short source.toList))
      (goes : step moment = some next) : next.reader.Within source.toList ∧ next.Sized (Short source.toList) :=
    ⟨(move_of_step goes).within both.1, sized_step both.1 both.2 goes⟩
  obtain ⟨last, -, ⟨within, sized⟩, ends⟩ := exists_result_of_invariant (.start source capacity)
    ⟨first, sized_start source capacity⟩ keeps
  unfold parse Document.outcome at given
  split at given
  · cases given
  · rename_i effect later read
    cases given
    rw [read] at ends
    obtain ⟨rfl, -⟩ := eq_of_result?_ok ends
    rw [← Utf8.byteLength_toList]
    apply Effect.lengths_le formed sized.effect
    calc last.progress.effect.volume
      _ ≤ last.progress.effect.volume + last.task.pending := Nat.le_add_right _ _
      _ ≤ last.reader.cursor.position := sized.volume
      _ ≤ Utf8.byteLength source.toList := within.position.le

/-- An effect that was read from a source has no text with more bytes and no list with more elements than the source has
bytes, whatever complaint there is, so that of a source with less than `2 ^ 32` bytes has a binary form. An effect of
any kind lacks one only when a text or a list is too long, and one that is too long is the error. -/
theorem parse_savable :
    (∀ (source : String) (capacity : LiteralTable.Capacity) (outcome : Outcome), parse source capacity = .ok outcome →
      (∀ length ∈ outcome.effect.lengths, length ≤ source.utf8ByteSize) ∧
        (source.utf8ByteSize < 2 ^ 32 → ∃ bytes, outcome.effect.toBytes = .ok bytes)) ∧
    ∀ effect : Effect,
      ((∃ error, effect.toBytes = .error error) ↔ ∃ length ∈ effect.lengths, 2 ^ 32 - 1 < length) ∧
        ∀ error, effect.toBytes = .error error →
          ∃ length ∈ effect.lengths, 2 ^ 32 - 1 < length ∧ error = .lengthOverflow length := by
  have limit : Codec.maxLength = 2 ^ 32 - 1 := rfl
  constructor
  · intro source capacity outcome given
    have bounded := lengths_le_of_parse given
    refine ⟨bounded, ?_⟩
    intro short
    obtain ⟨saved, -⟩ | ⟨length, member, long, -⟩ := outcome.effect.toBytes_cases
    · exact saved
    · have size := bounded length member
      omega
  · intro effect
    obtain ⟨⟨bytes, saved⟩, fits⟩ | ⟨length, member, long, failed⟩ := effect.toBytes_cases
    · refine ⟨⟨?_, ?_⟩, ?_⟩
      · rintro ⟨error, failed⟩
        cases saved.symm.trans failed
      · rintro ⟨length, member, long⟩
        exact absurd (fits length member) (Nat.not_le.mpr long)
      · intro error failed
        cases saved.symm.trans failed
    · refine ⟨⟨fun _ => ⟨length, member, long⟩, fun _ => ⟨_, failed⟩⟩, ?_⟩
      intro error given
      cases failed.symm.trans given
      exact ⟨length, member, long, rfl⟩

/-- After the complaint about its first shader a pass goes on with placeholders for all that is missing. The chunks of
the other effect are one too many. -/
theorem parse_savable_after_complaint :
    let source := "pass p\x7bvertex fragment compute\x7d pass glsl a\x7b#pragma include x\x7d properties \x7b a b"
    let effect : Effect :=
      { passes := [⟨"p", [⟨.vertex, noIndex⟩, ⟨.compute, noIndex⟩], [], noIndex, .compute⟩, {}]
        properties := [⟨"a", "", .unknown⟩] }
    let complaint : Unexpected := ⟨.equals, .identifier, "fragment", 1⟩
    let many : Effect := { chunks := List.replicate (2 ^ 32) {} }
    parse source {} = .ok ⟨effect, some complaint⟩ ∧
      (∀ length ∈ effect.lengths, length ≤ source.utf8ByteSize) ∧ (∃ bytes, effect.toBytes = .ok bytes) ∧
      ∃ error, many.toBytes = .error error := by
  intro source effect complaint many
  have given : parse source {} = .ok ⟨effect, some complaint⟩ := by decide +kernel
  have counted : 2 ^ 32 = many.chunks.length := List.length_replicate.symm
  have listed : 2 ^ 32 ∈ many.lengths :=
    .tail _ (List.mem_append_right _ (List.mem_append_left _ (mem_listLengths.mpr (.inl counted))))
  obtain ⟨parsed, every⟩ := parse_savable
  obtain ⟨bounded, saved⟩ := parsed source {} _ given
  exact ⟨given, bounded, saved (by decide +kernel), (every many).1.mpr ⟨2 ^ 32, listed, by decide⟩⟩

end Document

end EffectLang
