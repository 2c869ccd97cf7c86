import EffectLang.Proofs.Reading.Agreement
import EffectLang.Proofs.Reading.InBounds
import EffectLang.Proofs.Token.Embedding

/-!
The reading of a source inside of a larger one. It goes on from an effect that was read before, takes the same steps as
the reading of the inner source by itself, and adds the same parts. Only a chunk that a shader refers to may be another,
if one of its name came before; and there may be less room for numbers.
-/
namespace EffectLang

open Utf8

theorem Agree.concat {α β : Type} {exact : Prop} {view : α → β} {list list' : List α} {value value' : α}
    (agree : Agree exact (List.map view) list list') (last : Agree exact view value value') :
    Agree exact (List.map view) (list ++ [value]) (list' ++ [value']) where
  shown := by rw [List.map_append, List.map_append, agree.shown, List.map_singleton, last.shown, List.map_singleton]
  same holds := by rw [agree.same holds, last.same holds]

def Shader.outline (shader : Shader) : Shader :=
  { shader with chunkIndex := noIndex }

/-- A pass apart from the chunks that its shaders refer to. -/
def Pass.outline (pass : Pass) : Pass :=
  { pass with shaders := pass.shaders.map Shader.outline }

/-- An effect has the parts of an earlier one, and those of another one behind them. Without chunks in the earlier one
the same shaders refer to the same chunks. -/
structure Effect.Continues (earlier effect effect' : Effect) : Prop where
  chunks : effect'.chunks = earlier.chunks ++ effect.chunks
  properties : effect'.properties = earlier.properties ++ effect.properties
  passes : ∃ later, effect'.passes = earlier.passes ++ later ∧
    Agree (earlier.chunks = []) (List.map Pass.outline) later effect.passes

theorem Effect.continues_refl (earlier : Effect) : earlier.Continues {} earlier where
  chunks := (List.append_nil _).symm
  properties := (List.append_nil _).symm
  passes := ⟨[], (List.append_nil _).symm, .refl _ _ _⟩

namespace Document

open StateTransition

variable {front back : List Char} {earlier : Effect}

theorem agree_resolve {effect effect' : Effect} (continues : earlier.Continues effect effect') (stage : Stage)
    (name : String) :
    Agree (earlier.chunks = []) Shader.outline ⟨stage, resolve effect' name⟩ ⟨stage, resolve effect name⟩ where
  shown := rfl
  same none := by rw [resolve, resolve, Effect.findChunk?, Effect.findChunk?, continues.chunks, none, List.nil_append]

theorem passKind_outline (shaders : List Shader) : passKind (shaders.map Shader.outline) = passKind shaders := by
  rw [passKind, passKind, List.any_map]
  rfl

theorem agree_pass {exact : Prop} {shaders shaders' : List Shader}
    (agree : Agree exact (List.map Shader.outline) shaders' shaders) (name : String) :
    Agree exact Pass.outline { name, shaders := shaders', kind := passKind shaders' }
      { name, shaders, kind := passKind shaders } := by
  refine agree.map (fun shaders => { name, shaders, kind := passKind shaders : Pass }) ?_
  intro shaders shaders' shown
  rw [Pass.outline, Pass.outline, shown, ← passKind_outline shaders, shown, passKind_outline]

namespace Progress

structure Embeds (front back : List Char) (earlier : Effect) (progress progress' : Progress) : Prop where
  effect : earlier.Continues progress.effect progress'.effect
  depth : progress'.depth = progress.depth
  reader : progress.reader.Embeds front back progress'.reader

namespace Embeds

variable {progress progress' : Progress} (embeds : progress.Embeds front back earlier progress')

include embeds

theorem moveTo {reader reader' : Reader} (readers : reader.Embeds front back reader') :
    (progress.moveTo reader).Embeds front back earlier (progress'.moveTo reader') :=
  ⟨embeds.effect, embeds.depth, readers⟩

theorem next (apart : progress.reader.cursor.Apart back) :
    (progress.moveTo progress.reader.next.2).Embeds front back earlier (progress'.moveTo progress'.reader.next.2) :=
  embeds.moveTo (embeds.reader.next apart)

theorem unclosed (token : Token) :
    (Moment.unclosed token progress).Embeds front back earlier (Moment.unclosed (token.behind front) progress') :=
  embeds.moveTo (embeds.reader.report .closeBrace token)

theorem addChunk (chunk : Chunk) :
    (progress.addChunk chunk).Embeds front back earlier (progress'.addChunk chunk) where
  effect :=
    { chunks := by simp only [Progress.addChunk, embeds.effect.chunks, List.append_assoc]
      properties := embeds.effect.properties
      passes := embeds.effect.passes }
  depth := embeds.depth
  reader := embeds.reader

theorem addProperties (properties : List Property) :
    (progress.addProperties properties).Embeds front back earlier (progress'.addProperties properties) where
  effect :=
    { chunks := embeds.effect.chunks
      properties := by simp only [Progress.addProperties, embeds.effect.properties, List.append_assoc]
      passes := embeds.effect.passes }
  depth := embeds.depth
  reader := embeds.reader

theorem addPass {pass pass' : Pass} (agree : Agree (earlier.chunks = []) Pass.outline pass' pass) :
    (progress.addPass pass).Embeds front back earlier (progress'.addPass pass') where
  effect := by
    obtain ⟨later, passes, outlines⟩ := embeds.effect.passes
    refine ⟨embeds.effect.chunks, embeds.effect.properties, later ++ [pass'], ?_, outlines.concat agree⟩
    simp only [Progress.addPass, passes, List.append_assoc]
  depth := embeds.depth
  reader := embeds.reader

end Embeds

end Progress

/-- A task that holds neither a token nor shaders. -/
def Task.isPlain : Task → Bool
  | .chunk _ _ _ _ => false
  | .passLine _ _ => false
  | .shaderSign _ _ _ => false
  | .shaderName _ _ _ => false
  | .property _ (.typeSuffix _ _) => false
  | _ => true

/-- Two readings have the same task. A token that the task holds lies farther behind for the second. -/
inductive Task.Embeds (front : List Char) (exact : Prop) : Task → Task → Prop
  | same {task : Task} (plain : task.isPlain = true) : Embeds front exact task task
  | chunk (brace : Token) (braces : Nat) (block : Block) (part : CodeTask) :
      Embeds front exact (.chunk brace braces block part) (.chunk (brace.behind front) braces block part)
  | passLine (name : String) {shaders shaders' : List Shader}
      (agree : Agree exact (List.map Shader.outline) shaders' shaders) :
      Embeds front exact (.passLine name shaders) (.passLine name shaders')
  | shaderSign (name : String) {shaders shaders' : List Shader} (stage : Stage)
      (agree : Agree exact (List.map Shader.outline) shaders' shaders) :
      Embeds front exact (.shaderSign name shaders stage) (.shaderSign name shaders' stage)
  | shaderName (name : String) {shaders shaders' : List Shader} (stage : Stage)
      (agree : Agree exact (List.map Shader.outline) shaders' shaders) :
      Embeds front exact (.shaderName name shaders stage) (.shaderName name shaders' stage)
  | typeSuffix (name label : String) (number : Token) :
      Embeds front exact (.property name (.typeSuffix label number))
        (.property name (.typeSuffix label (number.behind front)))

theorem Task.Embeds.eq_of_isPlain {exact : Prop} {task task' : Task} (tasks : Task.Embeds front exact task task')
    (plain : task.isPlain = true) : task' = task := by
  cases tasks with
  | same _ => rfl
  | _ => cases plain

namespace Moment

structure Embeds (front back : List Char) (earlier : Effect) (moment moment' : Moment) : Prop where
  progress : moment.progress.Embeds front back earlier moment'.progress
  task : Task.Embeds front (earlier.chunks = []) moment.task moment'.task

def Fails (moment : Moment) : Prop :=
  ∃ error, moment.task = .done (some error)

/-- The second reading goes along with the first, unless the first has failed or the second has overflowed. -/
def EmbedsOrStops (front back : List Char) (earlier : Effect) (moment moment' : Moment) : Prop :=
  moment.Fails ∨ moment'.Overflows ∨ moment.Embeds front back earlier moment'

theorem Embeds.orStops {moment moment' : Moment} (embeds : moment.Embeds front back earlier moment') :
    moment.EmbedsOrStops front back earlier moment' :=
  .inr (.inr embeds)

section Found

variable {progress progress' : Progress} (embeds : progress.Embeds front back earlier progress')

include embeds

theorem embeds_typed (name label type : String) :
    (typed name label type progress).Embeds front back earlier (typed name label type progress') := by
  unfold typed
  split <;> exact ⟨embeds, .same rfl⟩

theorem embedsOrStops_number (recalls : progress.reader.hasError = false → progress.reader.Recalls progress'.reader)
    (name label : String) (token : Token) {next : Double → PropertyTask}
    (plain : ∀ value, Task.isPlain (.property name (next value)) = true) :
    (number name label token next progress).EmbedsOrStops front back earlier
      (number name label (token.behind front) next progress') := by
  unfold number
  rw [embeds.reader.hasError_eq]
  split
  · exact Embeds.orStops ⟨embeds, .same rfl⟩
  · rename_i calm
    have concur : Concur False (literal progress'.reader (token.behind front)) (literal progress.reader token) :=
      concur_literal (recalls (Bool.eq_false_iff.mpr calm)) _ _
    generalize literal progress'.reader (token.behind front) = result', literal progress.reader token = result at concur
    cases concur with
    | ok value => exact Embeds.orStops ⟨embeds, .same (plain value)⟩
    | error agree => exact .inl ⟨_, rfl⟩
    | overflow line result => exact .inr (.inl ⟨line, rfl⟩)

theorem embedsOrStops_found (token : Token) {task task' : Task}
    (tasks : Task.Embeds front (earlier.chunks = []) task task')
    (recalls : task.required? = some .number →
      progress.reader.hasError = false → progress.reader.Recalls progress'.reader) :
    (found token progress task).EmbedsOrStops front back earlier (found (token.behind front) progress' task') := by
  cases tasks with
  | same plain =>
    cases task with
    | effectName =>
      have renamed : earlier.Continues { progress.effect with name := token.text }
          { progress'.effect with name := token.text } :=
        ⟨embeds.effect.chunks, embeds.effect.properties, embeds.effect.passes⟩
      exact Embeds.orStops ⟨⟨renamed, embeds.depth, embeds.reader⟩, .same rfl⟩
    | effectBrace =>
      exact Embeds.orStops ⟨⟨embeds.effect, congrArg (· + 1) embeds.depth, embeds.reader⟩, .same rfl⟩
    | chunkBrace name => exact Embeds.orStops ⟨embeds, .chunk token 1 ⟨{ name }, {}⟩ .code⟩
    | passBrace name => exact Embeds.orStops ⟨embeds, .passLine name (.refl _ _ _)⟩
    | property name part =>
      cases part with
      | low label => exact embedsOrStops_number embeds (recalls rfl) name label token fun _ => rfl
      | high label low => exact embedsOrStops_number embeds (recalls rfl) name label token fun _ => rfl
      | typeSuffix label number => cases plain
      | _ => exact Embeds.orStops ⟨embeds, .same rfl⟩
    | chunk brace braces block part => cases plain
    | passLine name shaders => cases plain
    | shaderSign name shaders stage => cases plain
    | shaderName name shaders stage => cases plain
    | _ => exact Embeds.orStops ⟨embeds, .same rfl⟩
  | chunk brace braces block part => exact Embeds.orStops ⟨embeds, .chunk brace braces block part⟩
  | passLine name agree => exact Embeds.orStops ⟨embeds, .passLine name agree⟩
  | shaderSign name stage agree => exact Embeds.orStops ⟨embeds, .shaderName name stage agree⟩
  | shaderName name stage agree =>
    exact Embeds.orStops ⟨embeds, .passLine name (agree.concat (agree_resolve embeds.effect stage token.text))⟩
  | typeSuffix name label number => exact Embeds.orStops ⟨embeds, .typeSuffix name label number⟩

end Found

theorem embeds_missed {exact : Prop} {task task' : Task} (tasks : Task.Embeds front exact task task') :
    Task.Embeds front exact (missed task) (missed task') := by
  cases tasks with
  | same plain =>
    have still : (missed task).isPlain = true := by
      unfold missed
      split
      · cases plain
      · cases plain
      all_goals rfl
    exact .same still
  | shaderSign name stage agree => exact .passLine name (agree.concat (.refl _ _ _))
  | shaderName name stage agree => exact .passLine name (agree.concat (.refl _ _ _))
  | _ => exact .same rfl

section Read

variable {progress progress' : Progress} (embeds : progress.Embeds front back earlier progress') (token : Token)

include embeds

theorem embeds_readDeclaration :
    (readDeclaration token progress).Embeds front back earlier (readDeclaration (token.behind front) progress') := by
  have plain (word : String) : (Task.ofWord word).isPlain = true := by
    unfold Task.ofWord
    split <;> rfl
  unfold readDeclaration
  rw [Token.kind_behind, Token.text_behind, embeds.depth]
  split_ifs
  · exact ⟨embeds, .same rfl⟩
  · exact ⟨embeds.unclosed token, .same rfl⟩
  · exact ⟨⟨embeds.effect, rfl, embeds.reader⟩, .same rfl⟩
  · exact ⟨embeds, .same (plain _)⟩
  · exact ⟨embeds, .same rfl⟩

theorem embeds_readCode {brace : Token} (opened : IsCut progress.reader.source brace.stop)
    (closed : IsCut progress.reader.source token.offset) (ordered : brace.stop ≤ token.offset) (braces : Nat)
    (block : Block) :
    (readCode brace braces block token progress).Embeds front back earlier
      (readCode (brace.behind front) braces block (token.behind front) progress') := by
  have code : progress'.reader.textBetween (min (brace.behind front).stop (token.behind front).offset)
        (token.behind front).offset =
      progress.reader.textBetween (min brace.stop token.offset) token.offset := by
    have later : (brace.behind front).stop ≤ (token.behind front).offset := by
      rw [Token.stop_behind]
      exact Nat.add_le_add_left ordered _
    rw [Nat.min_eq_left ordered, Nat.min_eq_left later, Token.stop_behind]
    exact embeds.reader.textBetween opened closed ordered
  unfold readCode Token.isKeyword
  rw [code, Token.kind_behind, Token.text_behind]
  split_ifs
  · exact ⟨embeds.unclosed token, .same rfl⟩
  · exact ⟨embeds, .chunk _ _ _ _⟩
  · exact ⟨embeds.addChunk _, .same rfl⟩
  all_goals exact ⟨embeds, .chunk _ _ _ _⟩

theorem embeds_readPass (name : String) {shaders shaders' : List Shader}
    (agree : Agree (earlier.chunks = []) (List.map Shader.outline) shaders' shaders) :
    (readPass name shaders token progress).Embeds front back earlier
      (readPass name shaders' (token.behind front) progress') := by
  unfold readPass
  rw [Token.kind_behind, Token.text_behind]
  split_ifs
  · exact ⟨(embeds.unclosed token).addPass (agree_pass agree name), .same rfl⟩
  · exact ⟨embeds.addPass (agree_pass agree name), .same rfl⟩
  · cases lineStage? token.text with
    | none => exact ⟨embeds, .passLine name agree⟩
    | some stage => exact ⟨embeds, .shaderSign name stage agree⟩
  · exact ⟨embeds, .passLine name agree⟩

theorem embeds_readPropertyName :
    (readPropertyName token progress).Embeds front back earlier
      (readPropertyName (token.behind front) progress') := by
  unfold readPropertyName
  rw [Token.kind_behind, Token.text_behind]
  split_ifs
  · exact ⟨embeds.unclosed token, .same rfl⟩
  all_goals exact ⟨embeds, .same rfl⟩

theorem embeds_addProperty (name label : String) (value : Property.Value) :
    (addProperty name label value progress).Embeds front back earlier (addProperty name label value progress') :=
  ⟨embeds.addProperties _, .same rfl⟩

theorem embeds_readGroup (name label : String) (value : Property.Value) (depth : Nat) :
    (readGroup name label value depth token progress).Embeds front back earlier
      (readGroup name label value depth (token.behind front) progress') := by
  unfold readGroup
  rw [Token.kind_behind]
  split_ifs
  · exact embeds_addProperty embeds name label value
  · exact ⟨embeds, .same rfl⟩
  · exact embeds_addProperty embeds name label value
  all_goals exact ⟨embeds, .same rfl⟩

theorem embedsOrStops_readDefault (recalls : token.kind = .number → progress.reader.Recalls progress'.reader)
    (name label : String) (value : Property.Value) :
    (readDefault name label value token progress).EmbedsOrStops front back earlier
      (readDefault name label value (token.behind front) progress') := by
  unfold readDefault
  rw [Token.kind_behind]
  split
  · exact Embeds.orStops ⟨embeds, .same rfl⟩
  · have concur : Concur False (defaultValue name value (token.behind front) progress'.reader).1
        (defaultValue name value token progress.reader).1 := by
      apply concur_defaultValue _ (Token.agree_behind front token)
      exact recalls
    generalize (defaultValue name value (token.behind front) progress'.reader).1 = result',
      (defaultValue name value token progress.reader).1 = result at concur
    cases concur with
    | ok value => exact (embeds_addProperty embeds name label value).orStops
    | error agree => exact .inl ⟨_, rfl⟩
    | overflow line result => exact .inr (.inl ⟨line, rfl⟩)

end Read

section Steps

variable {progress progress' : Progress} (embeds : progress.Embeds front back earlier progress')
  (apart : progress.reader.cursor.Apart back)

include embeds apart

theorem embeds_readSuffix (name label : String) {number : Token} (begun : IsCut progress.reader.source number.offset)
    (bounds : progress.reader.Bounds progress.reader.source)
    (before : number.offset ≤ progress.reader.cursor.position) :
    (readProperty progress.reader.cursor name progress.reader.next.1 (progress.moveTo progress.reader.next.2)
        (.typeSuffix label number)).Embeds front back earlier
      (readProperty progress'.reader.cursor name progress'.reader.next.1 (progress'.moveTo progress'.reader.next.2)
        (.typeSuffix label (number.behind front))) := by
  have moved := embeds.next apart
  have joined : (progress'.reader.next.2.join (number.behind front) (progress.reader.next.1.behind front)).text =
      (progress.reader.next.2.join number progress.reader.next.1).text := by
    have ordered := before.trans (bounds.ahead.trans (Token.offset_le_stop _))
    simp only [Reader.join, Token.stop_behind]
    rw [← progress.reader.source_next] at begun
    exact moved.reader.textBetween begun (progress.reader.source_next ▸ bounds.stop) ordered
  simp only [readProperty, embeds.reader.token apart, Token.kind_behind]
  split
  · simp only [Progress.reader_moveTo, joined]
    exact embeds_typed moved name label _
  · exact embeds_typed (embeds.moveTo (embeds.reader.look apart)) name label number.text

theorem embedsOrStops_readProperty (name : String) {part : PropertyTask}
    (plain : Task.isPlain (.property name part) = true) :
    (readProperty progress.reader.cursor name progress.reader.next.1 (progress.moveTo progress.reader.next.2)
        part).EmbedsOrStops front back earlier
      (readProperty progress'.reader.cursor name progress'.reader.next.1 (progress'.moveTo progress'.reader.next.2)
        part) := by
  have moved := embeds.next apart
  have looked := embeds.moveTo (embeds.reader.look apart)
  have token := embeds.reader.token apart
  cases part with
  | typeName label =>
    simp only [readProperty, token, Token.kind_behind, Token.text_behind]
    split
    · exact Embeds.orStops ⟨moved, .typeSuffix name label _⟩
    · exact (embeds_typed moved name label _).orStops
  | typeSuffix label number => cases plain
  | bounds label =>
    simp only [readProperty, token, Token.kind_behind]
    split
    · exact Embeds.orStops ⟨moved, .same rfl⟩
    · exact Embeds.orStops ⟨looked, .same rfl⟩
  | sign label value =>
    simp only [readProperty, token, Token.kind_behind]
    split
    · exact Embeds.orStops ⟨moved, .same rfl⟩
    · exact (embeds_addProperty looked name label value).orStops
  | default label value =>
    rw [token]
    exact embedsOrStops_readDefault moved _ (embeds.reader.recalls apart) name label value
  | group label value depth =>
    rw [token]
    exact (embeds_readGroup moved _ name label value depth).orStops
  | _ => exact Embeds.orStops ⟨moved, .same rfl⟩

end Steps

variable {moment moment' next : Moment}

theorem embedsOrStops_read (embeds : moment.Embeds front back earlier moment') (fits : moment.Fits moment.reader.source)
    (apart : moment.reader.cursor.Apart back) :
    (read moment.reader.cursor moment.reader.next.1 (moment.progress.moveTo moment.reader.next.2)
        moment.task).EmbedsOrStops front back earlier
      (read moment'.reader.cursor moment'.reader.next.1 (moment'.progress.moveTo moment'.reader.next.2)
        moment'.task) := by
  have bounds := fits.within.bounds
  obtain ⟨progress, task⟩ := moment
  obtain ⟨progress', task'⟩ := moment'
  obtain ⟨reached, tasks⟩ := embeds
  have moved := reached.next apart
  have token : progress'.reader.next.1 = progress.reader.next.1.behind front := reached.reader.token apart
  cases tasks with
  | same plain =>
    cases task with
    | declaration =>
      simp only [read, reader, token]
      exact (embeds_readDeclaration moved _).orStops
    | propertyName =>
      simp only [read, reader, token]
      exact (embeds_readPropertyName moved _).orStops
    | property name part => exact embedsOrStops_readProperty reached apart name plain
    | chunk brace braces block part => cases plain
    | passLine name shaders => cases plain
    | shaderSign name shaders stage => cases plain
    | shaderName name shaders stage => cases plain
    | _ => exact Embeds.orStops ⟨moved, .same rfl⟩
  | chunk brace braces block part =>
    obtain ⟨⟨opened, before⟩, -, -⟩ := fits.task
    by_cases code : part = .code
    · subst code
      simp only [read, reader, token]
      refine (embeds_readCode moved _ ?_ ?_ (before.trans bounds.ahead) braces block).orStops
      · exact progress.reader.source_next ▸ opened
      · exact progress.reader.source_next ▸ bounds.offset
    · simp only [read, reader, token, readItem_eq (Token.agree_behind front progress.reader.next.1).shown]
      exact Embeds.orStops ⟨moved, .chunk _ _ _ _⟩
  | passLine name agree =>
    simp only [read, reader, token]
    exact (embeds_readPass moved _ name agree).orStops
  | shaderSign name stage agree => exact Embeds.orStops ⟨moved, .shaderSign name stage agree⟩
  | shaderName name stage agree => exact Embeds.orStops ⟨moved, .shaderName name stage agree⟩
  | typeSuffix name label number =>
    obtain ⟨begun, before⟩ := fits.task
    exact (embeds_readSuffix reached apart name label begun bounds before).orStops

/-- Each step of the reading by itself is also one of the reading in the larger source. -/
theorem Embeds.step {source : List Char} (embeds : moment.Embeds front back earlier moment')
    (fits : moment.Fits source) (apart : moment.reader.cursor.Apart back) (goes : step moment = some next) :
    ∃ next', Moment.step moment' = some next' ∧ next.EmbedsOrStops front back earlier next' := by
  obtain rfl : moment.reader.source = source := fits.within.source_eq
  have readings := embedsOrStops_read embeds fits apart
  obtain ⟨progress, task⟩ := moment
  obtain ⟨progress', task'⟩ := moment'
  obtain ⟨reached, tasks⟩ := embeds
  have same : task'.isDone = task.isDone ∧ task'.required? = task.required? := by
    cases tasks <;> exact ⟨rfl, rfl⟩
  obtain ⟨running, required, rfl⟩ | ⟨kind, required, goes⟩ := step_cases goes
  · exact ⟨_, step_read progress' (same.1.trans running) (same.2.trans required), readings⟩
  · have required' : task'.required? = some kind := same.2.trans required
    obtain ⟨token, later, later', met, met', readers, recalls⟩ |
      ⟨error, later, error', later', unmet, unmet', readers⟩ := reached.reader.expect apart kind
    · obtain ⟨_, _, given, rfl⟩ | ⟨_, _, given, -⟩ := goes
      · cases met.symm.trans given
        refine ⟨_, step_found progress' required' met', embedsOrStops_found (reached.moveTo readers) token tasks ?_⟩
        intro number
        exact recalls (Option.some.inj (required.symm.trans number))
      · cases met.symm.trans given
    · obtain ⟨_, _, given, -⟩ | ⟨_, _, given, rfl⟩ := goes
      · cases unmet.symm.trans given
      · cases unmet.symm.trans given
        exact ⟨_, step_missed progress' required' unmet',
          Embeds.orStops ⟨reached.moveTo readers, embeds_missed tasks⟩⟩

/-- A reading by itself and one that is under way from some moment on are at the same point. -/
structure InStep (front back : List Char) (earlier : Effect) (source : List Char) (first moment moment' : Moment) :
    Prop where
  course : Reaches step first moment'
  embeds : moment.Embeds front back earlier moment'
  fits : moment.Fits source

theorem InStep.step {source : List Char} {first : Moment}
    (inStep : InStep front back earlier source first moment moment') (apart : moment.reader.cursor.Apart back)
    (calm : ∀ later, Reaches Moment.step first later → ¬later.Overflows) (goes : Moment.step moment = some next) :
    next.Fails ∨ ∃ next', InStep front back earlier source first next next' := by
  obtain ⟨next', goes', failed | overflows | embeds⟩ := inStep.embeds.step inStep.fits apart goes
  · exact .inl failed
  · exact absurd overflows (calm next' (inStep.course.tail goes'))
  · exact .inr ⟨next', inStep.course.tail goes', embeds, fits_step inStep.fits goes⟩

end Moment

end Document

end EffectLang
