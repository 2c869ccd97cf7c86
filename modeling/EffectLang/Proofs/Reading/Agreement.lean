import EffectLang.Proofs.Reading.Step
import EffectLang.Proofs.Token.SideBySide

/-!
Two readings side by side, of sources that may differ in layout and with literal tables of which the first may have less
room. They take the same steps, until the first is in need of a number that it has dropped. So the layout of a source
shows in nothing but the lines of complaints and the code of chunks, and the room for literals shows in nothing but an
overflow.
-/
namespace EffectLang

/-- An error apart from its line. -/
def Error.unlined : Error → Error
  | .unexpectedToken found => .unexpectedToken found.unlined
  | .unsupportedDefault property text _ => .unsupportedDefault property text 0
  | .literalOverflow _ => .literalOverflow 0
  | error => error

def Chunk.uncoded (chunk : Chunk) : Chunk :=
  { chunk with code := "" }

/-- An effect apart from the code of its chunks. -/
def Effect.uncoded (effect : Effect) : Effect :=
  { effect with chunks := effect.chunks.map Chunk.uncoded }

theorem Effect.findChunk?_uncoded (effect : Effect) (name : String) :
    effect.uncoded.findChunk? name = effect.findChunk? name := by
  simp only [findChunk?, uncoded, List.findIdx?_map]
  rfl

namespace Document

open StateTransition

variable {exact : Prop}

theorem resolve_of_uncoded {effect effect' : Effect} (shown : effect.uncoded = effect'.uncoded) (name : String) :
    resolve effect name = resolve effect' name := by
  rw [resolve, resolve, ← effect.findChunk?_uncoded, shown, effect'.findChunk?_uncoded]

namespace Progress

structure Alike (exact : Prop) (progress progress' : Progress) : Prop where
  effect : Agree exact Effect.uncoded progress.effect progress'.effect
  depth : progress.depth = progress'.depth
  reader : progress.reader.Alike exact progress'.reader

variable {progress progress' : Progress}

theorem Alike.moveTo (alike : progress.Alike exact progress') {reader reader' : Reader}
    (readers : reader.Alike exact reader') : (progress.moveTo reader).Alike exact (progress'.moveTo reader') :=
  ⟨alike.effect, alike.depth, readers⟩

theorem Alike.next (alike : progress.Alike exact progress') :
    (progress.moveTo progress.reader.next.2).Alike exact (progress'.moveTo progress'.reader.next.2) :=
  alike.moveTo alike.reader.next

theorem Alike.update (alike : progress.Alike exact progress') (change : Effect → Effect)
    (codeless : ∀ effect, (change effect).uncoded = change effect.uncoded) :
    Alike exact { progress with effect := change progress.effect }
      { progress' with effect := change progress'.effect } where
  effect := alike.effect.map change fun effect effect' shown => by rw [codeless, codeless, shown]
  depth := alike.depth
  reader := alike.reader

theorem Alike.addPass (alike : progress.Alike exact progress') (pass : Pass) :
    (progress.addPass pass).Alike exact (progress'.addPass pass) :=
  alike.update (fun effect => { effect with passes := effect.passes ++ [pass] }) fun _ => rfl

theorem Alike.addProperties (alike : progress.Alike exact progress') (properties : List Property) :
    (progress.addProperties properties).Alike exact (progress'.addProperties properties) :=
  alike.update (fun effect => { effect with properties := effect.properties ++ properties }) fun _ => rfl

theorem Alike.addChunk (alike : progress.Alike exact progress') {chunk chunk' : Chunk}
    (agree : Agree exact Chunk.uncoded chunk chunk') :
    (progress.addChunk chunk).Alike exact (progress'.addChunk chunk') where
  effect := by
    unfold Progress.addChunk
    refine ⟨?_, fun holds => by rw [alike.effect.same holds, agree.same holds]⟩
    have uncoded (effect : Effect) (chunk : Chunk) :
        Effect.uncoded { effect with chunks := effect.chunks ++ [chunk] } =
          { effect.uncoded with chunks := effect.uncoded.chunks ++ [chunk.uncoded] } := by
      simp only [Effect.uncoded, List.map_append, List.map_cons, List.map_nil]
    rw [uncoded, uncoded, alike.effect.shown, agree.shown]
  depth := alike.depth
  reader := alike.reader

theorem Alike.unclosed (alike : progress.Alike exact progress') {token token' : Token}
    (agree : Agree exact Token.spelling token token') :
    (Moment.unclosed token progress).Alike exact (Moment.unclosed token' progress') :=
  alike.moveTo (alike.reader.report .closeBrace agree)

end Progress

/-- A task is in the middle of a type name, which a word may complete. -/
def Task.isSuffix : Task → Bool
  | .property _ (.typeSuffix _ _) => true
  | _ => false

/-- Two readings have the same task. A token that the task holds may lie elsewhere; a number that may begin a type name
makes a name for the same type with the word that comes next. -/
inductive Task.Alike (exact : Prop) (reader reader' : Reader) : Task → Task → Prop
  | same {task : Task} (plain : task.isSuffix = false) : Alike exact reader reader' task task
  | chunk {brace brace' : Token} {braces : Nat} {block : Block} {part : CodeTask} (same : exact → brace = brace') :
      Alike exact reader reader' (.chunk brace braces block part) (.chunk brace' braces block part)
  | typeSuffix {name label : String} {number number' : Token} (text : number.text = number'.text)
      (joined : reader.next.1.kind = .identifier →
        Property.Kind.ofTypeName (reader.next.2.join number reader.next.1).text =
          Property.Kind.ofTypeName (reader'.next.2.join number' reader'.next.1).text) :
      Alike exact reader reader' (.property name (.typeSuffix label number))
        (.property name (.typeSuffix label number'))
  | done {error error' : Error} (agree : Agree exact Error.unlined error error') :
      Alike exact reader reader' (.done (some error)) (.done (some error'))

namespace Moment

structure Alike (exact : Prop) (moment moment' : Moment) : Prop where
  progress : moment.progress.Alike exact moment'.progress
  task : Task.Alike exact moment.reader moment'.reader moment.task moment'.task

/-- The reading has ended for lack of a number that it had no room for. -/
def Overflows (moment : Moment) : Prop :=
  ∃ line, moment.task = .done (some (.literalOverflow line))

/-- The first reading has overflowed, or the two are at the same point. -/
def Abreast (exact : Prop) (moment moment' : Moment) : Prop :=
  moment.Overflows ∨ moment.Alike exact moment'

section Found

variable {progress progress' : Progress} {token token' : Token}

theorem alike_typed (alike : progress.Alike exact progress') (name label : String) {type type' : String}
    (kinds : Property.Kind.ofTypeName type = .ofTypeName type') :
    (typed name label type progress).Alike exact (typed name label type' progress') := by
  unfold typed
  rw [kinds]
  split <;> exact ⟨alike, .same rfl⟩

/-- Two results are the same apart from the line of an error, or the first is an overflow. -/
inductive Concur {α : Type} (exact : Prop) : Except Error α → Except Error α → Prop
  | ok (value : α) : Concur exact (.ok value) (.ok value)
  | error {error error' : Error} (agree : Agree exact Error.unlined error error') :
      Concur exact (.error error) (.error error')
  | overflow (line : Nat) (result : Except Error α) : Concur exact (.error (.literalOverflow line)) result

theorem Concur.map {α β : Type} {result result' : Except Error α} (concur : Concur exact result result') (f : α → β) :
    Concur exact (result.map f) (result'.map f) := by
  cases concur with
  | ok value => exact .ok (f value)
  | error agree => exact .error agree
  | overflow line result => exact .overflow line _

theorem concur_literal {reader reader' : Reader}
    (last : reader.lastLiteral? = reader'.lastLiteral? ∨ reader.lastLiteral? = none) (token token' : Token) :
    Concur exact (literal reader token) (literal reader' token') := by
  unfold literal
  obtain same | lacking := last
  · rw [← same]
    cases reader.lastLiteral? with
    | none => exact .overflow _ _
    | some value => exact .ok value
  · rw [lacking]
    exact .overflow _ _

theorem abreast_number (alike : progress.Alike exact progress') (name label : String)
    {next : Double → PropertyTask} (plain : ∀ value, Task.isSuffix (.property name (next value)) = false) :
    (number name label token next progress).Abreast exact (number name label token' next progress') := by
  unfold number
  rw [← alike.reader.hasError_eq]
  split
  · exact .inr ⟨alike, .same rfl⟩
  · have concur : Concur exact (literal progress.reader token) (literal progress'.reader token') :=
      concur_literal alike.reader.narrower.last token token'
    generalize literal progress.reader token = result, literal progress'.reader token' = result' at concur
    cases concur with
    | ok value => exact .inr ⟨alike, .same (plain value)⟩
    | error agree => exact .inr ⟨alike, .done agree⟩
    | overflow line result => exact .inl ⟨line, rfl⟩

theorem abreast_found (alike : progress.Alike exact progress') (agree : Agree exact Token.spelling token token')
    {task : Task} (plain : task.isSuffix = false) :
    (found token progress task).Abreast exact (found token' progress' task) := by
  obtain ⟨-, texts⟩ := Token.spelling_eq_iff.mp agree.shown
  cases task with
  | effectName =>
    rw [found, found, texts]
    exact .inr ⟨alike.update (fun effect => { effect with name := token'.text }) fun _ => rfl, .same rfl⟩
  | effectBrace =>
    exact .inr ⟨⟨alike.effect, congrArg (· + 1) alike.depth, alike.reader⟩, .same rfl⟩
  | chunkName =>
    rw [found, found, texts]
    exact .inr ⟨alike, .same rfl⟩
  | chunkBrace name => exact .inr ⟨alike, .chunk agree.same⟩
  | passName =>
    rw [found, found, texts]
    exact .inr ⟨alike, .same rfl⟩
  | shaderName name shaders stage =>
    rw [found, found, texts, resolve_of_uncoded alike.effect.shown]
    exact .inr ⟨alike, .same rfl⟩
  | property name part =>
    cases part with
    | label =>
      simp only [found, foundInProperty, texts]
      exact .inr ⟨alike, .same rfl⟩
    | low label => exact abreast_number alike name label fun _ => rfl
    | high label low => exact abreast_number alike name label fun _ => rfl
    | typeSuffix label number => cases plain
    | _ => exact .inr ⟨alike, .same rfl⟩
  | _ => exact .inr ⟨alike, .same rfl⟩

end Found

section Read

variable {progress progress' : Progress} {token token' : Token}

theorem alike_readDeclaration (alike : progress.Alike exact progress')
    (agree : Agree exact Token.spelling token token') :
    (readDeclaration token progress).Alike exact (readDeclaration token' progress') := by
  obtain ⟨kinds, texts⟩ := Token.spelling_eq_iff.mp agree.shown
  have plain (word : String) : (Task.ofWord word).isSuffix = false := by
    unfold Task.ofWord
    split <;> rfl
  unfold readDeclaration
  rw [← kinds, ← texts, ← alike.depth]
  split_ifs
  · exact ⟨alike, .same rfl⟩
  · exact ⟨alike.unclosed agree, .same rfl⟩
  · exact ⟨⟨alike.effect, rfl, alike.reader⟩, .same rfl⟩
  · exact ⟨alike, .same (plain _)⟩
  · exact ⟨alike, .same rfl⟩

theorem alike_readCode (alike : progress.Alike exact progress') (agree : Agree exact Token.spelling token token')
    {brace brace' : Token} (same : exact → brace = brace') (braces : Nat) (block : Block) :
    (readCode brace braces block token progress).Alike exact (readCode brace' braces block token' progress') := by
  obtain ⟨kinds, texts⟩ := Token.spelling_eq_iff.mp agree.shown
  have code : Agree exact Chunk.uncoded
      { block.chunk with code := progress.reader.textBetween (min brace.stop token.offset) token.offset }
      { block.chunk with code := progress'.reader.textBetween (min brace'.stop token'.offset) token'.offset } := by
    refine ⟨rfl, ?_⟩
    intro holds
    rw [same holds, agree.same holds, Reader.textBetween, (alike.reader.place holds).1, Reader.textBetween]
  unfold readCode Token.isKeyword
  rw [← kinds, ← texts]
  split_ifs
  · exact ⟨alike.unclosed agree, .same rfl⟩
  · exact ⟨alike, .chunk same⟩
  · exact ⟨alike.addChunk code, .same rfl⟩
  all_goals exact ⟨alike, .chunk same⟩

theorem readItem_eq (agree : token.spelling = token'.spelling) (block : Block) (part : CodeTask) :
    readItem block token part = readItem block token' part := by
  obtain ⟨kinds, texts⟩ := Token.spelling_eq_iff.mp agree
  unfold readItem Token.isKeyword
  rw [kinds, texts]

theorem alike_readPass (alike : progress.Alike exact progress') (agree : Agree exact Token.spelling token token')
    (name : String) (shaders : List Shader) :
    (readPass name shaders token progress).Alike exact (readPass name shaders token' progress') := by
  obtain ⟨kinds, texts⟩ := Token.spelling_eq_iff.mp agree.shown
  unfold readPass
  rw [← kinds, ← texts]
  split_ifs
  · exact ⟨(alike.unclosed agree).addPass _, .same rfl⟩
  · exact ⟨alike.addPass _, .same rfl⟩
  · split <;> exact ⟨alike, .same rfl⟩
  · exact ⟨alike, .same rfl⟩

theorem alike_readPropertyName (alike : progress.Alike exact progress')
    (agree : Agree exact Token.spelling token token') :
    (readPropertyName token progress).Alike exact (readPropertyName token' progress') := by
  obtain ⟨kinds, texts⟩ := Token.spelling_eq_iff.mp agree.shown
  unfold readPropertyName
  rw [← kinds, ← texts]
  split_ifs
  · exact ⟨alike.unclosed agree, .same rfl⟩
  all_goals exact ⟨alike, .same rfl⟩

theorem alike_addProperty (alike : progress.Alike exact progress') (name label : String) (value : Property.Value) :
    (addProperty name label value progress).Alike exact (addProperty name label value progress') :=
  ⟨alike.addProperties _, .same rfl⟩

theorem alike_readGroup (alike : progress.Alike exact progress') (agree : Agree exact Token.spelling token token')
    (name label : String) (value : Property.Value) (depth : Nat) :
    (readGroup name label value depth token progress).Alike exact
      (readGroup name label value depth token' progress') := by
  obtain ⟨kinds, -⟩ := Token.spelling_eq_iff.mp agree.shown
  unfold readGroup
  rw [← kinds]
  split_ifs
  · exact alike_addProperty alike name label value
  · exact ⟨alike, .same rfl⟩
  · exact alike_addProperty alike name label value
  all_goals exact ⟨alike, .same rfl⟩

theorem concur_defaultValue {reader reader' : Reader}
    (last : token.kind = .number → reader.lastLiteral? = reader'.lastLiteral? ∨ reader.lastLiteral? = none)
    (agree : Agree exact Token.spelling token token') (name : String) (value : Property.Value) :
    Concur exact (defaultValue name value token reader).1 (defaultValue name value token' reader').1 := by
  obtain ⟨kinds, texts⟩ := Token.spelling_eq_iff.mp agree.shown
  have refused : Agree exact Error.unlined (.unsupportedDefault name token.text token.line)
      (.unsupportedDefault name token'.text token'.line) := by
    refine agree.map (fun token => Error.unsupportedDefault name token.text token.line) ?_
    intro token token' spelled
    simp only [Error.unlined, (Token.spelling_eq_iff.mp spelled).2]
  rw [← texts] at refused
  have value (number : token.kind = .number) : Concur exact (literal reader token) (literal reader' token') :=
    concur_literal (last number) token token'
  unfold defaultValue
  rw [← kinds, ← texts]
  split
  · exact .ok _
  · exact .ok _
  · exact .ok _
  · exact .ok _
  · rename_i number
    exact (value number).map _
  · rename_i number
    exact (value number).map _
  · rename_i number
    exact (value number).map _
  · exact .ok _
  · exact .ok _
  · exact .error refused

theorem abreast_readDefault (alike : progress.Alike exact progress') (agree : Agree exact Token.spelling token token')
    (name label : String) (value : Property.Value) :
    (readDefault name label value token progress).Abreast exact (readDefault name label value token' progress') := by
  obtain ⟨kinds, -⟩ := Token.spelling_eq_iff.mp agree.shown
  unfold readDefault
  rw [← kinds]
  split
  · exact .inr ⟨alike, .same rfl⟩
  · have concur := concur_defaultValue (fun _ => alike.reader.narrower.last) agree name value
    generalize (defaultValue name value token progress.reader).1 = result,
      (defaultValue name value token' progress'.reader).1 = result' at concur
    cases concur with
    | ok value => exact .inr (alike_addProperty alike name label value)
    | error agree => exact .inr ⟨alike, .done agree⟩
    | overflow line result => exact .inl ⟨line, rfl⟩

theorem alike_readSuffix (alike : progress.Alike exact progress') (name label : String) {number number' : Token}
    (text : number.text = number'.text)
    (joined : progress.reader.next.1.kind = .identifier →
      Property.Kind.ofTypeName (progress.reader.next.2.join number progress.reader.next.1).text =
        Property.Kind.ofTypeName (progress'.reader.next.2.join number' progress'.reader.next.1).text) :
    (readProperty progress.reader.cursor name progress.reader.next.1 (progress.moveTo progress.reader.next.2)
        (.typeSuffix label number)).Alike exact
      (readProperty progress'.reader.cursor name progress'.reader.next.1 (progress'.moveTo progress'.reader.next.2)
        (.typeSuffix label number')) := by
  obtain ⟨kinds, -⟩ := Token.spelling_eq_iff.mp alike.reader.token.shown
  simp only [readProperty, ← kinds]
  split
  · rename_i word
    exact alike_typed alike.next name label (joined word)
  -- Any other token is only looked at, and the number is a name by itself.
  · exact alike_typed (alike.moveTo alike.reader.look) name label (congrArg _ text)

theorem abreast_readProperty (alike : progress.Alike exact progress') (name : String) {part : PropertyTask}
    (plain : Task.isSuffix (.property name part) = false) :
    (readProperty progress.reader.cursor name progress.reader.next.1 (progress.moveTo progress.reader.next.2)
        part).Abreast exact
      (readProperty progress'.reader.cursor name progress'.reader.next.1 (progress'.moveTo progress'.reader.next.2)
        part) := by
  obtain ⟨kinds, texts⟩ := Token.spelling_eq_iff.mp alike.reader.token.shown
  have looked := alike.moveTo alike.reader.look
  cases part with
  | typeName label =>
    simp only [readProperty, ← kinds]
    split
    · rename_i number
      obtain ⟨source, within⟩ := alike.reader.within
      obtain ⟨source', within'⟩ := alike.reader.within'
      exact .inr ⟨alike.next, .typeSuffix texts (alike.reader.ahead.ofTypeName_join within within' number)⟩
    · exact .inr (alike_typed alike.next name label (congrArg _ texts))
  | typeSuffix label number => cases plain
  | bounds label =>
    simp only [readProperty, ← kinds]
    split
    · exact .inr ⟨alike.next, .same rfl⟩
    · exact .inr ⟨looked, .same rfl⟩
  | sign label value =>
    simp only [readProperty, ← kinds]
    split
    · exact .inr ⟨alike.next, .same rfl⟩
    · exact .inr (alike_addProperty looked name label value)
  | default label value => exact abreast_readDefault alike.next alike.reader.token name label value
  | group label value depth => exact .inr (alike_readGroup alike.next alike.reader.token name label value depth)
  | _ => exact .inr ⟨alike.next, .same rfl⟩

end Read

variable {moment moment' next : Moment}

theorem abreast_read (alike : moment.Alike exact moment') :
    (read moment.reader.cursor moment.reader.next.1 (moment.progress.moveTo moment.reader.next.2)
        moment.task).Abreast exact
      (read moment'.reader.cursor moment'.reader.next.1 (moment'.progress.moveTo moment'.reader.next.2)
        moment'.task) := by
  obtain ⟨progress, task⟩ := moment
  obtain ⟨progress', task'⟩ := moment'
  obtain ⟨reached, tasks⟩ := alike
  have agree : Agree exact Token.spelling progress.reader.next.1 progress'.reader.next.1 := reached.reader.token
  have code {brace brace' : Token} (same : exact → brace = brace') (braces : Nat) (block : Block) (part : CodeTask) :
      (read progress.reader.cursor progress.reader.next.1 (progress.moveTo progress.reader.next.2)
          (.chunk brace braces block part)).Abreast exact
        (read progress'.reader.cursor progress'.reader.next.1 (progress'.moveTo progress'.reader.next.2)
          (.chunk brace' braces block part)) := by
    by_cases plain : part = .code
    · subst plain
      exact .inr (alike_readCode reached.next agree same braces block)
    · simp only [read, readItem_eq agree.shown]
      exact .inr ⟨reached.next, .chunk same⟩
  cases tasks with
  | same plain =>
    cases task with
    | declaration => exact .inr (alike_readDeclaration reached.next agree)
    | chunk brace braces block part => exact code (fun _ => rfl) braces block part
    | passLine name shaders => exact .inr (alike_readPass reached.next agree name shaders)
    | propertyName => exact .inr (alike_readPropertyName reached.next agree)
    | property name part => exact abreast_readProperty reached name plain
    | _ => exact .inr ⟨reached.next, .same rfl⟩
  | chunk same => exact code same _ _ _
  | typeSuffix text joined => exact .inr (alike_readSuffix reached _ _ text joined)
  | done agree => exact .inr ⟨reached.next, .done agree⟩

theorem isSuffix_missed (task : Task) : (missed task).isSuffix = false := by
  unfold missed
  split <;> rfl

/-- As long as the first reading does not overflow, the second goes along with it step by step. -/
theorem Alike.step (alike : moment.Alike exact moment') (goes : step moment = some next) :
    ∃ next', Moment.step moment' = some next' ∧ next.Abreast exact next' := by
  have readings := abreast_read alike
  obtain ⟨progress, task⟩ := moment
  obtain ⟨progress', task'⟩ := moment'
  obtain ⟨reached, tasks⟩ := alike
  cases required : task.required? with
  | none =>
    obtain ⟨running, -, rfl⟩ | ⟨kind, other, -⟩ := step_cases goes
    · have same : task'.isDone = task.isDone ∧ task'.required? = task.required? := by
        cases tasks <;> exact ⟨rfl, rfl⟩
      exact ⟨_, step_read progress' (same.1.trans running) (same.2.trans required), readings⟩
    · cases required.symm.trans other
  | some kind =>
    -- A task that requires a kind of token holds none, so it is the same in both readings.
    obtain ⟨rfl, plain⟩ : task' = task ∧ task.isSuffix = false := by
      cases tasks with
      | same plain => exact ⟨rfl, plain⟩
      | _ => cases required
    obtain ⟨token, later, token', later', met, met', agree, readers⟩ |
      ⟨error, later, error', later', unmet, unmet', readers⟩ := reached.reader.expect kind
    · rw [step_found progress required met] at goes
      cases goes
      exact ⟨_, step_found progress' required met', abreast_found (reached.moveTo readers) agree plain⟩
    · rw [step_missed progress required unmet] at goes
      cases goes
      exact ⟨_, step_missed progress' required unmet',
        .inr ⟨reached.moveTo readers, .same (isSuffix_missed _)⟩⟩

/-- The reading has overflowed, or another one comes to the same point. -/
def Accompanied (exact : Prop) (reader : Reader) (moment : Moment) : Prop :=
  moment.Overflows ∨ ∃ other, Reaches step (start reader) other ∧ moment.Alike exact other

theorem Accompanied.step {reader : Reader} (accompanied : moment.Accompanied exact reader)
    (goes : step moment = some next) : next.Accompanied exact reader := by
  obtain ⟨line, ended⟩ | ⟨other, course, alike⟩ := accompanied
  · simp [Moment.step, ended] at goes
  · obtain ⟨next', goes', abreast⟩ := alike.step goes
    exact abreast.imp_right fun alike => ⟨next', course.tail goes', alike⟩

theorem isDone_of_result? {result : Except Error Effect × Reader} (given : moment.result? = some result) :
    moment.task.isDone = true := by
  unfold result? at given
  split at given
  · rename_i ended
    rw [ended]
    rfl
  · rename_i ended
    rw [ended]
    rfl
  · cases given

theorem result?_of_reaches {reader : Reader} {last : Moment} (course : Reaches step (start reader) last)
    (stops : step last = none) : last.result? = some (Document.read reader) := by
  obtain ⟨other, ends, given⟩ := exists_mem_eval reader
  -- A moment has one step at most, so the steps come to one end only.
  rw [Part.mem_unique (mem_eval.2 ⟨course, stops⟩) ends]
  exact given

section Outcome

variable {progress : Progress} {reader : Reader}

theorem outcome_of_settled (course : Reaches step (start reader) ⟨progress, .done none⟩) :
    outcome reader = .ok ⟨progress.effect, progress.reader.error⟩ := by
  have given : some (Except.ok progress.effect, progress.reader) = some (Document.read reader) :=
    result?_of_reaches course rfl
  rw [outcome, ← Option.some.inj given]

theorem outcome_of_failed {error : Error} (course : Reaches step (start reader) ⟨progress, .done (some error)⟩) :
    outcome reader = .error error := by
  have given : some (Except.error error, progress.reader) = some (Document.read reader) :=
    result?_of_reaches course rfl
  rw [outcome, ← Option.some.inj given]

end Outcome

end Moment

/-- An outcome apart from lines and from the code of chunks. -/
def bare : Except Error Outcome → Except Error Outcome
  | .ok outcome => .ok ⟨outcome.effect.uncoded, outcome.error.map Unexpected.unlined⟩
  | .error error => .error error.unlined

theorem Moment.agree_outcome {moment moment' : Moment} {reader reader' : Reader} (alike : moment.Alike exact moment')
    (ended : moment.task.isDone = true) (course : Reaches step (start reader) moment)
    (course' : Reaches step (start reader') moment') :
    Agree exact bare (outcome reader) (outcome reader') := by
  obtain ⟨progress, task⟩ := moment
  obtain ⟨progress', task'⟩ := moment'
  obtain ⟨reached, tasks⟩ := alike
  cases tasks with
  | same plain =>
    cases task with
    | done error =>
      cases error with
      | none =>
        rw [outcome_of_settled course, outcome_of_settled course']
        refine ⟨?_, ?_⟩
        · simp only [bare, reached.effect.shown, reached.reader.error.shown]
        · intro holds
          rw [reached.effect.same holds, reached.reader.error.same holds]
      | some error =>
        rw [outcome_of_failed course, outcome_of_failed course']
        exact .refl _ _ _
    | _ => cases ended
  | chunk same => cases ended
  | typeSuffix text joined => cases ended
  | done agree =>
    rw [outcome_of_failed course, outcome_of_failed course']
    exact agree.map Except.error fun _ _ shown => congrArg Except.error shown

/-- Two readers that stand side by side come to the same outcome, unless the first overflows. -/
theorem outcome_cases {reader reader' : Reader} (alike : reader.Alike exact reader') :
    (∃ line, outcome reader = .error (.literalOverflow line)) ∨
      Agree exact bare (outcome reader) (outcome reader') := by
  have first : (Moment.start reader).Alike exact (Moment.start reader') := ⟨⟨.refl _ _ _, rfl, alike⟩, .same rfl⟩
  have begun : (Moment.start reader).Accompanied exact reader' := .inr ⟨_, .refl, first⟩
  obtain ⟨⟨progress, task⟩, course, accompanied, given⟩ :=
    Moment.exists_result_of_invariant reader begun fun _ _ accompanied goes => accompanied.step goes
  obtain ⟨line, rfl⟩ | ⟨other, course', alike⟩ := accompanied
  · exact .inl ⟨line, Moment.outcome_of_failed course⟩
  · exact .inr (Moment.agree_outcome alike (Moment.isDone_of_result? given) course course')

/-- The layout of a source does not matter: the same tokens give the same outcome apart from lines and from the code of
chunks. Only a number and a word behind it are to touch in both layouts or in neither. -/
theorem parse_of_matching {source source' : String}
    (matching : Token.Matching (Cursor.start source.toList).tokens (Cursor.start source'.toList).tokens)
    (capacity : LiteralTable.Capacity) : bare (parse source capacity) = bare (parse source' capacity) := by
  have there : (Reader.start source capacity).Alike False (Reader.start source' capacity) :=
    Reader.alike_start le_rfl le_rfl matching False.elim
  have back : (Reader.start source' capacity).Alike False (Reader.start source capacity) :=
    Reader.alike_start le_rfl le_rfl matching.symm False.elim
  -- Neither reading has more room, so each may be taken for the first; when both overflow, only the lines differ.
  obtain ⟨line, overflow⟩ | agree := outcome_cases there
  · obtain ⟨line', overflow'⟩ | agree := outcome_cases back
    · rw [parse, parse, overflow, overflow']
      rfl
    · exact agree.shown.symm
  · exact agree.shown

/-- A comment for a blank, and other lines: the code and the line of the complaint differ, and nothing else does. -/
theorem parse_of_matching_comment :
    let source :=
      "effect E \x7b glsl a \x7b f(x) \x7d properties \x7b t(\"T\", 2D = \"w\") u(\"\", 2 D) \x7d pass p \x7b"
    let source' :=
      "effect E // e\n\x7bglsl a\x7bf ( x )\x7dproperties\x7bt(\"T\",2D=\"w\")u(\"\",2/* */D)\x7d\npass\np\x7b"
    Token.Matching (Cursor.start source.toList).tokens (Cursor.start source'.toList).tokens ∧
      parse source {} ≠ parse source' {} ∧ bare (parse source {}) = bare (parse source' {}) := by
  intro source source'
  have matching : Token.Matching (Cursor.start source.toList).tokens (Cursor.start source'.toList).tokens := by
    decide +kernel
  have differs : parse source {} ≠ parse source' {} := by decide +kernel
  exact ⟨matching, differs, parse_of_matching matching {}⟩

/-- More room for literals changes nothing, except where the smaller room has brought an overflow. -/
theorem parse_of_capacity_le (source : String) {small large : LiteralTable.Capacity}
    (entries : small.maxEntries ≤ large.maxEntries) (bytes : small.maxBytes ≤ large.maxBytes) :
    parse source small = parse source large ∨ ∃ line, parse source small = .error (.literalOverflow line) := by
  have alike : (Reader.start source small).Alike True (Reader.start source large) :=
    Reader.alike_start entries bytes (.refl _) fun _ => rfl
  obtain overflow | agree := outcome_cases alike
  · exact .inr overflow
  · exact .inl (agree.same trivial)

/-- With room for one number, those of a color are dropped and not missed, and the second bound of a range is. -/
theorem parse_of_capacity_le_one :
    let color := "properties \x7b k(\"K\", Color = (1, 2, 3)) \x7d"
    let range := "properties \x7b r(\"R\", Range(0, 1)) \x7d"
    parse color ⟨1, 8⟩ = parse color {} ∧ parse range ⟨1, 8⟩ ≠ parse range {} ∧
      ∃ line, parse range ⟨1, 8⟩ = .error (.literalOverflow line) := by
  intro color range
  have calm : ¬∃ line, parse color ⟨1, 8⟩ = .error (.literalOverflow line) := by
    have settled : (parse color ⟨1, 8⟩).isOk = true := by decide +kernel
    rintro ⟨line, overflow⟩
    rw [overflow] at settled
    cases settled
  have differs : parse range ⟨1, 8⟩ ≠ parse range {} := by decide +kernel
  exact ⟨(parse_of_capacity_le color (by decide) (by decide)).resolve_right calm, differs,
    (parse_of_capacity_le range (by decide) (by decide)).resolve_left differs⟩

end Document

end EffectLang
