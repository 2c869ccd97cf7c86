import EffectLang.Document.Basic
import Mathlib

/-!
The reading of a source as single steps. At every moment there is a task, which says what is to be read next. A
step reads one token for the task and decides by it what the next task is. Where a token is only looked at, the
same step goes back before it.
-/
namespace EffectLang.Document

/-- What is to be read next in the block of a chunk. -/
inductive CodeTask where
  | code
  | directive
  | defined
  /-- The name behind `defined`, or a parenthesis before it. -/
  | condition
  | conditionName
  | pragma
  | includeName (flag : UInt32)
  | uniformType
  | resourceName (kind : Resource.Kind)
deriving DecidableEq, Repr

inductive PropertyTask where
  | opening
  | label
  | comma (label : String)
  | typeName (label : String)
  /-- The word that may follow a number as part of a type name. -/
  | typeSuffix (label : String) (number : Token)
  | bounds (label : String)
  | low (label : String)
  | boundsComma (label : String) (low : Double)
  | high (label : String) (low : Double)
  | boundsEnd (label : String) (low high : Double)
  | sign (label : String) (value : Property.Value)
  | default (label : String) (value : Property.Value)
  /-- The rest of a default in parentheses, with a number of them open. -/
  | group (label : String) (value : Property.Value) (depth : Nat)
  | closing
deriving DecidableEq, Repr

inductive Task where
  | declaration
  | effectName
  | effectBrace
  | chunkName
  | chunkBrace (name : String)
  /-- A part of the block that `brace` opened, with a number of braces open. -/
  | chunk (brace : Token) (braces : Nat) (block : Block) (part : CodeTask)
  | passName
  | passBrace (name : String)
  | passLine (name : String) (shaders : List Shader)
  | shaderSign (name : String) (shaders : List Shader) (stage : Stage)
  | shaderName (name : String) (shaders : List Shader) (stage : Stage)
  | propertiesBrace
  | propertyName
  | property (name : String) (part : PropertyTask)
  /-- Nothing: the reading is over, or an error has ended it. -/
  | done (error : Option Error)
deriving DecidableEq, Repr

def PropertyTask.required? : PropertyTask → Option Token.Kind
  | .opening => some .openParen
  | .label => some .string
  | .comma _ => some .comma
  | .low _ => some .number
  | .boundsComma _ _ => some .comma
  | .high _ _ => some .number
  | .boundsEnd _ _ _ => some .closeParen
  | .closing => some .closeParen
  | _ => none

def Task.required? : Task → Option Token.Kind
  | .effectName => some .identifier
  | .effectBrace => some .openBrace
  | .chunkName => some .identifier
  | .chunkBrace _ => some .openBrace
  | .passName => some .identifier
  | .passBrace _ => some .openBrace
  | .shaderSign _ _ _ => some .equals
  | .shaderName _ _ _ => some .identifier
  | .propertiesBrace => some .openBrace
  | .property _ part => part.required?
  | _ => none

def Task.isDone : Task → Bool
  | .done _ => true
  | _ => false

def Task.ofWord (word : String) : Task :=
  match word with
  | "effect" => .effectName
  | "glsl" => .chunkName
  | "pass" => .passName
  | "properties" => .propertiesBrace
  | _ => .declaration

/-- A moment of a reading: how far it has come, and what is to be read next. -/
structure Moment where
  progress : Progress
  task : Task
deriving DecidableEq, Repr

@[simp] theorem Progress.reader_moveTo (progress : Progress) (reader : Reader) :
    (progress.moveTo reader).reader = reader := rfl

namespace Moment

def reader (moment : Moment) : Reader :=
  moment.progress.reader

def start (reader : Reader) : Moment :=
  ⟨⟨{}, 0, reader⟩, .declaration⟩

def unclosed (token : Token) (progress : Progress) : Progress :=
  progress.moveTo (progress.reader.report .closeBrace token)

def addProperty (name label : String) (value : Property.Value) (progress : Progress) : Moment :=
  ⟨progress.addProperties [⟨name, label, value⟩], .property name .closing⟩

def addPass (name : String) (shaders : List Shader) (progress : Progress) : Moment :=
  ⟨progress.addPass { name, shaders, kind := passKind shaders }, .declaration⟩

def typed (name label type : String) (progress : Progress) : Moment :=
  if Property.Kind.ofTypeName type = .range then ⟨progress, .property name (.bounds label)⟩
  else ⟨progress, .property name (.sign label (.empty (.ofTypeName type)))⟩

/-- Goes on with the number that was just read. After a complaint there is none. -/
def number (name label : String) (token : Token) (next : Double → PropertyTask) (progress : Progress) : Moment :=
  if progress.reader.hasError then ⟨progress, .property name (.sign label (.empty .range))⟩
  else
    match literal progress.reader token with
    | .ok value => ⟨progress, .property name (next value)⟩
    | .error error => ⟨progress, .done (some error)⟩

def foundInProperty (name : String) (token : Token) (progress : Progress) : PropertyTask → Moment
  | .opening => ⟨progress, .property name .label⟩
  | .label => ⟨progress, .property name (.comma token.text)⟩
  | .comma label => ⟨progress, .property name (.typeName label)⟩
  | .low label => number name label token (.boundsComma label) progress
  | .boundsComma label low => ⟨progress, .property name (.high label low)⟩
  | .high label low => number name label token (.boundsEnd label low) progress
  | .boundsEnd label low high =>
    ⟨progress, .property name (.sign label (.range low.toSingle high.toSingle .zero))⟩
  | .closing => ⟨progress, .propertyName⟩
  | part => ⟨progress, .property name part⟩

def found (token : Token) (progress : Progress) : Task → Moment
  | .effectName => ⟨{ progress with effect := { progress.effect with name := token.text } }, .effectBrace⟩
  | .effectBrace => ⟨{ progress with depth := progress.depth + 1 }, .declaration⟩
  | .chunkName => ⟨progress, .chunkBrace token.text⟩
  | .chunkBrace name => ⟨progress, .chunk token 1 ⟨{ name }, {}⟩ .code⟩
  | .passName => ⟨progress, .passBrace token.text⟩
  | .passBrace name => ⟨progress, .passLine name []⟩
  | .shaderSign name shaders stage => ⟨progress, .shaderName name shaders stage⟩
  | .shaderName name shaders stage =>
    ⟨progress, .passLine name (shaders ++ [⟨stage, resolve progress.effect token.text⟩])⟩
  | .propertiesBrace => ⟨progress, .propertyName⟩
  | .property name part => foundInProperty name token progress part
  | task => ⟨progress, task⟩

/-- The task after one whose required token is missing. -/
def missed : Task → Task
  | .shaderSign name shaders stage => .passLine name (shaders ++ [⟨stage, noIndex⟩])
  | .shaderName name shaders stage => .passLine name (shaders ++ [⟨stage, noIndex⟩])
  | .property name (.low label) => .property name (.sign label (.empty .range))
  | .property name (.boundsComma label _) => .property name (.sign label (.empty .range))
  | .property name (.high label _) => .property name (.sign label (.empty .range))
  | .property name (.boundsEnd label _ _) => .property name (.sign label (.empty .range))
  | .property _ _ => .propertyName
  | _ => .declaration

def readDeclaration (token : Token) (progress : Progress) : Moment :=
  if token.kind = .endOfStream then
    ⟨if progress.depth = 0 then progress else unclosed token progress, .done none⟩
  else if token.kind = .closeBrace then ⟨{ progress with depth := progress.depth - 1 }, .declaration⟩
  else if token.kind = .identifier then ⟨progress, .ofWord token.text⟩
  else ⟨progress, .declaration⟩

def readCode (brace : Token) (braces : Nat) (block : Block) (token : Token) (progress : Progress) : Moment :=
  if token.kind = .endOfStream then ⟨unclosed token progress, .declaration⟩
  else if token.kind = .openBrace then ⟨progress, .chunk brace (braces + 1) block .code⟩
  else if token.kind = .closeBrace then
    if braces - 1 = 0 then
      let code := progress.reader.textBetween (min brace.stop token.offset) token.offset
      ⟨progress.addChunk { block.chunk with code }, .declaration⟩
    else ⟨progress, .chunk brace (braces - 1) block .code⟩
  else if token.kind = .hash then ⟨progress, .chunk brace braces block .directive⟩
  else if token.kind = .identifier ∧ token.isKeyword "uniform" then
    ⟨progress, .chunk brace braces block .uniformType⟩
  else ⟨progress, .chunk brace braces block .code⟩

/-- The block and the task behind a token that belongs to a directive or a uniform. -/
def readItem (block : Block) (token : Token) : CodeTask → Block × CodeTask
  | .code => (block, .code)
  | .directive =>
    match token.text with
    | "if" => (block, .defined)
    | "pragma" => (block, .pragma)
    | "endif" => ({ block with conditionals := block.conditionals.leave }, .code)
    | _ => (block, .code)
  | .defined => (block, if token.isKeyword "defined" then .condition else .code)
  | .condition =>
    if token.kind = .openParen then (block, .conditionName)
    else ({ block with conditionals := block.conditionals.enter token.text }, .code)
  | .conditionName => ({ block with conditionals := block.conditionals.enter token.text }, .code)
  | .pragma =>
    match includeFlag? block.conditionals token.text with
    | none => (block, .code)
    | some flag => (block, .includeName flag)
  | .includeName flag => (block.addInclude token.text flag, .code)
  | .uniformType =>
    match uniformKind? token.text with
    | none => (block, .code)
    | some kind => (block, .resourceName kind)
  | .resourceName kind => (block.addResource kind token.text, .code)

def readPass (name : String) (shaders : List Shader) (token : Token) (progress : Progress) : Moment :=
  if token.kind = .endOfStream then addPass name shaders (unclosed token progress)
  else if token.kind = .closeBrace then addPass name shaders progress
  else if token.kind = .identifier then
    match lineStage? token.text with
    | none => ⟨progress, .passLine name shaders⟩
    | some stage => ⟨progress, .shaderSign name shaders stage⟩
  else ⟨progress, .passLine name shaders⟩

def readPropertyName (token : Token) (progress : Progress) : Moment :=
  if token.kind = .endOfStream then ⟨unclosed token progress, .declaration⟩
  else if token.kind = .closeBrace then ⟨progress, .declaration⟩
  else if token.kind = .identifier then ⟨progress, .property token.text .opening⟩
  else ⟨progress, .propertyName⟩

/-- Whether a value has defaults that are passed over. -/
def skipsDefault : Property.Value → Bool
  | .color => true
  | .vector => true
  | _ => false

def readDefault (name label : String) (value : Property.Value) (token : Token) (progress : Progress) : Moment :=
  if skipsDefault value ∧ token.kind = .openParen then ⟨progress, .property name (.group label value 1)⟩
  else
    match (defaultValue name value token progress.reader).1 with
    | .ok value => addProperty name label value progress
    | .error error => ⟨progress, .done (some error)⟩

def readGroup (name label : String) (value : Property.Value) (depth : Nat) (token : Token)
    (progress : Progress) : Moment :=
  if token.kind = .endOfStream then addProperty name label value progress
  else if token.kind = .openParen then ⟨progress, .property name (.group label value (depth + 1))⟩
  else if token.kind = .closeParen then
    if depth - 1 = 0 then addProperty name label value progress
    else ⟨progress, .property name (.group label value (depth - 1))⟩
  else ⟨progress, .property name (.group label value depth)⟩

/-- Goes on behind a token of a property that need not be there; `place` lies before it. -/
def readProperty (place : Cursor) (name : String) (token : Token) (progress : Progress) : PropertyTask → Moment
  | .typeName label =>
    if token.kind = .number then ⟨progress, .property name (.typeSuffix label token)⟩
    else typed name label token.text progress
  | .typeSuffix label first =>
    if token.kind = .identifier then typed name label (progress.reader.join first token).text progress
    else typed name label first.text (progress.moveTo (progress.reader.restore place))
  | .bounds label =>
    if token.kind = .openParen then ⟨progress, .property name (.low label)⟩
    else ⟨progress.moveTo (progress.reader.restore place), .property name (.sign label (.empty .range))⟩
  | .sign label value =>
    if token.kind = .equals then ⟨progress, .property name (.default label value)⟩
    else addProperty name label value (progress.moveTo (progress.reader.restore place))
  | .default label value => readDefault name label value token progress
  | .group label value depth => readGroup name label value depth token progress
  | part => ⟨progress, .property name part⟩

def read (place : Cursor) (token : Token) (progress : Progress) : Task → Moment
  | .declaration => readDeclaration token progress
  | .chunk brace braces block .code => readCode brace braces block token progress
  | .chunk brace braces block part =>
    ⟨progress, .chunk brace braces (readItem block token part).1 (readItem block token part).2⟩
  | .passLine name shaders => readPass name shaders token progress
  | .propertyName => readPropertyName token progress
  | .property name part => readProperty place name token progress part
  | task => ⟨progress, task⟩

/-- One step of a reading; none when it is over. -/
def step (moment : Moment) : Option Moment :=
  match moment.task with
  | .done _ => none
  | task =>
    match task.required? with
    | none =>
      some (read moment.reader.cursor moment.reader.next.1 (moment.progress.moveTo moment.reader.next.2) task)
    | some kind =>
      match moment.reader.expect kind with
      | (.ok token, later) => some (found token (moment.progress.moveTo later) task)
      | (.error _, later) => some ⟨moment.progress.moveTo later, missed task⟩

end Moment

end EffectLang.Document
