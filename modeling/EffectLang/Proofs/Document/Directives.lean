import EffectLang.Proofs.Document.Conditionals
import EffectLang.Proofs.Token.Stream

/-!
The directives of a block. They are found by going over its tokens one by one, and the chunk that is read from the
block has its includes with the flags that the stack of conditionals gives them.
-/
namespace EffectLang.Document

/-- What the next token of a block is: plain code, or a part of a directive or of a uniform. -/
inductive Part where
  | code
  | word
  | defined
  /-- The name behind `defined`, or a parenthesis before it. -/
  | condition
  | name
  | pragma
  | included (own : Bool)
  | type
  | resource
deriving DecidableEq, Repr

namespace Part

/-- The part behind a token, and the directive that the token completes. -/
def read (token : Token) : Part → Part × Option Directive
  | .code =>
    (if token.kind = .hash then .word
      else if token.kind = .identifier ∧ token.isKeyword "uniform" then .type else .code, none)
  | .word =>
    match token.text with
    | "if" => (.defined, none)
    | "pragma" => (.pragma, none)
    | "endif" => (.code, some .leave)
    | _ => (.code, none)
  | .defined => (if token.isKeyword "defined" then .condition else .code, none)
  | .condition => if token.kind = .openParen then (.name, none) else (.code, some (.enter token.text))
  | .name => (.code, some (.enter token.text))
  | .pragma =>
    match token.text with
    | "include" => (.included false, none)
    | "include_hfx" => (.included true, none)
    | _ => (.code, none)
  | .included own => (.code, some (.includes token.text own))
  | .type => (if (uniformKind? token.text).isSome then .resource else .code, none)
  | .resource => (.code, none)

/-- The directives among the tokens of a block. -/
def directives : Part → List Token → List Directive
  | _, [] => []
  | part, token :: rest => (part.read token).2.toList ++ directives (part.read token).1 rest

end Part

namespace Block

/-- What directives make of a block: its conditionals have gone through them, and it has their includes with the flags
of its conditionals. -/
structure Meets (block : Block) (directives : List Directive) (later : Block) : Prop where
  conditionals : later.conditionals = directives.foldl Conditionals.after block.conditionals
  includes : later.chunk.includes = block.chunk.includes ++
    (noted Conditionals.after Conditionals.stage block.conditionals directives).map Prod.fst
  flags : later.chunk.includeFlags = block.chunk.includeFlags ++
    (noted Conditionals.after Conditionals.stage block.conditionals directives).map Prod.snd

variable {block middle later : Block}

theorem Meets.append {first second : List Directive} (meets : block.Meets first middle)
    (then_ : middle.Meets second later) : block.Meets (first ++ second) later where
  conditionals := by rw [then_.conditionals, meets.conditionals, List.foldl_append]
  includes := by
    rw [then_.includes, meets.includes, meets.conditionals, noted_append, List.map_append, List.append_assoc]
  flags := by
    rw [then_.flags, meets.flags, meets.conditionals, noted_append, List.map_append, List.append_assoc]

end Block

theorem flag_eq (conditionals : Conditionals) : conditionals.flag = flagOf conditionals.stage false := by
  unfold Conditionals.flag flagOf
  cases conditionals.stage <;> simp [noStageFlag]

theorem flag_or_eq (conditionals : Conditionals) :
    conditionals.flag ||| localIncludeFlag = flagOf conditionals.stage true := by
  unfold Conditionals.flag flagOf
  cases conditionals.stage <;> rfl

/-- A pragma asks for an include or for nothing, and the flag is that of the current stage. -/
theorem includeFlag?_cases (conditionals : Conditionals) (token : Token) :
    includeFlag? conditionals token.text = none ∧ Part.read token .pragma = (.code, none) ∨
      ∃ own, includeFlag? conditionals token.text = some (flagOf conditionals.stage own) ∧
        Part.read token .pragma = (.included own, none) := by
  unfold includeFlag?
  split
  · rename_i word
    exact .inr ⟨false, by rw [flag_eq], by simp only [Part.read, word]⟩
  · rename_i word
    exact .inr ⟨true, by rw [flag_or_eq], by simp only [Part.read, word]⟩
  · rename_i noInclude noOwn
    exact .inl ⟨rfl, by simp only [Part.read]⟩

/-- From a part on, reading goes over some tokens to plain code, and their directives make the block what it is then.
Nothing is said when the source ends there. -/
def Gathers (part : Part) (reader : Reader) (block : Block) (result : Block × Reader) : Prop :=
  result.2.next.1.kind ≠ .endOfStream → ∃ used directives, reader.ahead = used ++ result.2.ahead ∧
    (∀ rest, part.directives (used ++ rest) = directives ++ Part.code.directives rest) ∧
    block.Meets directives result.1

namespace Gathers

variable {part next : Part} {reader : Reader} {block later : Block} {result : Block × Reader}

theorem step (goes : part.read reader.next.1 = (next, none)) (rest : Gathers next reader.next.2 block result) :
    Gathers part reader block result := by
  intro more
  obtain ⟨used, directives, ahead, found, meets⟩ := rest more
  have running : reader.next.1.kind ≠ .endOfStream := by
    intro ended
    obtain ⟨others, first⟩ := result.2.head_ahead
    rw [Reader.ahead_next_of_end ended, first] at ahead
    -- Only the end of the source is ahead, so the reading has not come further.
    cases used with
    | nil =>
      simp only [List.nil_append, List.cons.injEq] at ahead
      exact more (ahead.1 ▸ ended)
    | cons token used => simp at ahead
  refine ⟨reader.next.1 :: used, directives, ?_, ?_, meets⟩
  · rw [Reader.ahead_of_more running, ahead, List.cons_append]
  · intro rest
    simp only [List.cons_append, Part.directives, goes, Option.toList_none, List.nil_append, found]

theorem done {directive : Option Directive} (goes : part.read reader.next.1 = (.code, directive))
    (meets : block.Meets directive.toList later) : Gathers part reader block (later, reader.next.2) := by
  intro more
  have running : reader.next.1.kind ≠ .endOfStream := by
    intro ended
    exact more (Reader.next_again ended ▸ ended)
  refine ⟨[reader.next.1], directive.toList, Reader.ahead_of_more running, ?_, meets⟩
  intro rest
  simp only [List.cons_append, List.nil_append, Part.directives, goes]

end Gathers

section Items

variable (block : Block) (reader : Reader)

end Items

end EffectLang.Document
