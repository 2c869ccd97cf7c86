import EffectLang.Proofs.Reading.Step
import EffectLang.Proofs.Token.ByteTokens

/-!
Nothing goes out of bounds while a source is read, with complaints or without. All text that is taken from the source
lies between two places in it, and what is counted on the way is never more than the bytes that were read.
-/
namespace EffectLang

open Utf8

theorem Token.offset_le_stop (token : Token) : token.offset ≤ token.stop :=
  Nat.le_add_right _ _

namespace Reader

variable {reader : Reader} {source : List Char}

theorem Within.position (within : reader.Within source) : IsCut source reader.cursor.position := by
  obtain ⟨before, rest, whole, located⟩ := within
  exact ⟨before, rest, whole, located.place.position⟩

/-- Where the next token of a reader lies: in the part of the source that it has not read, and reading it leads
behind it. -/
structure Bounds (reader : Reader) (source : List Char) : Prop where
  offset : IsCut source reader.next.1.offset
  stop : IsCut source reader.next.1.stop
  ahead : reader.cursor.position ≤ reader.next.1.offset
  behind : reader.next.1.stop ≤ reader.next.2.cursor.position
  moves : reader.next.1.kind ≠ .endOfStream → reader.cursor.position < reader.next.2.cursor.position

theorem Bounds.position_le (bounds : reader.Bounds source) :
    reader.cursor.position ≤ reader.next.2.cursor.position :=
  bounds.ahead.trans ((Token.offset_le_stop _).trans bounds.behind)

theorem Within.bounds (within : reader.Within source) : reader.Bounds source := by
  obtain ⟨before, rest, whole, located⟩ := within
  obtain ⟨gap, text, tail, later, rfl, lies, behind, -, moves⟩ := located.next
  refine ⟨?_, ?_, ?_, ?_, ?_⟩
  · exact ⟨before ++ gap, text ++ (tail ++ later), by simp [whole], lies.offset⟩
  · exact ⟨before ++ gap ++ text, tail ++ later, by simp [whole], lies.stop⟩
  · rw [lies.offset, located.place.position]
    simp
  · rw [lies.stop, behind.place.position]
    simp
  · intro more
    have positive := byteLength_pos (moves more)
    rw [located.place.position, behind.place.position, byteLength_append]
    omega

theorem stop_of_expect {later : Reader} {kind : Token.Kind} {token : Token} (within : reader.Within source)
    (met : reader.expect kind = (.ok token, later)) :
    IsCut source token.stop ∧ token.stop ≤ later.cursor.position ∧ reader.cursor.position ≤ later.cursor.position := by
  obtain ⟨-, given⟩ | ⟨-, -, given⟩ | ⟨-, -, given⟩ := reader.expect_cases kind
  · cases given.symm.trans met
    exact ⟨within.position, Nat.le_refl _, Nat.le_refl _⟩
  · cases given.symm.trans met
    exact ⟨within.bounds.stop, within.bounds.behind, within.bounds.position_le⟩
  · cases given.symm.trans met

/-- A reader that can go on: it stands in the source and counts its lines in a word, the texts of the next token and
of a placeholder can be taken, and scanning byte by byte fails at no check and comes to the next token. -/
structure InBounds (source : String) (reader : Reader) : Prop where
  position : reader.cursor.position ≤ source.utf8ByteSize
  line : reader.cursor.line < 2 ^ 32
  placeholder : Takes source reader.cursor.position reader.cursor.position
  token : Takes source reader.next.1.offset reader.next.1.stop
  scan : (ByteScanner.ofCursor source reader.cursor).next? =
    some (ByteScanner.pieceOfScan reader.cursor.scan, .ofCursor source reader.next.2.cursor)

theorem Within.inBounds {source : String} (within : reader.Within source.toList)
    (short : source.utf8ByteSize < 2 ^ 32 - 1) : reader.InBounds source where
  position := by
    rw [← byteLength_toList]
    exact within.position.le
  line := by
    obtain ⟨before, rest, whole, located⟩ := within
    have room := ByteScanner.line_add_count_lt located whole (ByteScanner.count_feed_lt short)
    omega
  placeholder := within.position.takes within.position (Nat.le_refl _)
  token := within.bounds.offset.takes within.bounds.stop (Token.offset_le_stop _)
  scan := by
    obtain ⟨before, rest, whole, located⟩ := within
    exact ByteScanner.next_eq located whole (ByteScanner.count_feed_lt short)

end Reader

namespace Document

open StateTransition

/-- One inside of a directive or a uniform, which begins with a token of its own, and zero elsewhere. -/
def CodeTask.inside : CodeTask → Nat
  | .code => 0
  | _ => 1

theorem CodeTask.inside_of_ne {part : CodeTask} (elsewhere : part ≠ .code) : part.inside = 1 := by
  cases part <;> first | rfl | exact absurd rfl elsewhere

def PropertyTask.Fits (source : List Char) (position : Nat) : PropertyTask → Prop
  | .typeSuffix _ number => IsCut source number.offset ∧ number.offset ≤ position
  | .group _ _ depth => 0 < depth ∧ depth ≤ position + 1
  | _ => True

/-- What a task holds fits the place where it is read: its tokens lie before it, and it has counted no more than the
bytes up to there. -/
def Task.Fits (source : List Char) (position : Nat) : Task → Prop
  | .chunk brace braces block part =>
    (IsCut source brace.stop ∧ brace.stop ≤ position) ∧ (0 < braces ∧ braces ≤ position + 1) ∧
      block.conditionals.depth + part.inside ≤ position
  | .property _ part => part.Fits source position
  | _ => True

theorem Task.Fits.mono {source : List Char} {position later : Nat} {task : Task} (fits : task.Fits source position)
    (ordered : position ≤ later) : task.Fits source later := by
  cases task with
  | chunk brace braces block part =>
    obtain ⟨⟨cut, brace⟩, ⟨positive, braces⟩, depth⟩ := fits
    exact ⟨⟨cut, brace.trans ordered⟩, ⟨positive, by omega⟩, depth.trans ordered⟩
  | property name part =>
    cases part with
    | typeSuffix label number => exact ⟨fits.1, fits.2.trans ordered⟩
    | group label value depth => exact ⟨fits.1, fits.2.trans (Nat.succ_le_succ ordered)⟩
    | _ => trivial
  | _ => trivial

theorem Conditionals.depth_enter (conditionals : Conditionals) (word : String) :
    (conditionals.enter word).depth = conditionals.depth + 1 := by
  unfold enter
  split <;> rfl

namespace Moment

section Steps

variable {source : List Char} {position later : Nat}

theorem depth_readItem (block : Block) (token : Token) {part : CodeTask} (inside : part.inside = 1) :
    (readItem block token part).1.conditionals.depth + (readItem block token part).2.inside ≤
      block.conditionals.depth + 1 := by
  -- A conditional goes deeper only with the name of its stage, which leads out of the directive.
  unfold readItem
  split
  · cases inside
  · split
    · exact Nat.le_refl _
    · exact Nat.le_refl _
    · exact (Nat.sub_le _ _).trans (Nat.le_succ _)
    · exact Nat.le_succ _
  · split
    · exact Nat.le_refl _
    · exact Nat.le_succ _
  · split
    · exact Nat.le_refl _
    · exact (Conditionals.depth_enter _ _).le
  · exact (Conditionals.depth_enter _ _).le
  · split
    · exact Nat.le_succ _
    · exact Nat.le_refl _
  · exact Nat.le_succ _
  · split
    · exact Nat.le_succ _
    · exact Nat.le_refl _
  · exact Nat.le_succ _

theorem fits_ofWord (word : String) : (Task.ofWord word).Fits source later := by
  unfold Task.ofWord
  split <;> trivial

theorem fits_missed (task : Task) : (missed task).Fits source later := by
  unfold missed
  split <;> trivial

theorem fits_readDeclaration (token : Token) (progress : Progress) :
    (readDeclaration token progress).task.Fits source later := by
  unfold readDeclaration
  split_ifs
  all_goals first | trivial | exact fits_ofWord token.text

theorem fits_readCode {brace : Token} {braces : Nat} {block : Block} {token : Token}
    (fits : Task.Fits source position (.chunk brace braces block .code)) (ordered : position ≤ later)
    (moves : token.kind ≠ .endOfStream → position < later) (progress : Progress) :
    (readCode brace braces block token progress).task.Fits source later := by
  have kept := fits.mono ordered
  obtain ⟨cut, ⟨positive, few⟩, shallow⟩ := kept
  obtain ⟨-, ⟨-, fewer⟩, shallower⟩ := fits
  unfold readCode
  split_ifs with ended opening closing last directive uniform
  · trivial
  · exact ⟨cut, ⟨Nat.succ_pos _, Nat.succ_le_succ (fewer.trans (moves ended))⟩, shallow⟩
  · trivial
  · exact ⟨cut, ⟨Nat.pos_of_ne_zero last, (Nat.sub_le _ _).trans few⟩, shallow⟩
  · exact ⟨cut, ⟨positive, few⟩, Nat.lt_of_le_of_lt shallower (moves ended)⟩
  · exact ⟨cut, ⟨positive, few⟩, Nat.lt_of_le_of_lt shallower (moves ended)⟩
  · exact ⟨cut, ⟨positive, few⟩, shallow⟩

theorem fits_readPass (name : String) (shaders : List Shader) (token : Token) (progress : Progress) :
    (readPass name shaders token progress).task.Fits source later := by
  unfold readPass
  split_ifs
  · trivial
  · trivial
  · split <;> trivial
  · trivial

theorem fits_readPropertyName (token : Token) (progress : Progress) :
    (readPropertyName token progress).task.Fits source later := by
  unfold readPropertyName
  split_ifs <;> trivial

theorem fits_typed (name label type : String) (progress : Progress) :
    (typed name label type progress).task.Fits source later := by
  unfold typed
  split <;> trivial

theorem fits_readDefault (name label : String) (value : Property.Value) (token : Token) (progress : Progress) :
    (readDefault name label value token progress).task.Fits source later := by
  unfold readDefault
  split
  · exact ⟨Nat.one_pos, Nat.succ_le_succ (Nat.zero_le _)⟩
  · split <;> trivial

theorem fits_readGroup {depth : Nat} {token : Token} (positive : 0 < depth) (few : depth ≤ position + 1)
    (ordered : position ≤ later) (moves : token.kind ≠ .endOfStream → position < later) (name label : String)
    (value : Property.Value) (progress : Progress) :
    (readGroup name label value depth token progress).task.Fits source later := by
  have fewer := few.trans (Nat.succ_le_succ ordered)
  unfold readGroup
  split_ifs with ended opening closing last
  · trivial
  · exact ⟨Nat.succ_pos _, Nat.succ_le_succ (few.trans (moves ended))⟩
  · trivial
  · exact ⟨Nat.pos_of_ne_zero last, (Nat.sub_le _ _).trans fewer⟩
  · exact ⟨positive, fewer⟩

theorem fits_foundInProperty {part : PropertyTask} (fits : part.Fits source later) (name : String) (token : Token)
    (progress : Progress) : (foundInProperty name token progress part).task.Fits source later := by
  unfold foundInProperty number
  split
  all_goals first | trivial | exact fits | skip
  all_goals
    split
    · trivial
    · split <;> trivial

theorem fits_found {task : Task} {token : Token} (fits : task.Fits source later)
    (cut : IsCut source token.stop) (behind : token.stop ≤ later) (progress : Progress) :
    (found token progress task).task.Fits source later := by
  cases task with
  | chunkBrace name => exact ⟨⟨cut, behind⟩, ⟨Nat.one_pos, Nat.succ_le_succ (Nat.zero_le _)⟩, Nat.zero_le _⟩
  | chunk brace braces block part => exact fits
  | property name part => exact fits_foundInProperty fits name token progress
  | _ => trivial

variable {reader : Reader} (bounds : reader.Bounds source) (progress : Progress)

theorem cursor_readCode (brace : Token) (braces : Nat) (block : Block) (token : Token) :
    (readCode brace braces block token progress).reader.cursor = progress.reader.cursor := by
  unfold readCode
  split_ifs
  · exact Reader.cursor_report _ _ _
  all_goals rfl

include bounds

/-- A token that is only looked at leads to a task that holds none. -/
theorem fits_readProperty {part : PropertyTask} (fits : part.Fits source reader.cursor.position) (name : String) :
    let next := readProperty reader.cursor name reader.next.1 (progress.moveTo reader.next.2) part
    next.task.Fits source next.reader.cursor.position := by
  intro next
  unfold next readProperty
  split
  · split
    · exact ⟨bounds.offset, (Token.offset_le_stop _).trans bounds.behind⟩
    · exact fits_typed _ _ _ _
  · split <;> exact fits_typed _ _ _ _
  · split <;> trivial
  · split <;> trivial
  · exact fits_readDefault _ _ _ _ _
  · rw [reader_readGroup]
    exact fits_readGroup fits.1 fits.2 bounds.position_le bounds.moves _ _ _ _
  · have unchanged : Task.Fits source reader.cursor.position (.property name part) := fits
    exact unchanged.mono bounds.position_le

theorem fits_read {task : Task} (fits : task.Fits source reader.cursor.position) :
    let next := read reader.cursor reader.next.1 (progress.moveTo reader.next.2) task
    next.task.Fits source next.reader.cursor.position := by
  intro next
  unfold next read
  split
  · exact fits_readDeclaration _ _
  · rw [cursor_readCode]
    exact fits_readCode fits bounds.position_le bounds.moves _
  · rename_i brace braces block part elsewhere
    obtain ⟨cut, few, shallow⟩ := fits.mono bounds.position_le
    have inside : part.inside = 1 := CodeTask.inside_of_ne elsewhere
    have deeper := depth_readItem block reader.next.1 inside
    exact ⟨cut, few, deeper.trans (inside ▸ shallow)⟩
  · exact fits_readPass _ _ _ _
  · exact fits_readPropertyName _ _
  · exact fits_readProperty bounds progress fits _
  · exact fits.mono bounds.position_le

end Steps

structure Fits (source : List Char) (moment : Moment) : Prop where
  within : moment.reader.Within source
  task : moment.task.Fits source moment.reader.cursor.position

theorem fits_step {source : List Char} {moment next : Moment} (fits : moment.Fits source)
    (goes : step moment = some next) : next.Fits source := by
  have within := (move_of_step goes).within fits.within
  refine ⟨within, ?_⟩
  obtain ⟨-, -, rfl⟩ | ⟨kind, required, ⟨token, later, met, rfl⟩ | ⟨error, later, unmet, rfl⟩⟩ := step_cases goes
  · exact fits_read fits.within.bounds moment.progress fits.task
  · obtain ⟨cut, behind, ordered⟩ := Reader.stop_of_expect fits.within met
    rw [reader_found]
    exact fits_found (fits.task.mono ordered) cut behind _
  · exact fits_missed _

end Moment

/-- What a task counts stays within a word and above zero, and the texts that it takes up to the next token can be
taken: the code of a chunk, and a type name of two tokens. -/
def Task.InBounds (source : String) (token : Token) : Task → Prop
  | .chunk brace braces block _ =>
    (0 < braces ∧ braces < 2 ^ 32) ∧ block.conditionals.depth < 2 ^ 32 ∧
      Takes source (min brace.stop token.offset) token.offset
  | .property _ (.typeSuffix _ number) => Takes source number.offset token.stop
  | .property _ (.group _ _ depth) => 0 < depth ∧ depth < 2 ^ 32
  | _ => True

namespace Moment

theorem Fits.inBounds {source : String} {moment : Moment} (fits : moment.Fits source.toList)
    (short : source.utf8ByteSize < 2 ^ 32 - 1) : moment.task.InBounds source moment.reader.next.1 := by
  have bounds := fits.within.bounds
  have inside := (fits.within.inBounds short).position
  obtain ⟨progress, task⟩ := moment
  cases task with
  | chunk brace braces block part =>
    obtain ⟨⟨cut, before⟩, ⟨positive, few⟩, shallow⟩ := fits.task
    have ordered := before.trans bounds.ahead
    refine ⟨⟨positive, by omega⟩, by omega, ?_⟩
    rw [Nat.min_eq_left ordered]
    exact cut.takes bounds.offset ordered
  | property name part =>
    cases part with
    | typeSuffix label number =>
      obtain ⟨cut, before⟩ := fits.task
      exact cut.takes bounds.stop (before.trans (bounds.ahead.trans (Token.offset_le_stop _)))
    | group label value depth =>
      obtain ⟨positive, few⟩ := fits.task
      exact ⟨positive, by omega⟩
    | _ => trivial
  | _ => trivial

end Moment

open Moment

/-- No reading goes out of bounds, wherever it begins in a source that is short enough for its lines to be counted. -/
theorem read_inBounds (source : String) (capacity : LiteralTable.Capacity) (reader : Reader)
    (short : source.utf8ByteSize < 2 ^ 32 - 1) (reached : Reader.Reached (.start source capacity) reader) :
    reader.InBounds source ∧ (∃ last ∈ eval step (start reader), last.result? = some (read reader)) ∧
      ∀ moment, Reaches step (start reader) moment →
        moment.reader.InBounds source ∧ moment.task.InBounds source moment.reader.next.1 := by
  have within := Reader.within_of_reached reached
  have first : (start reader).Fits source.toList := ⟨within, trivial⟩
  refine ⟨within.inBounds short, exists_mem_eval reader, fun moment course => ?_⟩
  have fits : moment.Fits source.toList := invariant_of_reaches (fun _ _ => fits_step) first course
  exact ⟨fits.within.inBounds short, fits.inBounds short⟩

/-- A chunk that is read after a complaint, with placeholders for its name and its brace. -/
theorem read_inBounds_after_complaint :
    let source := "x glsl é // \\é\n \"\\é\" \x7d"
    let first := Reader.start source {}
    let reader := (first.expect .number).2
    (reader.hasError ∧
        ((read reader).1.toOption.map fun effect => effect.chunks.map Chunk.code) =
          some [" é // \\é\n \"\\é\" "]) ∧
      source.utf8ByteSize < 2 ^ 32 - 1 ∧ Reader.Reached first reader ∧ reader.InBounds source ∧
      ∀ moment, Reaches step (start reader) moment →
        moment.reader.InBounds source ∧ moment.task.InBounds source moment.reader.next.1 := by
  intro source first reader
  have short : source.utf8ByteSize < 2 ^ 32 - 1 := by decide +kernel
  have reached : Reader.Reached first reader := .expect .number .refl
  obtain ⟨inBounds, -, everywhere⟩ := read_inBounds source {} reader short reached
  exact ⟨by decide +kernel, short, reached, inBounds, everywhere⟩

end Document

end EffectLang
