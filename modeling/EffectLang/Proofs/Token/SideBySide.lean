import EffectLang.Proofs.Token.Matching

/-!
Two readers side by side. Their sources may differ in layout, and the literal table of the first may have less room.
Whatever both are asked for, they find the same tokens and make the same complaints, and all that the first may lack is
the value of a number.
-/
namespace EffectLang

/-- Two values agree in what a view shows of them, and in everything where `exact` holds. -/
structure Agree {α β : Type} (exact : Prop) (view : α → β) (first second : α) : Prop where
  shown : view first = view second
  same : exact → first = second

namespace Agree

variable {α β γ δ : Type} {exact : Prop} {view : α → β}

theorem refl (exact : Prop) (view : α → β) (value : α) : Agree exact view value value :=
  ⟨rfl, fun _ => rfl⟩

theorem map {first second : α} (agree : Agree exact view first second) {view' : γ → δ} (f : α → γ)
    (shows : ∀ value other, view value = view other → view' (f value) = view' (f other)) :
    Agree exact view' (f first) (f second) :=
  ⟨shows _ _ agree.shown, fun holds => congrArg f (agree.same holds)⟩

end Agree

/-- A complaint apart from its line. -/
def Unexpected.unlined (found : Unexpected) : Unexpected :=
  { found with line := 0 }

namespace LiteralTable

/-- A table has no more room than another one, and it holds the same values as long as it is not full. -/
structure Narrower (narrow wide : LiteralTable) : Prop where
  entries : narrow.capacity.maxEntries ≤ wide.capacity.maxEntries
  bytes : narrow.capacity.maxBytes ≤ wide.capacity.maxBytes
  values : narrow.values = wide.values ∨ narrow.hasRoom = false

variable {narrow wide : LiteralTable}

theorem Narrower.room (narrower : narrow.Narrower wide) (room : narrow.hasRoom = true) :
    wide.hasRoom = true ∧ narrow.values = wide.values := by
  obtain same | full := narrower.values
  · refine ⟨?_, same⟩
    rw [hasRoom_iff] at room ⊢
    rw [size, ← same]
    exact ⟨room.1.trans narrower.entries, room.2.trans narrower.bytes⟩
  · rw [room] at full
    cases full

/-- A value that both tables are given is found in both, or the narrow one drops it. -/
theorem Narrower.add (narrower : narrow.Narrower wide) (value : Double) :
    (narrow.add value).2.Narrower (wide.add value).2 ∧
      ((narrow.add value).2.valueAt? (narrow.add value).1 = (wide.add value).2.valueAt? (wide.add value).1 ∨
        (narrow.add value).2.valueAt? (narrow.add value).1 = none) := by
  cases room : narrow.hasRoom with
  | true =>
    obtain ⟨roomy, same⟩ := narrower.room room
    rw [add_of_room room, add_of_room roomy, same]
    exact ⟨⟨narrower.entries, narrower.bytes, .inl rfl⟩, .inl rfl⟩
  | false =>
    rw [add_of_full room]
    refine ⟨⟨?_, ?_, .inr room⟩, .inr (valueAt?_noIndex narrow)⟩
    · rw [capacity_add]
      exact narrower.entries
    · rw [capacity_add]
      exact narrower.bytes

end LiteralTable

namespace Reader

variable {exact : Prop} {first second : Reader}

structure Narrower (first second : Reader) : Prop where
  literals : first.literals.Narrower second.literals
  last : first.lastLiteral? = second.lastLiteral? ∨ first.lastLiteral? = none

theorem Narrower.keep (narrower : first.Narrower second) (numeral : Option Numeral) :
    (first.keep (numeral.map .number)).Narrower (second.keep (numeral.map .number)) := by
  cases numeral with
  | none => exact narrower
  | some numeral =>
    obtain ⟨literals, last⟩ := narrower.literals.add numeral.value
    exact ⟨literals, last⟩

/-- Two readers stand before the same tokens, with complaints that are the same apart from lines. Where `exact` holds
they stand at the same place of the same source. -/
structure Alike (exact : Prop) (first second : Reader) : Prop where
  within : ∃ source, first.Within source
  within' : ∃ source, second.Within source
  ahead : Token.Matching first.ahead second.ahead
  place : exact → first.source = second.source ∧ first.cursor = second.cursor
  error : Agree exact (Option.map Unexpected.unlined) first.error second.error
  narrower : first.Narrower second

theorem source_next (reader : Reader) : reader.next.2.source = reader.source :=
  reader.source_keep _

theorem report_eq (reader : Reader) (kind : Token.Kind) (token : Token) :
    reader.report kind token = { reader with error := some (reader.error.getD (.of kind token)) } := by
  obtain ⟨source, cursor, error, literals, lastLiteral⟩ := reader
  cases error <;> rfl

namespace Alike

theorem hasError_eq (alike : first.Alike exact second) : first.hasError = second.hasError := by
  have shown := congrArg Option.isSome alike.error.shown
  rwa [Option.isSome_map, Option.isSome_map] at shown

theorem token (alike : first.Alike exact second) : Agree exact Token.spelling first.next.1 second.next.1 where
  shown := alike.ahead.next.1
  same holds := congrArg (fun cursor => cursor.scan.token) (alike.place holds).2

theorem next (alike : first.Alike exact second) : first.next.2.Alike exact second.next.2 where
  within := alike.within.imp fun _ within => within.next
  within' := alike.within'.imp fun _ within => within.next
  ahead := alike.ahead.next.2
  place holds := by
    obtain ⟨source, cursor⟩ := alike.place holds
    rw [source_next, source_next]
    exact ⟨source, congrArg (fun cursor => cursor.scan.after) cursor⟩
  error := by
    rw [error_next, error_next]
    exact alike.error
  narrower := by
    have numerals : first.next.1.numeral? = second.next.1.numeral? := by
      obtain ⟨kinds, texts⟩ := Token.spelling_eq_iff.mp alike.token.shown
      rw [Token.numeral?, Token.numeral?, kinds, texts]
    have kept := alike.narrower.keep second.next.1.numeral?
    rw [next_eq_keep, next_eq_keep, numerals]
    exact ⟨kept.literals, kept.last⟩

theorem look (alike : first.Alike exact second) :
    (first.next.2.restore first.cursor).Alike exact (second.next.2.restore second.cursor) where
  within := alike.within.imp fun _ within => within.next.restore within
  within' := alike.within'.imp fun _ within => within.next.restore within
  ahead := alike.ahead
  place holds := ⟨(alike.next.place holds).1, (alike.place holds).2⟩
  error := alike.next.error
  narrower := ⟨alike.next.narrower.literals, alike.next.narrower.last⟩

theorem report (alike : first.Alike exact second) (kind : Token.Kind) {token token' : Token}
    (agree : Agree exact Token.spelling token token') :
    (first.report kind token).Alike exact (second.report kind token') where
  within := alike.within.imp fun _ within => within.report kind token
  within' := alike.within'.imp fun _ within => within.report kind token'
  ahead := by
    rw [report_eq, report_eq]
    exact alike.ahead
  place holds := by
    rw [report_eq, report_eq]
    exact alike.place holds
  error := by
    rw [report_eq, report_eq]
    have complaint : Agree exact Unexpected.unlined (.of kind token) (.of kind token') := by
      refine agree.map (Unexpected.of kind) ?_
      intro token token' spelled
      obtain ⟨kinds, texts⟩ := Token.spelling_eq_iff.mp spelled
      simp only [Unexpected.of, Unexpected.unlined, kinds, texts]
    refine ⟨?_, fun holds => by rw [alike.error.same holds, complaint.same holds]⟩
    rw [Option.map_some, Option.map_some, ← Option.getD_map Unexpected.unlined, ← Option.getD_map Unexpected.unlined,
      alike.error.shown, complaint.shown]
  narrower := by
    rw [report_eq, report_eq]
    exact ⟨alike.narrower.literals, alike.narrower.last⟩

theorem expect (alike : first.Alike exact second) (kind : Token.Kind) :
    (∃ token later token' later', first.expect kind = (.ok token, later) ∧ second.expect kind = (.ok token', later') ∧
        Agree exact Token.spelling token token' ∧ later.Alike exact later') ∨
      ∃ error later error' later', first.expect kind = (.error error, later) ∧
        second.expect kind = (.error error', later') ∧ later.Alike exact later' := by
  have errors := alike.hasError_eq
  have kinds := (Token.spelling_eq_iff.mp alike.token.shown).1
  simp only [Reader.expect, ← errors, ← kinds]
  split_ifs
  · refine .inl ⟨_, _, _, _, rfl, rfl, ⟨rfl, ?_⟩, alike⟩
    intro holds
    rw [placeholder, placeholder, (alike.place holds).2]
  · exact .inl ⟨_, _, _, _, rfl, rfl, alike.token, alike.next⟩
  · exact .inr ⟨_, _, _, _, rfl, rfl, alike.next.report kind alike.token⟩

end Alike

theorem alike_start {source source' : String} {narrow wide : LiteralTable.Capacity}
    (entries : narrow.maxEntries ≤ wide.maxEntries) (bytes : narrow.maxBytes ≤ wide.maxBytes)
    (matching : Token.Matching (start source narrow).ahead (start source' wide).ahead)
    (same : exact → source = source') :
    (start source narrow).Alike exact (start source' wide) where
  within := ⟨_, within_of_reached .refl⟩
  within' := ⟨_, within_of_reached .refl⟩
  ahead := matching
  place holds := by
    rw [same holds]
    exact ⟨rfl, rfl⟩
  error := .refl _ _ _
  narrower := ⟨⟨entries, bytes, .inl rfl⟩, .inl rfl⟩

end Reader

end EffectLang
