import EffectLang.Proofs.Document.Chunk
import EffectLang.Proofs.Document.Pass
import EffectLang.Proofs.Document.Property

/-!
Every well-formed file is read back. However its atoms are laid out, the reading gives the effect that its
declarations describe, without a complaint, unless the literal table has no room for its numbers.
-/
namespace EffectLang.Document

open Source

variable {enough : Prop} {atoms : List Atom}

private theorem declarations_word {progress later : Progress} {word : String}
    (kind : progress.reader.next.1.kind = .identifier) (text : progress.reader.next.1.text = word)
    (read : declaration word (progress.moveTo progress.reader.next.2) = (none, later)) :
    declarations progress = declarations later := by
  rw [declarations]
  simp only [kind, text, reduceCtorEq, if_false, if_true, read]

private theorem declarations_error {progress later : Progress} {word : String} {error : Error}
    (kind : progress.reader.next.1.kind = .identifier) (text : progress.reader.next.1.text = word)
    (read : declaration word (progress.moveTo progress.reader.next.2) = (some error, later)) :
    declarations progress = (some error, later) := by
  rw [declarations]
  simp only [kind, text, reduceCtorEq, if_false, if_true, read]

private theorem declarations_closeBrace {progress : Progress} (kind : progress.reader.next.1.kind = .closeBrace) :
    declarations progress = declarations ⟨progress.effect, progress.depth - 1, progress.reader.next.2⟩ := by
  rw [declarations]
  simp only [kind, reduceCtorEq, if_false, if_true]
  rfl

private theorem declarations_end {effect : Effect} {reader : Reader} (facing : reader.Facing enough []) :
    ∃ later, declarations ⟨effect, 0, reader⟩ = (none, ⟨effect, 0, later⟩) ∧ later.error = none := by
  obtain ⟨kind, calm⟩ := facing.next_end
  refine ⟨reader.next.2, ?_, calm⟩
  rw [declarations]
  simp only [kind, if_true]
  rfl

/-- One declaration adds what it describes and leaves the rest to be read. Only properties can lack room. -/
theorem declarations_cons (declaration : Declaration) {effect : Effect} {depth : Nat} {reader : Reader}
    (facing : reader.Facing enough (declaration.atoms ++ atoms)) :
    (∃ later, declarations ⟨effect, depth, reader⟩ = declarations ⟨declaration.addTo effect, depth, later⟩ ∧
        later.Facing enough atoms) ∨
      ∃ line later, declarations ⟨effect, depth, reader⟩ = (some (.literalOverflow line), later) ∧ ¬enough ∧
        declaration.isProperties = true := by
  cases declaration with
  | chunk name code =>
    obtain ⟨kind, text, facingName⟩ := Reader.Facing.next_word facing
    obtain ⟨later, read, facingLater⟩ := chunk?_of_facing facingName
    refine .inl ⟨later, declarations_word kind text ?_, facingLater⟩
    simp only [show Word.glsl.text = "glsl" from rfl, Document.declaration, Progress.moveTo, read]
    rfl
  | pass name lines =>
    simp only [Declaration.atoms, List.append_assoc, List.cons_append, List.nil_append] at facing
    obtain ⟨kind, text, facingName⟩ := facing.next_word
    obtain ⟨later, read, facingLater⟩ := @pass?_of_facing enough effect _ _ _ _ facingName
    refine .inl ⟨later, declarations_word kind text ?_, facingLater⟩
    simp only [show Word.pass.text = "pass" from rfl, Document.declaration, Progress.moveTo, read]
    rfl
  | properties items =>
    simp only [Declaration.atoms, List.append_assoc, List.cons_append, List.nil_append] at facing
    obtain ⟨kind, text, facingBrace⟩ := facing.next_word
    rcases recovers_properties facingBrace with ⟨later, read, facingLater⟩ | ⟨line, later, read, scarce⟩
    · refine .inl ⟨later, declarations_word kind text ?_, facingLater⟩
      simp only [show Word.properties.text = "properties" from rfl, Document.declaration, Progress.moveTo, read]
      rfl
    · refine .inr ⟨line, ⟨effect, depth, later⟩, declarations_error kind text ?_, scarce, rfl⟩
      simp only [show Word.properties.text = "properties" from rfl, Document.declaration, Progress.moveTo, read]

theorem declarations_append (items : List Declaration) {effect : Effect} {depth : Nat} {reader : Reader}
    (facing : reader.Facing enough (items.flatMap Declaration.atoms ++ atoms)) :
    (∃ later, declarations ⟨effect, depth, reader⟩ =
          declarations ⟨items.foldl Declaration.addTo effect, depth, later⟩ ∧ later.Facing enough atoms) ∨
      ∃ line later, declarations ⟨effect, depth, reader⟩ = (some (.literalOverflow line), later) ∧ ¬enough ∧
        ∃ item ∈ items, item.isProperties = true := by
  induction items generalizing effect reader with
  | nil => exact .inl ⟨reader, rfl, facing⟩
  | cons item items ih =>
    rw [List.flatMap_cons, List.append_assoc] at facing
    rcases @declarations_cons _ _ item effect depth _ facing with
      ⟨later, step, facingItems⟩ | ⟨line, later, step, scarce, here⟩
    · rw [step]
      rcases ih facingItems with recovered | ⟨line, later, step, scarce, other, member, there⟩
      · exact .inl recovered
      · exact .inr ⟨line, later, step, scarce, other, .tail _ member, there⟩
    · exact .inr ⟨line, later, step, scarce, item, .head _, here⟩

theorem heading_of_facing {name : Word} {progress : Progress}
    (facing : progress.reader.Facing enough (.word name :: .mark .openBrace :: atoms)) :
    ∃ later, heading progress = ⟨{ progress.effect with name := name.text }, progress.depth + 1, later⟩ ∧
      later.Facing enough atoms := by
  obtain ⟨nameKind, text, facingBrace⟩ := facing.next_word
  obtain ⟨braceKind, -, later⟩ := facingBrace.next_mark
  have nameRead := facing.expect nameKind
  have braceRead : progress.reader.next.2.expect .openBrace = _ := facingBrace.expect braceKind
  refine ⟨_, ?_, later⟩
  simp only [heading, nameRead, braceRead, text]

/-- A reader that faces a whole file finds its effect and no complaint, or lacks room for a literal. -/
theorem declarations_of_file (file : File) {reader : Reader} (facing : reader.Facing enough file.atoms) :
    (∃ later, declarations ⟨{}, 0, reader⟩ = (none, ⟨file.effect, 0, later⟩) ∧ later.error = none) ∨
      ∃ line later, declarations ⟨{}, 0, reader⟩ = (some (.literalOverflow line), later) ∧ ¬enough ∧
        ∃ item ∈ file.declarations, item.isProperties = true := by
  obtain ⟨header, items⟩ := file
  cases header with
  | none =>
    have facingItems : reader.Facing enough (items.flatMap Declaration.atoms ++ []) := by
      simpa [File.atoms, File.body] using facing
    rcases declarations_append items facingItems with ⟨later, step, ended⟩ | overflow
    · rw [step]
      exact .inl (declarations_end ended)
    · exact .inr overflow
  | some name =>
    simp only [File.atoms, File.body, List.cons_append, List.nil_append] at facing
    obtain ⟨kind, text, facingName⟩ := facing.next_word
    obtain ⟨inside, opened, facingItems⟩ :=
      @heading_of_facing _ _ _ (Progress.moveTo ⟨{}, 0, reader⟩ reader.next.2) facingName
    have entered : declarations ⟨{}, 0, reader⟩ = declarations ⟨{ name := name.text }, 1, inside⟩ := by
      refine declarations_word kind text ?_
      simp only [show Word.effect.text = "effect" from rfl, Document.declaration, opened]
      rfl
    rw [entered]
    rcases declarations_append items facingItems with ⟨later, step, facingBrace⟩ | overflow
    · obtain ⟨braceKind, -, ended⟩ := facingBrace.next_mark
      rw [step, declarations_closeBrace braceKind]
      exact .inl (declarations_end ended)
    · exact .inr overflow

private theorem parse_of_declarations {text : String} {capacity : LiteralTable.Capacity} {effect : Effect}
    {later : Reader} (calm : later.error = none)
    (read : declarations ⟨{}, 0, .start text capacity⟩ = (none, ⟨effect, 0, later⟩)) :
    parse text capacity = .ok ⟨effect, none⟩ := by
  simp only [parse, outcome, Document.read, read, calm]

/-- A text in which a file is written is read as its effect without a complaint, unless there is not enough room for
its properties. -/
theorem parse_of_written (file : File) {text : String} {capacity : LiteralTable.Capacity}
    (written : Layout file.atoms text.toList) (ample : enough → (Reader.start text capacity).Ample)
    (found : enough ∨ capacity.maxBytes ≤ 2 ^ 32) :
    parse text capacity = .ok ⟨file.effect, none⟩ ∨
      (∃ line, parse text capacity = .error (.literalOverflow line)) ∧ ¬enough ∧
        ∃ item ∈ file.declarations, item.isProperties = true := by
  have facing : (Reader.start text capacity).Facing enough file.atoms :=
    ⟨⟨rfl, ample, found⟩, [], text.toList, Reader.placed_start text capacity, written⟩
  rcases declarations_of_file file facing with ⟨later, read, calm⟩ | ⟨line, later, read, scarce⟩
  · exact .inl (parse_of_declarations calm read)
  · refine .inr ⟨⟨line, ?_⟩, scarce⟩
    simp only [parse, outcome, Document.read, read]

end EffectLang.Document
