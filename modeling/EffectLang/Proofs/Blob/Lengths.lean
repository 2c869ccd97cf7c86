import EffectLang.Blob.Effect
import Mathlib

/-!
Which effects have a binary form. Writing into a sink without limit fails only at a length that does not fit its prefix,
so the lengths of all texts and lists of an effect, in the order of writing, tell whether it can be written and at which
of them it fails.
-/
namespace EffectLang

section Lengths

/-- The lengths that go in front when a list is written: its own, and those of its elements. -/
def listLengths {α : Type} (lengths : α → List Nat) (values : List α) : List Nat :=
  values.length :: values.flatMap lengths

def Resource.lengths (resource : Resource) : List Nat :=
  [resource.name.utf8ByteSize]

def Chunk.lengths (chunk : Chunk) : List Nat :=
  chunk.name.utf8ByteSize :: (listLengths (fun name => [name.utf8ByteSize]) chunk.includes ++
    (listLengths (fun _ => []) chunk.includeFlags ++
      (listLengths Resource.lengths chunk.resources ++ [chunk.code.utf8ByteSize])))

def Pass.lengths (pass : Pass) : List Nat :=
  pass.name.utf8ByteSize :: (listLengths (fun _ => []) pass.shaders ++ listLengths (fun _ => []) pass.resourceLists)

def Property.Value.lengths : Property.Value → List Nat
  | .texture _ default => [default.utf8ByteSize]
  | _ => []

def Property.lengths (property : Property) : List Nat :=
  property.name.utf8ByteSize :: property.label.utf8ByteSize :: property.value.lengths

/-- The lengths of all texts in bytes and of all lists in elements. -/
def Effect.lengths (effect : Effect) : List Nat :=
  effect.name.utf8ByteSize :: (listLengths Pass.lengths effect.passes ++ (listLengths Chunk.lengths effect.chunks ++
    (listLengths (fun list => listLengths Resource.lengths list.resources) effect.resourceLists ++
      (listLengths (fun state => [state.name.utf8ByteSize]) effect.renderStates ++
        listLengths Property.lengths effect.properties))))

end Lengths

/-- What comes of writing some lengths: the first one that does not fit is the error. -/
def Codec.verdict (lengths : List Nat) : Except Error Unit :=
  match lengths.find? (maxLength < ·) with
  | none => .ok ()
  | some length => .error (.lengthOverflow length)

namespace Writing

variable {α : Type}

/-- In a sink without limit an act of writing succeeds or fails by some lengths alone. -/
def Measured (writing : Writing) (lengths : List Nat) : Prop :=
  ∀ sink : Sink, sink.limit = none →
    (writing sink).1 = Codec.verdict lengths ∧ (writing sink).2.limit = none

theorem measured_nothing : nothing.Measured [] := by
  intro sink unlimited
  exact ⟨rfl, unlimited⟩

theorem measured_bytes (values : List UInt8) : (bytes values).Measured [] := by
  intro sink unlimited
  have all : sink.fitting values = values := by rw [Sink.fitting, unlimited]
  simp only [bytes, all, if_true]
  exact ⟨rfl, unlimited⟩

theorem Measured.andThen {first second : Writing} {lengths others : List Nat} (head : first.Measured lengths)
    (last : second.Measured others) : (first.andThen second).Measured (lengths ++ others) := by
  intro sink unlimited
  obtain ⟨result, still⟩ := head sink unlimited
  rcases outcome : first sink with ⟨given, after⟩
  simp only [outcome] at result still
  obtain ⟨rest, ends⟩ := last after still
  unfold Codec.verdict at result rest ⊢
  rw [List.find?_append, Writing.andThen, outcome, result]
  cases lengths.find? (Codec.maxLength < ·) with
  | none => exact ⟨by simpa using rest, ends⟩
  | some length => exact ⟨rfl, still⟩

theorem measured_each {write : α → Writing} {lengths : α → List Nat}
    (measured : ∀ value, (write value).Measured (lengths value)) (values : List α) :
    (each write values).Measured (values.flatMap lengths) := by
  induction values with
  | nil => exact measured_nothing
  | cons value values ih =>
    rw [List.flatMap_cons]
    exact (measured value).andThen ih

end Writing

namespace Codec

variable {α β κ : Type}

def Measures (codec : Codec α) (lengths : α → List Nat) : Prop :=
  ∀ value, (codec.write value).Measured (lengths value)

theorem measures_unit (value : α) : (unit value).Measures fun _ => [] :=
  fun _ => Writing.measured_nothing

theorem Measures.pair {first : Codec α} {second : Codec β} {lengths : α → List Nat} {others : β → List Nat}
    (head : first.Measures lengths) (last : second.Measures others) :
    (first.pair second).Measures fun value => lengths value.1 ++ others value.2 :=
  fun value => (head value.1).andThen (last value.2)

theorem Measures.iso {codec : Codec α} {lengths : α → List Nat} (measures : codec.Measures lengths) (pack : α → β)
    (unpack : β → α) : (codec.iso pack unpack).Measures fun value => lengths (unpack value) :=
  fun value => measures (unpack value)

theorem measures_word (width : Nat) : (word width).Measures fun _ => [] :=
  fun value => Writing.measured_bytes (littleEndian width value)

theorem measures_uint32 : uint32.Measures fun _ => [] :=
  (measures_word 4).iso _ _

theorem measures_single : single.Measures fun _ => [] :=
  measures_uint32.iso _ _

theorem measures_enumeration (name : String) (code : α → UInt32) (ofCode? : UInt32 → Option α) :
    (enumeration name code ofCode?).Measures fun _ => [] :=
  fun value => measures_uint32 (code value)

theorem measures_length : length.Measures fun value => [value] := by
  intro value
  by_cases fits : value ≤ maxLength
  · have verdict : Codec.verdict [value] = Codec.verdict [] := by
      simp [Codec.verdict, Nat.not_lt.mpr fits]
    intro sink unlimited
    rw [verdict]
    simp only [length, if_pos fits]
    exact measures_word 4 value sink unlimited
  · intro sink unlimited
    have verdict : Codec.verdict [value] = .error (.lengthOverflow value) := by
      simp [Codec.verdict, Nat.lt_of_not_le fits]
    rw [verdict]
    simp only [length, if_neg fits]
    exact ⟨rfl, unlimited⟩

theorem measures_string : string.Measures fun text => [text.utf8ByteSize] := by
  intro text
  change (string.write text).Measured [text.utf8ByteSize]
  rw [← Utf8.length_encode]
  exact (measures_length _).andThen (Writing.measured_bytes _)

theorem Measures.list {codec : Codec α} {lengths : α → List Nat} (measures : codec.Measures lengths) :
    codec.list.Measures (listLengths lengths) :=
  fun values => (measures_length values.length).andThen (Writing.measured_each measures values)

theorem measures_resource : resource.Measures Resource.lengths :=
  ((measures_enumeration _ _ _).pair measures_string).iso _ _

theorem measures_chunk : chunk.Measures Chunk.lengths :=
  (measures_string.pair (measures_string.list.pair (measures_uint32.list.pair
    (measures_resource.list.pair measures_string)))).iso _ _

theorem measures_shader : shader.Measures fun _ => [] :=
  ((measures_enumeration _ _ _).pair measures_uint32).iso _ _

theorem measures_pass : pass.Measures Pass.lengths := by
  intro value
  have measured : (pass.write value).Measured _ :=
    ((measures_string.pair (measures_shader.list.pair (measures_uint32.list.pair
      (measures_uint32.pair (measures_enumeration _ _ _))))).iso _ _) value
  simpa [Pass.lengths] using measured

/-- The payload that goes with the kind of a value has the lengths of the value. -/
theorem measures_payload (value : Property.Value) :
    ((payload value.kind).write value).Measured value.lengths := by
  cases value with
  | float default => exact measures_single default
  | int default => exact measures_uint32 default.toUInt32
  | range low high default => exact (measures_single.pair (measures_single.pair measures_single)) (low, high, default)
  | color => exact measures_unit _ _
  | vector => exact measures_unit _ _
  | texture shape default => cases shape <;> exact measures_string default
  | unknown => exact measures_unit _ _

theorem measures_property : property.Measures Property.lengths := by
  have values : propertyValue.Measures Property.Value.lengths :=
    fun value => (measures_enumeration _ _ _ value.kind).andThen (measures_payload value)
  exact (measures_string.pair (measures_string.pair values)).iso _ _

theorem measures_effect : effect.Measures Effect.lengths :=
  (measures_string.pair (measures_pass.list.pair (measures_chunk.list.pair ((measures_resource.list.iso _ _).list.pair
    ((measures_string.iso _ _).list.pair measures_property.list))))).iso _ _

end Codec

namespace Effect

variable {effect : Effect}

/-- The binary form fails with the first length that does not fit, and otherwise succeeds. -/
theorem toBytes_cases (effect : Effect) :
    (∃ bytes, effect.toBytes = .ok bytes) ∧ (∀ length ∈ effect.lengths, length ≤ Codec.maxLength) ∨
      ∃ length ∈ effect.lengths, Codec.maxLength < length ∧ effect.toBytes = .error (.lengthOverflow length) := by
  obtain ⟨result, -⟩ := Codec.measures_effect effect {} rfl
  unfold toBytes Writing.run
  rcases outcome : Codec.effect.write effect {} with ⟨given, sink⟩
  simp only [outcome] at result
  unfold Codec.verdict at result
  cases found : effect.lengths.find? (Codec.maxLength < ·) with
  | none =>
    rw [found] at result
    subst result
    refine .inl ⟨⟨sink.toList, rfl⟩, ?_⟩
    intro length member
    have small := List.find?_eq_none.mp found length member
    simpa using small
  | some length =>
    rw [found] at result
    subst result
    have large := List.find?_some found
    exact .inr ⟨length, List.mem_of_find?_eq_some found, by simpa using large, rfl⟩

end Effect

end EffectLang
