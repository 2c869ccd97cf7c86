import EffectLang.Glsl.Constants
import EffectLang.Proofs.Blob.FullSink

/-!
The local constants of an effect. Its float properties appear three times: as members of the uniform block, as values
for them and as bytes. All three follow the order of the declarations, so that a reader of the bytes gets each value
at the place of its member.
-/
namespace EffectLang

def Effect.floatProperties (effect : Effect) : List Property :=
  effect.properties.filter fun property => property.value.kind = .float

namespace LocalConstants

variable {effect : Effect}

theorem one_le_padding (floats : Nat) : 1 ≤ padding floats := by
  unfold padding
  omega

theorem padding_le_four (floats : Nat) : padding floats ≤ 4 := by
  unfold padding
  omega

theorem four_dvd_add_padding (floats : Nat) : 4 ∣ floats + padding floats := by
  unfold padding
  omega

theorem floatDefault?_eq_some_iff {property : Property} {default : Single} :
    floatDefault? property = some default ↔ property.value = .float default := by
  unfold floatDefault?
  cases property.value <;> simp

theorem floatDefault?_eq_none_iff {property : Property} :
    floatDefault? property = none ↔ property.value.kind ≠ .float := by
  unfold floatDefault?
  cases property.value with
  | texture shape default => cases shape <;> simp [Property.Value.kind, TextureShape.kind]
  | _ => simp [Property.Value.kind]

/-- The members go side by side with the properties that they are for. -/
theorem forall₂_floats (effect : Effect) :
    List.Forall₂ (fun property member => property.name = member.1 ∧ property.value = .float member.2)
      effect.floatProperties (floats effect) := by
  unfold Effect.floatProperties floats
  induction effect.properties with
  | nil => exact .nil
  | cons property properties ih =>
    cases given : floatDefault? property with
    | none =>
      have other : ¬decide (property.value.kind = .float) = true := by simpa using floatDefault?_eq_none_iff.mp given
      rw [List.filter_cons, if_neg other, List.filterMap_cons_none (by rw [given]; rfl)]
      exact ih
    | some default =>
      have value : property.value = .float default := floatDefault?_eq_some_iff.mp given
      rw [List.filter_cons, if_pos (by rw [value]; rfl), List.filterMap_cons_some (by rw [given]; rfl)]
      exact .cons ⟨rfl, value⟩ ih

theorem map_name_floatProperties (effect : Effect) :
    effect.floatProperties.map Property.name = (floats effect).map Prod.fst := by
  rw [← List.forall₂_eq_eq_eq, List.forall₂_map_left_iff, List.forall₂_map_right_iff]
  exact (forall₂_floats effect).imp fun _ _ same => same.1

theorem length_floats (effect : Effect) : (floats effect).length = effect.floatProperties.length :=
  (forall₂_floats effect).length_eq.symm

section Declared

variable (declared : effect.properties ≠ [])

include declared

theorem block_eq :
    (ofEffect effect).block =
      opening ++ String.join (effect.floatProperties.map fun property => member property.name) ++
        closing (padding effect.floatProperties.length) := by
  have lines : (floats effect).map (fun entry => member entry.1) =
      effect.floatProperties.map fun property => member property.name := by
    have named := congrArg (List.map member) (map_name_floatProperties effect)
    rw [List.map_map, List.map_map] at named
    exact named.symm
  rw [ofEffect, if_neg (by simpa using declared), ← length_floats, ← lines]

theorem defaults_eq :
    (ofEffect effect).defaults =
      (floats effect).map Prod.snd ++ List.replicate (padding effect.floatProperties.length) .zero := by
  rw [ofEffect, if_neg (by simpa using declared), ← length_floats]

theorem length_defaults :
    (ofEffect effect).defaults.length = effect.floatProperties.length + padding effect.floatProperties.length := by
  rw [defaults_eq declared, List.length_append, List.length_map, List.length_replicate, length_floats]

theorem defaults_get_of_member {k : Nat} {property : Property} (there : effect.floatProperties[k]? = some property) :
    ∃ default, property.value = .float default ∧ (ofEffect effect).defaults[k]? = some default := by
  obtain ⟨inside, rfl⟩ := List.getElem?_eq_some_iff.mp there
  have within : k < (floats effect).length := by rwa [length_floats]
  obtain ⟨-, value⟩ := (forall₂_floats effect).get inside within
  refine ⟨_, value, ?_⟩
  rw [defaults_eq declared, List.getElem?_append_left (by simpa using within), List.getElem?_map,
    List.getElem?_eq_getElem within]
  rfl

theorem defaults_get_of_padding {k : Nat} (behind : effect.floatProperties.length ≤ k)
    (inside : k < (ofEffect effect).defaults.length) : (ofEffect effect).defaults[k]? = some .zero := by
  rw [length_defaults declared] at inside
  rw [defaults_eq declared, List.getElem?_append_right (by rwa [List.length_map, length_floats]), List.length_map,
    length_floats]
  exact List.getElem?_replicate_of_lt (by omega)

end Declared

variable {constants : LocalConstants}

theorem blob_eq (constants : LocalConstants) :
    constants.blob = .ok (littleEndian 4 constants.byteSize.toNat ++
      (constants.defaults.map fun default => littleEndian 4 default.bits.toNat).flatten) := by
  have values : Writing.each Codec.single.write constants.defaults =
      .bytes (constants.defaults.map fun default => littleEndian 4 default.bits.toNat).flatten := by
    apply Codec.write_each
    rw [List.forall₂_map_right_iff, List.forall₂_same]
    intro default _
    exact (Codec.stores_uint32 default.bits).iso rfl
  rw [blob, values, (Codec.stores_uint32 constants.byteSize).write, Writing.bytes_andThen_bytes, Writing.run_bytes]

/-- Behind the size, the bytes of a value stand as far from the start as the values before it take. -/
theorem blob_get {blob : List UInt8} (written : constants.blob = .ok blob) {k : Nat}
    {default : Single} (there : constants.defaults[k]? = some default) :
    ((blob.drop 4).drop (4 * k)).take 4 = littleEndian 4 default.bits.toNat := by
  rw [blob_eq] at written
  cases written
  rw [List.drop_left' (length_littleEndian 4 _)]
  apply take_drop_flatten
  · simp only [List.forall_mem_map]
    exact fun value _ => length_littleEndian 4 _
  · rw [List.getElem?_map, there]
    rfl

theorem toNat_byteSize (constants : LocalConstants) :
    constants.byteSize.toNat = 4 * constants.defaults.length % 2 ^ 32 := by
  rw [byteSize, UInt32.toNat_ofNat', Nat.mul_comm]

/-- Reads a size in bytes, and as many values as make it up. -/
def readDefaults : Reading (UInt32 × List Single) :=
  .andThen Codec.uint32.read fun size => .map (fun values => (size, values)) (Codec.single.read.times (size.toNat / 4))

theorem readDefaults_blob (sized : constants.byteSize.toNat = 4 * constants.defaults.length) :
    ∃ blob, constants.blob = .ok blob ∧ readDefaults blob = .ok ((constants.byteSize, constants.defaults), []) := by
  have counted : constants.byteSize.toNat / 4 = constants.defaults.length := by omega
  have values := Writing.readBack_timesInto constants.defaults [] fun default _ => Codec.restores_single default
  rw [← counted] at values
  have stored : (Writing.andThen (Codec.uint32.write constants.byteSize)
      (.each Codec.single.write constants.defaults)).ReadBack readDefaults (constants.byteSize, constants.defaults) :=
    (Codec.restores_uint32 constants.byteSize).andThen (values.map fun values => (constants.byteSize, values))
  obtain ⟨after, success, written⟩ := Writing.run_success (blob_eq constants)
  obtain ⟨bytes, added, read⟩ := stored {} after success
  refine ⟨bytes, ?_, by simpa using read []⟩
  rw [blob_eq, ← written, added]
  rfl

/-- The text of the block, the values and the bytes of an effect with properties, as long as 32 bits hold the size in
bytes. Each float property is a member of the block, in the order of declaration, and has its default at the same
place among the values. One to four zeros, declared as one array, make the number of values a multiple of four. From
the bytes the size and the values are read back, and nothing is left over. Without properties there is no text, and
the bytes are those of the size zero. -/
theorem blob_matches_block (effect : Effect) :
    let constants := ofEffect effect
    let members := effect.floatProperties
    (effect.properties = [] → constants.block = "" ∧ constants.blob = .ok [0, 0, 0, 0]) ∧
    (effect.properties ≠ [] → 4 * (members.length + 4) < 2 ^ 32 → ∃ padding, 1 ≤ padding ∧ padding ≤ 4 ∧
      constants.block = "layout(std140, binding=7) uniform LocalConstants \x7b\n" ++
        String.join (members.map fun property => "\tfloat " ++ property.name ++ ";\n") ++
        ("\tfloat pad_tail[" ++ toString padding ++ "];\n\x7d;\n") ∧
      constants.defaults.length = members.length + padding ∧ 4 ∣ members.length + padding ∧
      (∀ (k : Nat) (property : Property), members[k]? = some property →
        ∃ default, property.value = .float default ∧ constants.defaults[k]? = some default) ∧
      (∀ k : Nat, members.length ≤ k → k < constants.defaults.length → constants.defaults[k]? = some .zero) ∧
      constants.byteSize.toNat = 4 * (members.length + padding) ∧
      ∃ blob, constants.blob = .ok blob ∧ readDefaults blob = .ok ((constants.byteSize, constants.defaults), [])) := by
  intro constants members
  constructor
  · intro none
    have nothing : constants = {} := by simp [constants, ofEffect, none]
    rw [nothing]
    exact ⟨rfl, by rw [blob_eq]; rfl⟩
  · intro declared small
    have counted : constants.defaults.length = members.length + padding members.length := length_defaults declared
    have sized : constants.byteSize.toNat = 4 * constants.defaults.length := by
      rw [toNat_byteSize, counted]
      exact Nat.mod_eq_of_lt (by have := padding_le_four members.length; omega)
    refine ⟨padding members.length, one_le_padding _, padding_le_four _, ?_, counted, four_dvd_add_padding _,
      ?_, ?_, ?_, ?_⟩
    · exact block_eq declared
    · intro k property there
      exact defaults_get_of_member declared there
    · intro k behind inside
      exact defaults_get_of_padding declared behind inside
    · rw [sized, counted]
    · exact readDefaults_blob sized

/-- Two floats, one of them a NaN with a payload, around an integer. -/
theorem blob_matches_block_mixed :
    let effect : Effect :=
      { properties := [⟨"a", "A", .float ⟨0x7FC00001⟩⟩, ⟨"n", "N", .int 7⟩, ⟨"b", "B", .float .one⟩] }
    effect.properties ≠ [] ∧ 4 * (effect.floatProperties.length + 4) < 2 ^ 32 ∧
      (ofEffect effect).byteSize.toNat = 16 ∧ ∃ blob, (ofEffect effect).blob = .ok blob ∧
        readDefaults blob = .ok ((16, [⟨0x7FC00001⟩, .one, .zero, .zero]), []) := by
  intro effect
  have declared : effect.properties ≠ [] := by decide
  have small : 4 * (effect.floatProperties.length + 4) < 2 ^ 32 := by decide
  obtain ⟨padding, -, -, -, counted, -, -, -, sized, read⟩ := (blob_matches_block effect).2 declared small
  have two : padding = 2 := Nat.add_left_cancel counted.symm
  subst two
  exact ⟨declared, small, sized, read⟩

end LocalConstants

end EffectLang
