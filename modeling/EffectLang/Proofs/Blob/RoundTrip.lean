import EffectLang.Blob.Effect
import Mathlib

/-!
What was written is read back. The law is stated for one act of writing and one of reading, so it passes
from bytes to codecs, from codecs to the lists and records made of them, and at last to whole sequences of
values of different types on one stream.
-/
namespace EffectLang

/-- An act of writing that succeeds adds bytes from which, whatever follows them, `reading` takes exactly
those bytes and gives `value`. -/
def Writing.ReadBack {α : Type} (writing : Writing) (reading : Reading α) (value : α) : Prop :=
  ∀ before after, writing before = (.ok (), after) →
    ∃ bytes, after.toList = before.toList ++ bytes ∧ ∀ tail, reading (bytes ++ tail) = .ok (value, tail)

namespace Writing

variable {α β : Type}

theorem andThen_success {first second : Writing} {before after : Sink}
    (ok : andThen first second before = (.ok (), after)) :
    ∃ between, first before = (.ok (), between) ∧ second between = (.ok (), after) := by
  unfold andThen at ok
  split at ok
  · rename_i between success
    exact ⟨between, success, ok⟩
  · cases ok

theorem bytes_success {bytes : List UInt8} {before after : Sink}
    (ok : Writing.bytes bytes before = (.ok (), after)) : after.toList = before.toList ++ bytes := by
  simp only [Writing.bytes] at ok
  split at ok
  · rename_i whole
    -- Nothing was cut off, so what fits is all there is to write.
    have fits : before.fitting bytes = bytes := by
      unfold Sink.fitting at whole ⊢
      split
      · rfl
      · rename_i limit bounded
        simp only [bounded, List.length_take] at whole
        exact List.take_of_length_le (by omega)
    rw [fits] at ok
    cases ok
    simp [Sink.toList]
  · cases ok

theorem takeInto_append (bytes taken tail : List UInt8) :
    Reading.takeInto bytes.length taken (bytes ++ tail) = .ok (taken.reverse ++ bytes, tail) := by
  induction bytes generalizing taken with
  | nil => simp [Reading.takeInto]
  | cons byte bytes ih => simp [Reading.takeInto, ih]

theorem readBack_nothing (value : α) : nothing.ReadBack (.just value) value := by
  intro before after ok
  cases ok
  exact ⟨[], by simp, fun tail => rfl⟩

theorem readBack_fail (error : Error) (reading : Reading α) (value : α) :
    (fail error).ReadBack reading value := by
  intro before after ok
  cases ok

theorem readBack_bytes {bytes : List UInt8} {count : Nat} (sized : bytes.length = count) :
    (Writing.bytes bytes).ReadBack (.bytes count) bytes := by
  intro before after ok
  refine ⟨bytes, bytes_success ok, fun tail => ?_⟩
  rw [← sized]
  exact takeInto_append bytes [] tail

theorem ReadBack.andThen {first second : Writing} {reading : Reading α} {next : α → Reading β}
    {value : α} {result : β} (head : first.ReadBack reading value)
    (last : second.ReadBack (next value) result) :
    (first.andThen second).ReadBack (reading.andThen next) result := by
  intro before after ok
  obtain ⟨between, firstOk, secondOk⟩ := andThen_success ok
  obtain ⟨left, leftWritten, leftRead⟩ := head before between firstOk
  obtain ⟨right, rightWritten, rightRead⟩ := last between after secondOk
  refine ⟨left ++ right, by rw [rightWritten, leftWritten, List.append_assoc], fun tail => ?_⟩
  simp only [Reading.andThen, List.append_assoc, leftRead, rightRead]

theorem ReadBack.map {writing : Writing} {reading : Reading α} {value : α} (f : α → β)
    (stored : writing.ReadBack reading value) : writing.ReadBack (reading.map f) (f value) := by
  intro before after ok
  obtain ⟨bytes, written, read⟩ := stored before after ok
  exact ⟨bytes, written, fun tail => by simp only [Reading.map, Reading.andThen, read, Reading.just]⟩

theorem readBack_timesInto {write : α → Writing} {read : Reading α} (values taken : List α)
    (stored : ∀ value ∈ values, (write value).ReadBack read value) :
    (each write values).ReadBack (read.timesInto values.length taken) (taken.reverse ++ values) := by
  induction values generalizing taken with
  | nil => simpa [each, Reading.timesInto] using readBack_nothing taken.reverse
  | cons value values ih =>
    have head := stored value (by simp)
    have last := ih (value :: taken) fun other member => stored other (by simp [member])
    rw [List.reverse_cons, List.append_assoc] at last
    exact head.andThen last

end Writing

theorem length_littleEndian (width value : Nat) : (littleEndian width value).length = width := by
  induction width generalizing value with
  | zero => rfl
  | succ width ih => simp [littleEndian, ih]

theorem ofLittleEndian_littleEndian {width value : Nat} (bound : value < 256 ^ width) :
    ofLittleEndian (littleEndian width value) = value := by
  induction width generalizing value with
  | zero =>
    have zero : value = 0 := by simpa using bound
    simp [littleEndian, ofLittleEndian, zero]
  | succ width ih =>
    have high : value / 256 < 256 ^ width := by
      rw [Nat.div_lt_iff_lt_mul (by decide)]
      simpa [Nat.pow_succ] using bound
    have rest := ih high
    simp only [ofLittleEndian, littleEndian, List.foldr_cons, UInt8.toNat_ofNat'] at rest ⊢
    rw [rest]
    omega

theorem take_drop_flatten {width : Nat} {pieces : List (List UInt8)} (sized : ∀ piece ∈ pieces, piece.length = width)
    {k : Nat} {piece : List UInt8} (there : pieces[k]? = some piece) :
    (pieces.flatten.drop (width * k)).take width = piece := by
  induction pieces generalizing k with
  | nil => simp at there
  | cons first pieces ih =>
    obtain ⟨own, others⟩ := List.forall_mem_cons.mp sized
    cases k with
    | zero =>
      cases there
      rw [Nat.mul_zero, List.drop_zero, List.flatten_cons, List.take_left' own]
    | succ k =>
      have further : (first ++ pieces.flatten).drop (width * (k + 1)) = pieces.flatten.drop (width * k) := by
        rw [Nat.mul_succ, Nat.add_comm, ← own, List.drop_length_add_append]
      rw [List.flatten_cons, further]
      exact ih others there

namespace Codec

variable {α β κ : Type}

/-- A codec reads back what it writes for a value. -/
def Restores (codec : Codec α) (value : α) : Prop :=
  (codec.write value).ReadBack codec.read value

theorem restores_unit (value : α) : (unit value).Restores value :=
  Writing.readBack_nothing value

theorem Restores.pair {first : Codec α} {second : Codec β} {left : α} {right : β}
    (head : first.Restores left) (last : second.Restores right) :
    (first.pair second).Restores (left, right) :=
  Writing.ReadBack.andThen head (last.map fun right => (left, right))

theorem Restores.iso {codec : Codec α} {pack : α → β} {unpack : β → α} {value : β}
    (stored : codec.Restores (unpack value)) (inverse : pack (unpack value) = value) :
    (codec.iso pack unpack).Restores value := by
  have mapped := stored.map pack
  rw [inverse] at mapped
  exact mapped

theorem Restores.tagged {tag : Codec κ} {tagOf : α → κ} {payload : κ → Codec α} {value : α}
    (head : tag.Restores (tagOf value)) (last : (payload (tagOf value)).Restores value) :
    (tagged tag tagOf payload).Restores value :=
  Writing.ReadBack.andThen head last

theorem restores_word {width value : Nat} (bound : value < 256 ^ width) : (word width).Restores value := by
  have stored := (Writing.readBack_bytes (length_littleEndian width value)).map ofLittleEndian
  rw [ofLittleEndian_littleEndian bound] at stored
  exact stored

theorem restores_uint8 (value : UInt8) : uint8.Restores value :=
  (restores_word value.toNat_lt).iso (by simp)

theorem restores_uint16 (value : UInt16) : uint16.Restores value :=
  (restores_word value.toNat_lt).iso (by simp)

theorem restores_uint32 (value : UInt32) : uint32.Restores value :=
  (restores_word value.toNat_lt).iso (by simp)

theorem restores_uint64 (value : UInt64) : uint64.Restores value :=
  (restores_word value.toNat_lt).iso (by simp)

theorem restores_int32 (value : Int32) : int32.Restores value :=
  (restores_uint32 value.toUInt32).iso (by simp)

theorem restores_int64 (value : Int64) : int64.Restores value :=
  (restores_uint64 value.toUInt64).iso (by simp)

theorem restores_single (value : Single) : single.Restores value :=
  (restores_uint32 value.bits).iso rfl

theorem restores_double (value : Double) : double.Restores value :=
  (restores_uint64 value.bits).iso rfl

theorem restores_bool (value : Bool) : bool.Restores value :=
  (restores_uint8 _).iso (by cases value <;> decide)

theorem restores_length (value : Nat) : length.Restores value := by
  unfold Restores length
  dsimp only
  split
  · rename_i fits
    exact restores_word (by unfold maxLength at fits; omega)
  · exact Writing.readBack_fail _ _ _

theorem restores_string (value : String) : string.Restores value := by
  refine Writing.ReadBack.andThen (restores_length _) ?_
  intro before after ok
  obtain ⟨bytes, written, read⟩ := Writing.readBack_bytes rfl before after ok
  refine ⟨bytes, written, fun tail => ?_⟩
  simp only [Reading.andThen, read, Utf8.decode?_encode, Reading.just]

theorem restores_list {codec : Codec α} (values : List α) (stored : ∀ value ∈ values, codec.Restores value) :
    codec.list.Restores values :=
  Writing.ReadBack.andThen (restores_length values.length) (Writing.readBack_timesInto values [] stored)

theorem restores_enumeration (name : String) {code : α → UInt32} {ofCode? : UInt32 → Option α} {value : α}
    (known : ofCode? (code value) = some value) : (enumeration name code ofCode?).Restores value := by
  intro before after ok
  obtain ⟨bytes, written, read⟩ := restores_uint32 (code value) before after ok
  refine ⟨bytes, written, fun tail => ?_⟩
  simp only [enumeration, Reading.andThen, read, known, Reading.just]

theorem restores_stage (value : Stage) : stage.Restores value :=
  restores_enumeration _ value.ofCode?_code

theorem restores_resourceKind (value : Resource.Kind) : resourceKind.Restores value :=
  restores_enumeration _ value.ofCode?_code

theorem restores_passKind (value : Pass.Kind) : passKind.Restores value :=
  restores_enumeration _ value.ofCode?_code

theorem restores_propertyKind (value : Property.Kind) : propertyKind.Restores value :=
  restores_enumeration _ value.ofCode?_code

theorem restores_resource (value : Resource) : resource.Restores value := by
  refine Restores.iso ?_ rfl
  exact (restores_resourceKind _).pair (restores_string _)

theorem restores_chunk (value : Chunk) : chunk.Restores value := by
  refine Restores.iso ?_ rfl
  refine (restores_string _).pair (.pair ?_ (.pair ?_ (.pair ?_ (restores_string _))))
  · exact restores_list _ fun name _ => restores_string name
  · exact restores_list _ fun flag _ => restores_uint32 flag
  · exact restores_list _ fun resource _ => restores_resource resource

theorem restores_shader (value : Shader) : shader.Restores value := by
  refine Restores.iso ?_ rfl
  exact (restores_stage _).pair (restores_uint32 _)

theorem restores_pass (value : Pass) : pass.Restores value := by
  refine Restores.iso ?_ rfl
  refine (restores_string _).pair (.pair ?_ (.pair ?_ ((restores_uint32 _).pair (restores_passKind _))))
  · exact restores_list _ fun shader _ => restores_shader shader
  · exact restores_list _ fun index _ => restores_uint32 index

theorem restores_resourceList (value : ResourceList) : resourceList.Restores value :=
  (restores_list _ fun resource _ => restores_resource resource).iso rfl

theorem restores_renderState (value : RenderState) : renderState.Restores value :=
  (restores_string _).iso rfl

-- A payload is only ever written for values of its own kind, and only for those it is an inverse.
theorem restores_payload (value : Property.Value) : (payload value.kind).Restores value := by
  cases value with
  | float default => exact (restores_single default).iso rfl
  | int default => exact (restores_int32 default).iso rfl
  | range min max default =>
    refine Restores.iso ?_ rfl
    exact (restores_single min).pair ((restores_single max).pair (restores_single default))
  | color => exact restores_unit _
  | vector => exact restores_unit _
  | texture shape default => cases shape <;> exact (restores_string default).iso rfl
  | unknown => exact restores_unit _

theorem restores_property (value : Property) : property.Restores value := by
  refine Restores.iso ?_ rfl
  exact (restores_string _).pair ((restores_string _).pair
    ((restores_propertyKind _).tagged (restores_payload _)))

theorem restores_effect (value : Effect) : effect.Restores value := by
  refine Restores.iso ?_ rfl
  refine (restores_string _).pair (.pair ?_ (.pair ?_ (.pair ?_ (.pair ?_ ?_))))
  · exact restores_list _ fun pass _ => restores_pass pass
  · exact restores_list _ fun chunk _ => restores_chunk chunk
  · exact restores_list _ fun list _ => restores_resourceList list
  · exact restores_list _ fun state _ => restores_renderState state
  · exact restores_list _ fun property _ => restores_property property

end Codec

/-- The types that a stream can hold. -/
inductive Format where
  | uint8
  | uint16
  | uint32
  | uint64
  | int32
  | int64
  | single
  | double
  | bool
  | string
  | stage
  | resourceKind
  | passKind
  | propertyKind
  | resource
  | chunk
  | shader
  | pass
  | resourceList
  | renderState
  | property
  | effect
  | list (element : Format)
deriving DecidableEq, Repr

namespace Format

abbrev Value : Format → Type
  | uint8 => UInt8
  | uint16 => UInt16
  | uint32 => UInt32
  | uint64 => UInt64
  | int32 => Int32
  | int64 => Int64
  | single => Single
  | double => Double
  | bool => Bool
  | string => String
  | stage => Stage
  | resourceKind => Resource.Kind
  | passKind => Pass.Kind
  | propertyKind => Property.Kind
  | resource => Resource
  | chunk => Chunk
  | shader => Shader
  | pass => Pass
  | resourceList => ResourceList
  | renderState => RenderState
  | property => Property
  | effect => Effect
  | list element => List element.Value

def codec : (format : Format) → Codec format.Value
  | uint8 => .uint8
  | uint16 => .uint16
  | uint32 => .uint32
  | uint64 => .uint64
  | int32 => .int32
  | int64 => .int64
  | single => .single
  | double => .double
  | bool => .bool
  | string => .string
  | stage => .stage
  | resourceKind => .resourceKind
  | passKind => .passKind
  | propertyKind => .propertyKind
  | resource => .resource
  | chunk => .chunk
  | shader => .shader
  | pass => .pass
  | resourceList => .resourceList
  | renderState => .renderState
  | property => .property
  | effect => .effect
  | list element => element.codec.list

/-- A value with the type that it is stored as. -/
abbrev Item := (format : Format) × format.Value

def writeAll (items : List Item) : Writing :=
  .each (fun item => item.1.codec.write item.2) items

def readAll : List Format → Reading (List Item)
  | [] => .just []
  | format :: formats =>
    .andThen format.codec.read fun value => .map (fun items => ⟨format, value⟩ :: items) (readAll formats)

theorem codec_restores (format : Format) (value : format.Value) : format.codec.Restores value := by
  induction format with
  | uint8 => exact Codec.restores_uint8 value
  | uint16 => exact Codec.restores_uint16 value
  | uint32 => exact Codec.restores_uint32 value
  | uint64 => exact Codec.restores_uint64 value
  | int32 => exact Codec.restores_int32 value
  | int64 => exact Codec.restores_int64 value
  | single => exact Codec.restores_single value
  | double => exact Codec.restores_double value
  | bool => exact Codec.restores_bool value
  | string => exact Codec.restores_string value
  | stage => exact Codec.restores_stage value
  | resourceKind => exact Codec.restores_resourceKind value
  | passKind => exact Codec.restores_passKind value
  | propertyKind => exact Codec.restores_propertyKind value
  | resource => exact Codec.restores_resource value
  | chunk => exact Codec.restores_chunk value
  | shader => exact Codec.restores_shader value
  | pass => exact Codec.restores_pass value
  | resourceList => exact Codec.restores_resourceList value
  | renderState => exact Codec.restores_renderState value
  | property => exact Codec.restores_property value
  | effect => exact Codec.restores_effect value
  | list element ih => exact Codec.restores_list value fun item _ => ih item

theorem readBack_readAll (items : List Item) :
    (writeAll items).ReadBack (readAll (items.map Sigma.fst)) items := by
  induction items with
  | nil => exact Writing.readBack_nothing []
  | cons item items ih =>
    exact (codec_restores item.1 item.2).andThen (ih.map fun items => item :: items)

end Format

theorem Writing.run_success {writing : Writing} {bytes : List UInt8} (ok : writing.run = .ok bytes) :
    ∃ after, writing {} = (.ok (), after) ∧ after.toList = bytes := by
  unfold run at ok
  split at ok
  · rename_i after success
    cases ok
    exact ⟨after, success, rfl⟩
  · cases ok

/-- Values of any types, written one after another to any sink, are read back from the bytes that this
added, bit for bit and with everything after them unread; so is an effect from its binary form. -/
theorem readAll_append_of_writeAll :
    (∀ (items : List Format.Item) (before after : Sink), Format.writeAll items before = (.ok (), after) →
      ∃ bytes, after.toList = before.toList ++ bytes ∧
        ∀ tail, Format.readAll (items.map Sigma.fst) (bytes ++ tail) = .ok (items, tail)) ∧
    (∀ (items : List Format.Item) (bytes : List UInt8), (Format.writeAll items).run = .ok bytes →
      ∀ tail, Format.readAll (items.map Sigma.fst) (bytes ++ tail) = .ok (items, tail)) ∧
    ∀ (effect : Effect) (bytes : List UInt8), effect.toBytes = .ok bytes →
      ∀ tail, Effect.ofBytes (bytes ++ tail) = .ok effect := by
  refine ⟨fun items => Format.readBack_readAll items, ?_, ?_⟩
  · intro items bytes ok tail
    obtain ⟨after, success, rfl⟩ := Writing.run_success ok
    obtain ⟨bytes, written, read⟩ := Format.readBack_readAll items {} after success
    rw [written]
    exact read tail
  · intro effect bytes ok tail
    obtain ⟨after, success, rfl⟩ := Writing.run_success ok
    obtain ⟨bytes, written, read⟩ := Codec.restores_effect effect {} after success
    have whole : after.toList = bytes := written
    simp only [Effect.ofBytes, whole, read tail, Except.map]

/-- Nested lists, a NaN with a payload and a texture property, the latter behind another byte in a sink
with a limit; and an effect with a render state. -/
theorem readAll_append_of_writeAll_mixed :
    Format.writeAll [⟨.property, (⟨"p", "P", .texture .d2 "w"⟩ : Property)⟩] ⟨#[9], some 20⟩ =
      (.ok (), ⟨#[9, 1, 0, 0, 0, 112, 1, 0, 0, 0, 80, 6, 0, 0, 0, 1, 0, 0, 0, 119], some 20⟩) ∧
    (∃ bytes, [9, 1, 0, 0, 0, 112, 1, 0, 0, 0, 80, 6, 0, 0, 0, 1, 0, 0, 0, 119] = [9] ++ bytes ∧
      ∀ tail, Format.readAll [.property] (bytes ++ tail) =
        .ok ([⟨.property, (⟨"p", "P", .texture .d2 "w"⟩ : Property)⟩], tail)) ∧
    (Format.writeAll [⟨.list (.list .uint16), ([[1], [0x302, 4]] : List (List UInt16))⟩,
      ⟨.single, (⟨0x7FC00001⟩ : Single)⟩]).run =
      .ok [2, 0, 0, 0, 1, 0, 0, 0, 1, 0, 2, 0, 0, 0, 2, 3, 4, 0, 1, 0, 0xC0, 0x7F] ∧
    Format.readAll [.list (.list .uint16), .single]
      ([2, 0, 0, 0, 1, 0, 0, 0, 1, 0, 2, 0, 0, 0, 2, 3, 4, 0, 1, 0, 0xC0, 0x7F] ++ [5]) =
      .ok ([⟨.list (.list .uint16), ([[1], [0x302, 4]] : List (List UInt16))⟩,
        ⟨.single, (⟨0x7FC00001⟩ : Single)⟩], [5]) ∧
    Effect.toBytes { name := "E", renderStates := [⟨"r"⟩] } =
      .ok [1, 0, 0, 0, 69, 0, 0, 0, 0, 0, 0, 0, 0, 0, 0, 0, 0, 1, 0, 0, 0, 1, 0, 0, 0, 114, 0, 0, 0, 0] ∧
    Effect.ofBytes ([1, 0, 0, 0, 69, 0, 0, 0, 0, 0, 0, 0, 0, 0, 0, 0, 0, 1, 0, 0, 0, 1, 0, 0, 0, 114, 0, 0, 0, 0]
      ++ [5]) = .ok { name := "E", renderStates := [⟨"r"⟩] } := by
  have first : Format.writeAll [⟨.property, (⟨"p", "P", .texture .d2 "w"⟩ : Property)⟩] ⟨#[9], some 20⟩ =
      (.ok (), ⟨#[9, 1, 0, 0, 0, 112, 1, 0, 0, 0, 80, 6, 0, 0, 0, 1, 0, 0, 0, 119], some 20⟩) := by cbv
  have second : (Format.writeAll [⟨.list (.list .uint16), ([[1], [0x302, 4]] : List (List UInt16))⟩,
      ⟨.single, (⟨0x7FC00001⟩ : Single)⟩]).run =
      .ok [2, 0, 0, 0, 1, 0, 0, 0, 1, 0, 2, 0, 0, 0, 2, 3, 4, 0, 1, 0, 0xC0, 0x7F] := by cbv
  have third : Effect.toBytes { name := "E", renderStates := [⟨"r"⟩] } =
      .ok [1, 0, 0, 0, 69, 0, 0, 0, 0, 0, 0, 0, 0, 0, 0, 0, 0, 1, 0, 0, 0, 1, 0, 0, 0, 114, 0, 0, 0, 0] := by cbv
  exact ⟨first, readAll_append_of_writeAll.1 _ _ _ first, second, readAll_append_of_writeAll.2.1 _ _ second [5],
    third, readAll_append_of_writeAll.2.2 _ _ third [5]⟩

end EffectLang
