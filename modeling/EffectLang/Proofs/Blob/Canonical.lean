import EffectLang.Proofs.Blob.RoundTrip

/-!
The binary form is canonical: whatever bytes an effect is read from, writing it gives those bytes again.
This is a law of every codec that an effect is made of; the one for truth values, which takes every byte but
zero for true, is not among them.
-/
namespace EffectLang

namespace Reading

variable {α β : Type}

theorem andThen_success {reading : Reading α} {next : α → Reading β} {input rest : List UInt8} {result : β}
    (ok : reading.andThen next input = .ok (result, rest)) :
    ∃ value between, reading input = .ok (value, between) ∧ next value between = .ok (result, rest) := by
  unfold andThen at ok
  split at ok
  · rename_i value between success
    exact ⟨value, between, success, ok⟩
  · cases ok

theorem map_success {f : α → β} {reading : Reading α} {input rest : List UInt8} {result : β}
    (ok : reading.map f input = .ok (result, rest)) :
    ∃ value, reading input = .ok (value, rest) ∧ f value = result := by
  obtain ⟨value, between, success, same⟩ := andThen_success ok
  cases same
  exact ⟨value, success, rfl⟩

theorem takeInto_success {count : Nat} {taken input got rest : List UInt8}
    (ok : takeInto count taken input = .ok (got, rest)) :
    ∃ bytes, bytes.length = count ∧ input = bytes ++ rest ∧ got = taken.reverse ++ bytes := by
  fun_induction takeInto count taken input with
  | case1 taken input =>
    cases ok
    exact ⟨[], rfl, rfl, by simp⟩
  | case2 => cases ok
  | case3 count taken byte input ih =>
    obtain ⟨bytes, sized, whole, same⟩ := ih ok
    exact ⟨byte :: bytes, by simp [sized], by simp [whole], by simp [same]⟩

theorem bytes_success {count : Nat} {input got rest : List UInt8}
    (ok : Reading.bytes count input = .ok (got, rest)) : got.length = count ∧ input = got ++ rest := by
  obtain ⟨bytes, sized, whole, same⟩ := takeInto_success ok
  have equal : got = bytes := same
  exact ⟨equal ▸ sized, equal ▸ whole⟩

end Reading

namespace Writing

theorem nothing_eq_bytes : nothing = Writing.bytes [] := by
  funext ⟨written, limit⟩
  cases limit <;> simp [nothing, Writing.bytes, Sink.fitting]

private theorem append_append (written : Array UInt8) (left right : List UInt8) :
    written ++ left ++ right = written ++ (left ++ right) := by
  apply Array.toList_inj.mp
  simp

/-- Two strings of bytes are written one after the other as they are in one go, also into a sink that
fills up on the way. -/
theorem bytes_andThen_bytes (left right : List UInt8) :
    andThen (Writing.bytes left) (Writing.bytes right) = Writing.bytes (left ++ right) := by
  funext ⟨written, limit⟩
  cases limit with
  | none => simp [andThen, Writing.bytes, Sink.fitting, append_append]
  | some limit =>
    by_cases room : left.length ≤ limit - written.size
    · have whole : left.take (limit - written.size) = left := List.take_of_length_le room
      have both : (left ++ right).take (limit - written.size) =
          left ++ right.take (limit - written.size - left.length) := by
        rw [List.take_append, whole]
      have size : (written ++ left).size = written.size + left.length := by
        rw [← Array.length_toList]
        simp
      have later : limit - (written ++ left).size = limit - written.size - left.length := by omega
      simp only [andThen, Writing.bytes, Sink.fitting, whole, both, if_true, List.length_append,
        Nat.add_left_cancel_iff, later, append_append]
    · -- The first part does not fit already, so nothing of the second is stored either way.
      have short : (left.take (limit - written.size)).length ≠ left.length := by
        rw [List.length_take]
        omega
      have both : (left ++ right).take (limit - written.size) = left.take (limit - written.size) :=
        List.take_append_of_le_length (by omega)
      have shorter : (left.take (limit - written.size)).length ≠ (left ++ right).length := by
        rw [List.length_take, List.length_append]
        omega
      simp only [andThen, Writing.bytes, Sink.fitting, both, short, shorter, if_false]

theorem run_bytes (bytes : List UInt8) : (Writing.bytes bytes).run = .ok bytes := by
  simp [run, Writing.bytes, Sink.fitting, Sink.toList]

end Writing

theorem littleEndian_ofLittleEndian (bytes : List UInt8) :
    littleEndian bytes.length (ofLittleEndian bytes) = bytes := by
  induction bytes with
  | nil => rfl
  | cons byte bytes ih =>
    have low := byte.toNat_lt
    have split : ofLittleEndian (byte :: bytes) = byte.toNat + 256 * ofLittleEndian bytes := rfl
    have high : (byte.toNat + 256 * ofLittleEndian bytes) / 256 = ofLittleEndian bytes := by omega
    have first : UInt8.ofNat (byte.toNat + 256 * ofLittleEndian bytes) = byte := by
      apply UInt8.toNat_inj.mp
      rw [UInt8.toNat_ofNat']
      omega
    rw [List.length_cons, littleEndian, split, high, first, ih]

theorem ofLittleEndian_lt (bytes : List UInt8) : ofLittleEndian bytes < 256 ^ bytes.length := by
  induction bytes with
  | nil => decide
  | cons byte bytes ih =>
    have low := byte.toNat_lt
    have split : ofLittleEndian (byte :: bytes) = byte.toNat + 256 * ofLittleEndian bytes := rfl
    rw [split, List.length_cons, Nat.pow_succ]
    omega

theorem Stage.code_of_ofCode? {number : UInt32} {value : Stage} (known : ofCode? number = some value) :
    value.code = number := by
  unfold ofCode? at known
  split at known <;> cases known <;> rename_i same <;> exact UInt32.toNat_inj.mp same.symm

theorem Resource.Kind.code_of_ofCode? {number : UInt32} {value : Resource.Kind}
    (known : ofCode? number = some value) : value.code = number := by
  unfold ofCode? at known
  split at known <;> cases known <;> rename_i same <;> exact UInt32.toNat_inj.mp same.symm

theorem Pass.Kind.code_of_ofCode? {number : UInt32} {value : Pass.Kind}
    (known : ofCode? number = some value) : value.code = number := by
  unfold ofCode? at known
  split at known <;> cases known <;> rename_i same <;> exact UInt32.toNat_inj.mp same.symm

theorem Property.Kind.code_of_ofCode? {number : UInt32} {value : Property.Kind}
    (known : ofCode? number = some value) : value.code = number := by
  unfold ofCode? at known
  split at known <;> cases known <;> rename_i same <;> exact UInt32.toNat_inj.mp same.symm

namespace Codec

variable {α β κ : Type}

/-- A codec takes a value off the front of an input only where the input begins with exactly the bytes that
it writes for that value. -/
def Canonical (codec : Codec α) : Prop :=
  ∀ input value rest, codec.read input = .ok (value, rest) →
    ∃ taken, input = taken ++ rest ∧ codec.write value = .bytes taken

theorem canonical_unit (value : α) : (unit value).Canonical := by
  intro input result rest ok
  cases ok
  exact ⟨[], rfl, Writing.nothing_eq_bytes⟩

theorem Canonical.pair {first : Codec α} {second : Codec β} (head : first.Canonical)
    (last : second.Canonical) : (first.pair second).Canonical := by
  intro input value rest ok
  obtain ⟨left, between, leftRead, ok⟩ := Reading.andThen_success ok
  obtain ⟨right, rightRead, rfl⟩ := Reading.map_success ok
  obtain ⟨front, rfl, frontWritten⟩ := head input left between leftRead
  obtain ⟨back, rfl, backWritten⟩ := last between right rest rightRead
  refine ⟨front ++ back, by rw [List.append_assoc], ?_⟩
  simp only [Codec.pair, frontWritten, backWritten, Writing.bytes_andThen_bytes]

theorem Canonical.iso {codec : Codec α} {pack : α → β} {unpack : β → α} (canonical : codec.Canonical)
    (inverse : ∀ value, unpack (pack value) = value) : (codec.iso pack unpack).Canonical := by
  intro input value rest ok
  obtain ⟨packed, read, rfl⟩ := Reading.map_success ok
  obtain ⟨taken, whole, written⟩ := canonical input packed rest read
  refine ⟨taken, whole, ?_⟩
  simp only [Codec.iso, inverse, written]

/-- Here the payload has to be the one that the writer chooses: what is read under a tag has that tag. -/
theorem Canonical.tagged {tag : Codec κ} {tagOf : α → κ} {payload : κ → Codec α} (head : tag.Canonical)
    (last : ∀ kind, (payload kind).Canonical)
    (chosen : ∀ kind input value rest, (payload kind).read input = .ok (value, rest) → tagOf value = kind) :
    (tagged tag tagOf payload).Canonical := by
  intro input value rest ok
  obtain ⟨kind, between, tagRead, payloadRead⟩ := Reading.andThen_success ok
  obtain ⟨front, rfl, frontWritten⟩ := head input kind between tagRead
  obtain ⟨back, rfl, backWritten⟩ := last kind between value rest payloadRead
  have same := chosen kind _ value rest payloadRead
  refine ⟨front ++ back, by rw [List.append_assoc], ?_⟩
  simp only [Codec.tagged, same, frontWritten, backWritten, Writing.bytes_andThen_bytes]

theorem word_read {width value : Nat} {input rest : List UInt8}
    (ok : (word width).read input = .ok (value, rest)) :
    input = littleEndian width value ++ rest ∧ value < 256 ^ width := by
  obtain ⟨bytes, read, rfl⟩ := Reading.map_success ok
  obtain ⟨rfl, rfl⟩ := Reading.bytes_success read
  exact ⟨by rw [littleEndian_ofLittleEndian], ofLittleEndian_lt bytes⟩

theorem canonical_uint32 : uint32.Canonical := by
  intro input value rest ok
  obtain ⟨number, read, rfl⟩ := Reading.map_success ok
  obtain ⟨rfl, bound⟩ := word_read read
  refine ⟨littleEndian 4 number, rfl, ?_⟩
  simp only [uint32, Codec.iso, word, UInt32.toNat_ofNat_of_lt' bound]

theorem canonical_int32 : int32.Canonical :=
  canonical_uint32.iso (by simp)

theorem canonical_single : single.Canonical :=
  canonical_uint32.iso fun _ => rfl

theorem length_read {count : Nat} {input rest : List UInt8} (ok : length.read input = .ok (count, rest)) :
    ∃ taken, input = taken ++ rest ∧ length.write count = .bytes taken := by
  obtain ⟨rfl, bound⟩ := word_read ok
  have fits : count ≤ maxLength := by unfold maxLength; omega
  exact ⟨littleEndian 4 count, rfl, by simp only [length, fits, if_true, word]⟩

theorem canonical_string : string.Canonical := by
  intro input value rest ok
  obtain ⟨count, between, counted, textRead⟩ := Reading.andThen_success ok
  obtain ⟨bytes, later, read, decoding⟩ := Reading.andThen_success textRead
  obtain ⟨front, rfl, frontWritten⟩ := length_read counted
  obtain ⟨rfl, rfl⟩ := Reading.bytes_success read
  cases decoded : Utf8.decode? bytes with
  | none =>
    rw [decoded] at decoding
    cases decoding
  | some text =>
    rw [decoded] at decoding
    cases decoding
    refine ⟨front ++ bytes, by rw [List.append_assoc], ?_⟩
    simp only [string, Utf8.encode_of_decode? decoded, frontWritten, Writing.bytes_andThen_bytes]

theorem timesInto_read {codec : Codec α} (canonical : codec.Canonical) (count : Nat) (taken : List α)
    (input : List UInt8) (values : List α) (rest : List UInt8)
    (ok : codec.read.timesInto count taken input = .ok (values, rest)) :
    ∃ more bytes, values = taken.reverse ++ more ∧ more.length = count ∧ input = bytes ++ rest ∧
      Writing.each codec.write more = .bytes bytes := by
  induction count generalizing taken input with
  | zero =>
    cases ok
    exact ⟨[], [], by simp, rfl, rfl, Writing.nothing_eq_bytes⟩
  | succ count ih =>
    obtain ⟨value, between, read, ok⟩ := Reading.andThen_success ok
    obtain ⟨more, back, rfl, sized, rfl, backWritten⟩ := ih (value :: taken) between ok
    obtain ⟨front, rfl, frontWritten⟩ := canonical input value _ read
    refine ⟨value :: more, front ++ back, by simp, by simp [sized], by rw [List.append_assoc], ?_⟩
    simp only [Writing.each, frontWritten, backWritten, Writing.bytes_andThen_bytes]

theorem Canonical.list {codec : Codec α} (canonical : codec.Canonical) : codec.list.Canonical := by
  intro input values rest ok
  obtain ⟨count, between, counted, ok⟩ := Reading.andThen_success ok
  obtain ⟨more, back, same, sized, rfl, backWritten⟩ := timesInto_read canonical count [] between values rest ok
  obtain ⟨front, rfl, frontWritten⟩ := length_read counted
  have equal : values = more := same
  refine ⟨front ++ back, by rw [List.append_assoc], ?_⟩
  simp only [Codec.list, equal, sized, frontWritten, backWritten, Writing.bytes_andThen_bytes]

theorem canonical_enumeration (name : String) {code : α → UInt32} {ofCode? : UInt32 → Option α}
    (exact : ∀ number value, ofCode? number = some value → code value = number) :
    (enumeration name code ofCode?).Canonical := by
  intro input value rest ok
  obtain ⟨number, between, read, meaning⟩ := Reading.andThen_success ok
  cases known : ofCode? number with
  | none =>
    rw [known] at meaning
    cases meaning
  | some result =>
    rw [known] at meaning
    cases meaning
    obtain ⟨taken, whole, written⟩ := canonical_uint32 input number _ read
    refine ⟨taken, whole, ?_⟩
    simp only [enumeration, exact number _ known, written]

theorem canonical_stage : stage.Canonical :=
  canonical_enumeration _ fun _ _ => Stage.code_of_ofCode?

theorem canonical_resourceKind : resourceKind.Canonical :=
  canonical_enumeration _ fun _ _ => Resource.Kind.code_of_ofCode?

theorem canonical_passKind : passKind.Canonical :=
  canonical_enumeration _ fun _ _ => Pass.Kind.code_of_ofCode?

theorem canonical_propertyKind : propertyKind.Canonical :=
  canonical_enumeration _ fun _ _ => Property.Kind.code_of_ofCode?

theorem canonical_resource : resource.Canonical :=
  (canonical_resourceKind.pair canonical_string).iso fun _ => rfl

theorem canonical_chunk : chunk.Canonical :=
  (canonical_string.pair (canonical_string.list.pair (canonical_uint32.list.pair
    (canonical_resource.list.pair canonical_string)))).iso fun _ => rfl

theorem canonical_shader : shader.Canonical :=
  (canonical_stage.pair canonical_uint32).iso fun _ => rfl

theorem canonical_pass : pass.Canonical :=
  (canonical_string.pair (canonical_shader.list.pair (canonical_uint32.list.pair
    (canonical_uint32.pair canonical_passKind)))).iso fun _ => rfl

theorem canonical_resourceList : resourceList.Canonical :=
  canonical_resource.list.iso fun _ => rfl

theorem canonical_renderState : renderState.Canonical :=
  canonical_string.iso fun _ => rfl

theorem canonical_payload (kind : Property.Kind) : (payload kind).Canonical := by
  cases kind with
  | float => exact canonical_single.iso fun _ => rfl
  | int => exact canonical_int32.iso fun _ => rfl
  | range => exact (canonical_single.pair (canonical_single.pair canonical_single)).iso fun _ => rfl
  | color => exact canonical_unit _
  | vector => exact canonical_unit _
  | texture1D => exact canonical_string.iso fun _ => rfl
  | texture2D => exact canonical_string.iso fun _ => rfl
  | texture3D => exact canonical_string.iso fun _ => rfl
  | textureVolume => exact canonical_string.iso fun _ => rfl
  | unknown => exact canonical_unit _

theorem kind_of_payload (kind : Property.Kind) (input : List UInt8) (value : Property.Value)
    (rest : List UInt8) (ok : (payload kind).read input = .ok (value, rest)) : value.kind = kind := by
  cases kind with
  | color => cases ok; rfl
  | vector => cases ok; rfl
  | unknown => cases ok; rfl
  | _ =>
    obtain ⟨packed, _, rfl⟩ := Reading.map_success ok
    rfl

theorem canonical_property : property.Canonical :=
  (canonical_string.pair (canonical_string.pair
    (canonical_propertyKind.tagged canonical_payload kind_of_payload))).iso fun _ => rfl

theorem canonical_effect : effect.Canonical :=
  (canonical_string.pair (canonical_pass.list.pair (canonical_chunk.list.pair (canonical_resourceList.list.pair
    (canonical_renderState.list.pair canonical_property.list))))).iso fun _ => rfl

end Codec

/-- Whatever bytes an effect is read from, writing it succeeds and gives exactly the bytes that were consumed;
so only one sequence of bytes, with nothing after it, is read as an effect. -/
theorem toBytes_of_ofBytes :
    (∀ (bytes : List UInt8) (effect : Effect), Effect.ofBytes bytes = .ok effect →
      ∃ taken tail, effect.toBytes = .ok taken ∧ bytes = taken ++ tail) ∧
    (∀ (bytes : List UInt8) (effect : Effect) (tail : List UInt8),
      Codec.effect.read bytes = .ok (effect, tail) →
        ∃ taken, effect.toBytes = .ok taken ∧ bytes = taken ++ tail) ∧
    ∀ (left right : List UInt8) (effect : Effect), Codec.effect.read left = .ok (effect, []) →
      Codec.effect.read right = .ok (effect, []) → left = right := by
  have consumed (bytes : List UInt8) (effect : Effect) (tail : List UInt8)
      (read : Codec.effect.read bytes = .ok (effect, tail)) :
      ∃ taken, effect.toBytes = .ok taken ∧ bytes = taken ++ tail := by
    obtain ⟨taken, whole, written⟩ := Codec.canonical_effect bytes effect tail read
    refine ⟨taken, ?_, whole⟩
    rw [Effect.toBytes, written, Writing.run_bytes]
  refine ⟨?_, consumed, ?_⟩
  · intro bytes effect ok
    unfold Effect.ofBytes at ok
    cases read : Codec.effect.read bytes with
    | error error =>
      rw [read] at ok
      cases ok
    | ok result =>
      rw [read] at ok
      cases ok
      obtain ⟨taken, written, whole⟩ := consumed bytes result.1 result.2 read
      exact ⟨taken, result.2, written, whole⟩
  · intro left right effect leftRead rightRead
    obtain ⟨first, firstWritten, rfl⟩ := consumed left effect [] leftRead
    obtain ⟨second, secondWritten, rfl⟩ := consumed right effect [] rightRead
    rw [firstWritten] at secondWritten
    cases secondWritten
    rfl

/-- A blob with one range property, whose bounds are a NaN and a negative zero, and two bytes after it; and
the blob of the empty effect. -/
theorem toBytes_of_ofBytes_range :
    Codec.effect.read [0, 0, 0, 0, 0, 0, 0, 0, 0, 0, 0, 0, 0, 0, 0, 0, 0, 0, 0, 0, 1, 0, 0, 0, 1, 0, 0, 0, 114,
      0, 0, 0, 0, 2, 0, 0, 0, 1, 0, 0xC0, 0x7F, 0, 0, 0, 0x80, 0, 0, 0x80, 0x3F, 7, 7] =
      .ok ({ properties := [⟨"r", "", .range ⟨0x7FC00001⟩ ⟨0x80000000⟩ .one⟩] }, [7, 7]) ∧
    (∃ taken, Effect.toBytes { properties := [⟨"r", "", .range ⟨0x7FC00001⟩ ⟨0x80000000⟩ .one⟩] } = .ok taken ∧
      [0, 0, 0, 0, 0, 0, 0, 0, 0, 0, 0, 0, 0, 0, 0, 0, 0, 0, 0, 0, 1, 0, 0, 0, 1, 0, 0, 0, 114,
        0, 0, 0, 0, 2, 0, 0, 0, 1, 0, 0xC0, 0x7F, 0, 0, 0, 0x80, 0, 0, 0x80, 0x3F, 7, 7] = taken ++ [7, 7]) ∧
    Effect.ofBytes (List.replicate 24 0) = .ok {} ∧
    (∃ taken tail, Effect.toBytes {} = .ok taken ∧ List.replicate 24 0 = taken ++ tail) ∧
    Codec.effect.read (List.replicate 24 0) = .ok ({}, []) ∧
    Codec.effect.read (List.replicate (4 * 6) 0) = .ok ({}, []) ∧
    List.replicate 24 (0 : UInt8) = List.replicate (4 * 6) 0 := by
  have read : Codec.effect.read [0, 0, 0, 0, 0, 0, 0, 0, 0, 0, 0, 0, 0, 0, 0, 0, 0, 0, 0, 0, 1, 0, 0, 0, 1, 0,
      0, 0, 114, 0, 0, 0, 0, 2, 0, 0, 0, 1, 0, 0xC0, 0x7F, 0, 0, 0, 0x80, 0, 0, 0x80, 0x3F, 7, 7] =
      .ok ({ properties := [⟨"r", "", .range ⟨0x7FC00001⟩ ⟨0x80000000⟩ .one⟩] }, [7, 7]) := by cbv
  have decoded : Effect.ofBytes (List.replicate 24 0) = .ok {} := by cbv
  have left : Codec.effect.read (List.replicate 24 0) = .ok ({}, []) := by cbv
  have right : Codec.effect.read (List.replicate (4 * 6) 0) = .ok ({}, []) := by cbv
  exact ⟨read, toBytes_of_ofBytes.2.1 _ _ _ read, decoded, toBytes_of_ofBytes.1 _ _ decoded, left, right,
    toBytes_of_ofBytes.2.2 _ _ _ left right⟩

end EffectLang
