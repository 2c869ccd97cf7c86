import EffectLang.Proofs.Blob.Canonical
import EffectLang.Proofs.Blob.Lengths

/-!
Sinks that fill up. A value whose lengths fit is sent as one run of bytes, whatever parts it is made of. So a sink that
fills up holds the front of that run, and the value is afterwards what it was before, sent or not.
-/
namespace EffectLang

namespace Sink

/-- The sink with bytes behind those that it holds. -/
def push (sink : Sink) (bytes : List UInt8) : Sink :=
  { sink with written := sink.written ++ bytes }

/-- Whether there is room for some bytes more. -/
def Fits (sink : Sink) (bytes : List UInt8) : Prop :=
  ∀ limit ∈ sink.limit, bytes.length ≤ limit - sink.written.size

theorem push_push (sink : Sink) (first second : List UInt8) :
    (sink.push first).push second = sink.push (first ++ second) := by
  have joined : sink.written ++ first ++ second = sink.written ++ (first ++ second) :=
    Array.toList_inj.mp (by simp)
  simp only [push, joined]

theorem size_push (sink : Sink) (bytes : List UInt8) :
    (sink.push bytes).written.size = sink.written.size + bytes.length := by
  rw [← Array.length_toList]
  simp [push]

end Sink

namespace Writing

variable {sink : Sink}

theorem bytes_of_fits {values : List UInt8} (fits : sink.Fits values) :
    bytes values sink = (.ok (), sink.push values) := by
  have all : sink.fitting values = values := by
    unfold Sink.fitting
    split
    · rfl
    · rename_i limit bounded
      exact List.take_of_length_le (fits limit bounded)
  simp only [bytes, all, if_true]
  rfl

theorem bytes_of_full {values : List UInt8} {limit : Nat} (bounded : sink.limit = some limit)
    (full : limit - sink.written.size < values.length) :
    bytes values sink =
      (.error (.stream .sinkFull), sink.push (values.take (limit - sink.written.size))) := by
  have part : sink.fitting values = values.take (limit - sink.written.size) := by rw [Sink.fitting, bounded]
  have cut : (values.take (limit - sink.written.size)).length ≠ values.length := by
    rw [List.length_take]
    omega
  simp only [bytes, part, if_neg cut]
  rfl

end Writing

namespace Codec

variable {α β κ : Type}

/-- A value is sent as one run of bytes and is left as it was. -/
structure Stores (codec : Codec α) (value : α) (bytes : List UInt8) : Prop where
  write : codec.write value = .bytes bytes
  after : ∀ sink, codec.after value sink = value

theorem stores_unit (given value : α) : (unit given).Stores value [] where
  write := Writing.nothing_eq_bytes
  after _ := rfl

theorem Stores.pair {first : Codec α} {second : Codec β} {left : α} {right : β} {front back : List UInt8}
    (head : first.Stores left front) (last : second.Stores right back) :
    (first.pair second).Stores (left, right) (front ++ back) where
  write := by
    simp only [Codec.pair, head.write, last.write]
    exact Writing.bytes_andThen_bytes front back
  after sink := by
    simp only [Codec.pair, head.after, last.after]
    split <;> rfl

theorem Stores.iso {codec : Codec α} {pack : α → β} {unpack : β → α} {value : β} {bytes : List UInt8}
    (stored : codec.Stores (unpack value) bytes) (inverse : pack (unpack value) = value) :
    (codec.iso pack unpack).Stores value bytes where
  write := stored.write
  after sink := by simp only [Codec.iso, stored.after, inverse]

theorem Stores.tagged {tag : Codec κ} {tagOf : α → κ} {payload : κ → Codec α} {value : α} {front back : List UInt8}
    (head : tag.Stores (tagOf value) front) (last : (payload (tagOf value)).Stores value back) :
    (tagged tag tagOf payload).Stores value (front ++ back) where
  write := by
    simp only [Codec.tagged, head.write, last.write]
    exact Writing.bytes_andThen_bytes front back
  after sink := by
    simp only [Codec.tagged, last.after]
    split <;> rfl

theorem stores_word {width value : Nat} (bound : value < 256 ^ width) :
    (word width).Stores value (littleEndian width value) where
  write := rfl
  after sink := by
    simp only [word, ofLittleEndian_littleEndian bound]
    split <;> rfl

theorem stores_uint32 (value : UInt32) : uint32.Stores value (littleEndian 4 value.toNat) :=
  (stores_word value.toNat_lt).iso (by simp)

theorem write_length {value : Nat} (fits : value ≤ maxLength) : length.write value = .bytes (littleEndian 4 value) :=
  if_pos fits

theorem stores_string {value : String} (fits : value.utf8ByteSize ≤ maxLength) :
    ∃ bytes, string.Stores value bytes := by
  rw [← Utf8.length_encode] at fits
  refine ⟨littleEndian 4 (Utf8.encode value).length ++ Utf8.encode value, ?_, ?_⟩
  · simp only [string, write_length fits]
    exact Writing.bytes_andThen_bytes _ _
  · intro sink
    simp only [string, Utf8.decode?_encode, Option.getD_some]
    split <;> rfl

theorem stores_enumeration (name : String) {code : α → UInt32} {ofCode? : UInt32 → Option α} {value : α}
    (known : ofCode? (code value) = some value) :
    (enumeration name code ofCode?).Stores value (littleEndian 4 (code value).toNat) where
  write := (stores_uint32 (code value)).write
  after sink := by
    simp only [enumeration, (stores_uint32 (code value)).after, known, Option.getD_some]
    split <;> rfl

theorem write_each {codec : Codec α} {values : List α} {pieces : List (List UInt8)}
    (stored : List.Forall₂ codec.Stores values pieces) : Writing.each codec.write values = .bytes pieces.flatten := by
  induction stored with
  | nil => exact Writing.nothing_eq_bytes
  | cons head _ ih => rw [Writing.each, head.write, ih, Writing.bytes_andThen_bytes, List.flatten_cons]

theorem eachAfter_eq {codec : Codec α} {values : List α}
    (kept : ∀ value ∈ values, ∀ sink, codec.after value sink = value) (sink : Sink) :
    codec.eachAfter values sink = values := by
  induction values generalizing sink with
  | nil => rfl
  | cons value values ih =>
    rw [List.forall_mem_cons] at kept
    unfold eachAfter
    split
    · rw [kept.1, ih kept.2]
    · rw [kept.1]

theorem stores_list {codec : Codec α} {values : List α} (fits : values.length ≤ maxLength)
    (stored : ∀ value ∈ values, ∃ bytes, codec.Stores value bytes) : ∃ bytes, codec.list.Stores values bytes := by
  obtain ⟨pieces, each⟩ : ∃ pieces, List.Forall₂ codec.Stores values pieces := by
    induction values with
    | nil => exact ⟨[], .nil⟩
    | cons value values ih =>
      rw [List.forall_mem_cons] at stored
      obtain ⟨bytes, head⟩ := stored.1
      obtain ⟨pieces, last⟩ := ih ((Nat.le_succ _).trans fits) stored.2
      exact ⟨bytes :: pieces, .cons head last⟩
  refine ⟨littleEndian 4 values.length ++ pieces.flatten, ?_, ?_⟩
  · simp only [list, write_length fits, write_each each]
    exact Writing.bytes_andThen_bytes _ _
  · intro sink
    have kept : ∀ value ∈ values, ∀ sink, codec.after value sink = value := by
      intro value member
      obtain ⟨bytes, stores⟩ := stored value member
      exact stores.after
    simp only [list, eachAfter_eq kept]
    split <;> rfl

/-- All values of a codec whose lengths fit are sent in one run of bytes. -/
def Sends (codec : Codec α) (lengths : α → List Nat) : Prop :=
  ∀ value, (∀ length ∈ lengths value, length ≤ maxLength) → ∃ bytes, codec.Stores value bytes

theorem Sends.pair {first : Codec α} {second : Codec β} {lengths : α → List Nat} {others : β → List Nat}
    (head : first.Sends lengths) (last : second.Sends others) :
    (first.pair second).Sends fun value => lengths value.1 ++ others value.2 := by
  intro value fits
  rw [List.forall_mem_append] at fits
  obtain ⟨front, left⟩ := head value.1 fits.1
  obtain ⟨back, right⟩ := last value.2 fits.2
  exact ⟨front ++ back, left.pair right⟩

theorem Sends.iso {codec : Codec α} {lengths : α → List Nat} (sends : codec.Sends lengths) {pack : α → β}
    {unpack : β → α} (inverse : ∀ value, pack (unpack value) = value) :
    (codec.iso pack unpack).Sends fun value => lengths (unpack value) := by
  intro value fits
  obtain ⟨bytes, stored⟩ := sends (unpack value) fits
  exact ⟨bytes, stored.iso (inverse value)⟩

theorem Sends.list {codec : Codec α} {lengths : α → List Nat} (sends : codec.Sends lengths) :
    codec.list.Sends (listLengths lengths) := by
  intro values fits
  rw [listLengths, List.forall_mem_cons, List.forall_mem_flatMap] at fits
  exact stores_list fits.1 fun value member => sends value (fits.2 value member)

theorem sends_uint32 : uint32.Sends fun _ => [] :=
  fun value _ => ⟨_, stores_uint32 value⟩

theorem sends_uint64 : uint64.Sends fun _ => [] :=
  fun value _ => ⟨_, (stores_word value.toNat_lt).iso (by simp)⟩

theorem sends_uint8 : uint8.Sends fun _ => [] :=
  fun value _ => ⟨_, (stores_word value.toNat_lt).iso (by simp)⟩

theorem sends_uint16 : uint16.Sends fun _ => [] :=
  fun value _ => ⟨_, (stores_word value.toNat_lt).iso (by simp)⟩

theorem sends_int32 : int32.Sends fun _ => [] :=
  sends_uint32.iso fun value => by simp

theorem sends_int64 : int64.Sends fun _ => [] :=
  sends_uint64.iso fun value => by simp

theorem sends_single : single.Sends fun _ => [] :=
  sends_uint32.iso fun _ => rfl

theorem sends_double : double.Sends fun _ => [] :=
  sends_uint64.iso fun _ => rfl

theorem sends_bool : bool.Sends fun _ => [] :=
  sends_uint8.iso fun value => by cases value <;> decide

theorem sends_string : string.Sends fun text => [text.utf8ByteSize] :=
  fun _ fits => stores_string (fits _ List.mem_cons_self)

theorem sends_enumeration (name : String) {code : α → UInt32} {ofCode? : UInt32 → Option α}
    (known : ∀ value, ofCode? (code value) = some value) : (enumeration name code ofCode?).Sends fun _ => [] :=
  fun value _ => ⟨_, stores_enumeration name (known value)⟩

theorem sends_stage : stage.Sends fun _ => [] :=
  sends_enumeration _ Stage.ofCode?_code

theorem sends_resourceKind : resourceKind.Sends fun _ => [] :=
  sends_enumeration _ Resource.Kind.ofCode?_code

theorem sends_passKind : passKind.Sends fun _ => [] :=
  sends_enumeration _ Pass.Kind.ofCode?_code

theorem sends_propertyKind : propertyKind.Sends fun _ => [] :=
  sends_enumeration _ Property.Kind.ofCode?_code

theorem sends_resource : resource.Sends Resource.lengths :=
  (sends_resourceKind.pair sends_string).iso fun _ => rfl

theorem sends_chunk : chunk.Sends Chunk.lengths :=
  (sends_string.pair (sends_string.list.pair (sends_uint32.list.pair
    (sends_resource.list.pair sends_string)))).iso fun _ => rfl

theorem sends_shader : shader.Sends fun _ => [] :=
  (sends_stage.pair sends_uint32).iso fun _ => rfl

theorem sends_pass : pass.Sends Pass.lengths := by
  intro value fits
  have sends : pass.Sends _ :=
    (sends_string.pair (sends_shader.list.pair (sends_uint32.list.pair (sends_uint32.pair sends_passKind)))).iso
      fun _ => rfl
  apply sends value
  simpa [Pass.lengths] using fits

theorem sends_resourceList : resourceList.Sends fun list => listLengths Resource.lengths list.resources :=
  sends_resource.list.iso fun _ => rfl

theorem sends_renderState : renderState.Sends fun state => [state.name.utf8ByteSize] :=
  sends_string.iso fun _ => rfl

/-- The payload of a value goes with its own kind, and only for that it is put back as it was. -/
theorem stores_payload {value : Property.Value} (fits : ∀ length ∈ value.lengths, length ≤ maxLength) :
    ∃ bytes, (payload value.kind).Stores value bytes := by
  cases value with
  | float default => exact ⟨_, (stores_uint32 default.bits).iso rfl |>.iso rfl⟩
  | int default => exact ⟨_, (stores_uint32 default.toUInt32).iso (by simp) |>.iso rfl⟩
  | range low high default =>
    obtain ⟨bytes, stored⟩ := (sends_single.pair (sends_single.pair sends_single)) (low, high, default) (by simp)
    have packed : rangePayload.Stores (.range low high default) bytes := by
      refine ⟨stored.write, fun sink => ?_⟩
      simp only [rangePayload, Codec.iso, stored.after]
    exact ⟨bytes, packed⟩
  | color => exact ⟨_, stores_unit _ _⟩
  | vector => exact ⟨_, stores_unit _ _⟩
  | texture shape default =>
    obtain ⟨bytes, stored⟩ := sends_string default fits
    cases shape <;> exact ⟨bytes, stored.iso rfl⟩
  | unknown => exact ⟨_, stores_unit _ _⟩

theorem sends_propertyValue : propertyValue.Sends Property.Value.lengths := by
  intro value fits
  obtain ⟨bytes, stored⟩ := stores_payload fits
  exact ⟨_, (stores_enumeration _ value.kind.ofCode?_code).tagged stored⟩

theorem sends_property : property.Sends Property.lengths :=
  (sends_string.pair (sends_string.pair sends_propertyValue)).iso fun _ => rfl

theorem sends_effect : effect.Sends Effect.lengths :=
  (sends_string.pair (sends_pass.list.pair (sends_chunk.list.pair (sends_resourceList.list.pair
    (sends_renderState.list.pair sends_property.list))))).iso fun _ => rfl

end Codec

namespace Format

/-- The lengths of all texts and lists in a value, in the order in which they are written. -/
def lengths : (format : Format) → format.Value → List Nat
  | string => fun text => [text.utf8ByteSize]
  | resource => Resource.lengths
  | chunk => Chunk.lengths
  | pass => Pass.lengths
  | resourceList => fun list => listLengths Resource.lengths list.resources
  | renderState => fun state => [state.name.utf8ByteSize]
  | property => Property.lengths
  | effect => Effect.lengths
  | list element => listLengths element.lengths
  | _ => fun _ => []

theorem sends (format : Format) : format.codec.Sends format.lengths := by
  induction format with
  | uint8 => exact Codec.sends_uint8
  | uint16 => exact Codec.sends_uint16
  | uint32 => exact Codec.sends_uint32
  | uint64 => exact Codec.sends_uint64
  | int32 => exact Codec.sends_int32
  | int64 => exact Codec.sends_int64
  | single => exact Codec.sends_single
  | double => exact Codec.sends_double
  | bool => exact Codec.sends_bool
  | string => exact Codec.sends_string
  | stage => exact Codec.sends_stage
  | resourceKind => exact Codec.sends_resourceKind
  | passKind => exact Codec.sends_passKind
  | propertyKind => exact Codec.sends_propertyKind
  | resource => exact Codec.sends_resource
  | chunk => exact Codec.sends_chunk
  | shader => exact Codec.sends_shader
  | pass => exact Codec.sends_pass
  | resourceList => exact Codec.sends_resourceList
  | renderState => exact Codec.sends_renderState
  | property => exact Codec.sends_property
  | effect => exact Codec.sends_effect
  | list element ih => exact ih.list

/-- Stores values one after another, up to the first that fails: what came of each, with the value afterwards. -/
def storeAll : List Item → Sink → List (Except Error Unit × Item) × Sink
  | [], sink => ([], sink)
  | item :: items, sink =>
    match item.1.codec.store item.2 sink with
    | (.ok _, value, between) =>
      ((.ok (), ⟨item.1, value⟩) :: (storeAll items between).1, (storeAll items between).2)
    | (.error error, value, between) => ([(.error error, ⟨item.1, value⟩)], between)

/-- An item is sent as one run of bytes and is left as it was. -/
def Stores (item : Item) (bytes : List UInt8) : Prop :=
  item.1.codec.Stores item.2 bytes

variable {items : List Item} {pieces : List (List UInt8)}

theorem writeAll_eq (stored : List.Forall₂ Stores items pieces) : writeAll items = .bytes pieces.flatten := by
  induction stored with
  | nil => exact Writing.nothing_eq_bytes
  | @cons item piece items pieces head _ ih =>
    have first : item.1.codec.write item.2 = .bytes piece := head.write
    have later : Writing.each (fun item : Item => item.1.codec.write item.2) items = .bytes pieces.flatten := ih
    rw [writeAll, Writing.each, first, later, Writing.bytes_andThen_bytes, List.flatten_cons]

theorem storeAll_cons_of_fits {item : Item} {piece : List UInt8} {sink : Sink} (head : Stores item piece)
    (fits : sink.Fits piece) (items : List Item) :
    storeAll (item :: items) sink =
      ((.ok (), item) :: (storeAll items (sink.push piece)).1, (storeAll items (sink.push piece)).2) := by
  have stored : item.1.codec.store item.2 sink = (.ok (), item.2, sink.push piece) := by
    rw [Codec.store, head.write, head.after, Writing.bytes_of_fits fits]
  rw [storeAll, stored]

theorem storeAll_cons_of_full {item : Item} {piece : List UInt8} {sink : Sink} {limit : Nat} (head : Stores item piece)
    (bounded : sink.limit = some limit) (full : limit - sink.written.size < piece.length) (items : List Item) :
    storeAll (item :: items) sink =
      ([(.error (.stream .sinkFull), item)], sink.push (piece.take (limit - sink.written.size))) := by
  have stored : item.1.codec.store item.2 sink =
      (.error (.stream .sinkFull), item.2, sink.push (piece.take (limit - sink.written.size))) := by
    rw [Codec.store, head.write, head.after, Writing.bytes_of_full bounded full]
  rw [storeAll, stored]

theorem storeAll_of_fits (stored : List.Forall₂ Stores items pieces) {sink : Sink} (fits : sink.Fits pieces.flatten) :
    storeAll items sink = (items.map fun item => (.ok (), item), sink.push pieces.flatten) := by
  induction stored generalizing sink with
  | nil => simp [storeAll, Sink.push]
  | @cons item piece items pieces head _ ih =>
    rw [List.flatten_cons] at fits ⊢
    have first : sink.Fits piece := by
      intro limit bounded
      have whole := fits limit bounded
      rw [List.length_append] at whole
      omega
    have later : (sink.push piece).Fits pieces.flatten := by
      intro limit bounded
      have whole := fits limit bounded
      rw [List.length_append] at whole
      rw [Sink.size_push]
      omega
    rw [storeAll_cons_of_fits head first, ih later, Sink.push_push]
    rfl

/-- The step that crosses the limit is the first to fail, and what fits of it is there behind all that went before. -/
theorem storeAll_of_full (stored : List.Forall₂ Stores items pieces) {sink : Sink} {limit : Nat}
    (bounded : sink.limit = some limit) (full : limit - sink.written.size < pieces.flatten.length) :
    ∃ front item back sent piece rest, items = front ++ item :: back ∧ pieces = sent ++ piece :: rest ∧
      List.Forall₂ Stores front sent ∧ Stores item piece ∧ sent.flatten.length ≤ limit - sink.written.size ∧
      limit - sink.written.size < sent.flatten.length + piece.length ∧
      storeAll items sink =
        (front.map (fun item => (.ok (), item)) ++ [(.error (.stream .sinkFull), item)],
          sink.push (pieces.flatten.take (limit - sink.written.size))) := by
  induction stored generalizing sink with
  | nil => cases full
  | @cons item piece items pieces head later ih =>
    rw [List.flatten_cons] at full ⊢
    by_cases crosses : limit - sink.written.size < piece.length
    · refine ⟨[], item, items, [], piece, pieces, rfl, rfl, .nil, head, Nat.zero_le _, by simpa using crosses, ?_⟩
      rw [storeAll_cons_of_full head bounded crosses, List.take_append_of_le_length crosses.le]
      rfl
    · have fits : sink.Fits piece := by
        intro other same
        cases bounded.symm.trans same
        exact Nat.le_of_not_lt crosses
      have room : limit - (sink.push piece).written.size = limit - sink.written.size - piece.length := by
        rw [Sink.size_push, Nat.sub_add_eq]
      rw [List.length_append] at full
      obtain ⟨front, last, back, sent, part, rest, rfl, rfl, passed, fails, before, behind, result⟩ :=
        @ih (sink.push piece) bounded (by omega)
      refine ⟨item :: front, last, back, piece :: sent, part, rest, rfl, rfl, .cons head passed, fails, ?_, ?_, ?_⟩
      · rw [List.flatten_cons, List.length_append]
        omega
      · rw [List.flatten_cons, List.length_append]
        omega
      · rw [storeAll_cons_of_fits head fits, result, Sink.push_push, room, List.take_append,
          List.take_of_length_le (Nat.le_of_not_lt crosses)]
        rfl

theorem exists_pieces (fits : ∀ item ∈ items, ∀ length ∈ item.1.lengths item.2, length < 2 ^ 32) :
    ∃ pieces, List.Forall₂ Stores items pieces := by
  induction items with
  | nil => exact ⟨[], .nil⟩
  | cons item items ih =>
    rw [List.forall_mem_cons] at fits
    obtain ⟨piece, head⟩ := item.1.sends item.2 fun length member => Nat.le_of_lt_succ (fits.1 length member)
    obtain ⟨pieces, later⟩ := ih fits.2
    exact ⟨piece :: pieces, .cons head later⟩

/-- A full sink holds the front of what was to be sent. Values whose lengths fit are all sent to a sink with room for
them. Otherwise the values up to the limit are, the one that crosses it fails, and the sink holds all bytes up to the
limit. Every value is afterwards what it was before, also the one that failed. -/
theorem storeAll_fills_sink {items : List Item}
    (short : ∀ item ∈ items, ∀ length ∈ item.1.lengths item.2, length < 2 ^ 32) :
    ∃ whole, (writeAll items).run = .ok whole ∧
      storeAll items {} = (items.map fun item => (.ok (), item), ⟨whole.toArray, none⟩) ∧
      ∀ limit : Nat,
        (whole.length ≤ limit →
          storeAll items { limit := some limit } =
            (items.map fun item => (.ok (), item), ⟨whole.toArray, some limit⟩)) ∧
        (limit < whole.length →
          ∃ front item back sent more, items = front ++ item :: back ∧ (writeAll front).run = .ok sent ∧
            (writeAll (front ++ [item])).run = .ok more ∧ sent.length ≤ limit ∧ limit < more.length ∧
            storeAll items { limit := some limit } =
              (front.map (fun item => (.ok (), item)) ++ [(.error (.stream .sinkFull), item)],
                ⟨(whole.take limit).toArray, some limit⟩)) := by
  obtain ⟨pieces, stored⟩ := exists_pieces short
  refine ⟨pieces.flatten, by rw [writeAll_eq stored, Writing.run_bytes], ?_, ?_⟩
  · rw [storeAll_of_fits stored (fun _ bounded => by cases bounded)]
    simp [Sink.push]
  · intro limit
    constructor
    · intro enough
      rw [storeAll_of_fits stored]
      · simp [Sink.push]
      · rintro _ ⟨⟩
        exact enough
    · intro less
      obtain ⟨front, item, back, sent, piece, rest, split, -, passed, fails, before, behind, result⟩ :=
        @storeAll_of_full _ _ stored { limit := some limit } limit rfl less
      have both : List.Forall₂ Stores (front ++ [item]) (sent ++ [piece]) :=
        List.rel_append passed (.cons fails .nil)
      refine ⟨front, item, back, sent.flatten, (sent ++ [piece]).flatten, split, ?_, ?_, before, ?_, ?_⟩
      · rw [writeAll_eq passed, Writing.run_bytes]
      · rw [writeAll_eq both, Writing.run_bytes]
      · rw [List.flatten_append, List.length_append, List.flatten_singleton]
        exact behind
      · rw [result]
        simp [Sink.push]

/-- The limit falls inside the first text of a list, which is left as it was. -/
theorem storeAll_fills_sink_inside_text :
    let items : List Item := [⟨.bool, true⟩, ⟨.list .string, ["ab", ""]⟩, ⟨.uint8, 7⟩]
    (∀ item ∈ items, ∀ length ∈ item.1.lengths item.2, length < 2 ^ 32) ∧
      ∃ whole, (writeAll items).run = .ok whole ∧ 10 < whole.length ∧
        ∃ front item back sent more, items = front ++ item :: back ∧ (writeAll front).run = .ok sent ∧
          (writeAll (front ++ [item])).run = .ok more ∧ sent.length ≤ 10 ∧ 10 < more.length ∧
          storeAll items { limit := some 10 } =
            (front.map (fun item => (.ok (), item)) ++ [(.error (.stream .sinkFull), item)],
              ⟨(whole.take 10).toArray, some 10⟩) := by
  intro items
  have short : ∀ item ∈ items, ∀ length ∈ item.1.lengths item.2, length < 2 ^ 32 := by
    simp [items, lengths, listLengths]
    decide
  have bytes : (writeAll items).run = .ok [1, 2, 0, 0, 0, 2, 0, 0, 0, 97, 98, 0, 0, 0, 0, 7] := by
    decide +kernel
  obtain ⟨whole, same, -, cut⟩ := storeAll_fills_sink short
  cases bytes.symm.trans same
  exact ⟨short, _, bytes, by decide, (cut 10).2 (by decide)⟩

end Format

end EffectLang
