import EffectLang.Proofs.Blob.RoundTrip

/-!
Reading is decided by what has been read. On any input a reading runs short, takes a value off the front, or refuses
what it has met; in the last two cases nothing that follows can change this. So a binary form that has been cut off
always runs short, wherever the cut falls.
-/
namespace EffectLang

/-- The bytes that were read are at fault: a code stands for nothing, or a text is no UTF-8. -/
inductive Error.OfContent : Error → Prop
  | code (name : String) (code : UInt32) : OfContent (.invalidCode name code)
  | text (fault : Utf8.Fault) : OfContent (.invalidUtf8 fault)

namespace Reading

variable {α β : Type}

/-- What a reading comes to on an input. Unless it runs short, it does so with anything behind the input. -/
inductive Decides (reading : Reading α) (input : List UInt8) : Prop
  | short (failed : reading input = .error (.stream .shortRead))
  | taken (value : α) (rest : List UInt8) (ok : ∀ tail, reading (input ++ tail) = .ok (value, rest ++ tail))
  | refused (error : Error) (content : error.OfContent) (failed : ∀ tail, reading (input ++ tail) = .error error)

def Online (reading : Reading α) : Prop :=
  ∀ input, reading.Decides input

theorem online_just (value : α) : (just value).Online := by
  intro input
  exact .taken value input fun tail => rfl

theorem online_fail {error : Error} (content : error.OfContent) : (fail error : Reading α).Online := by
  intro input
  exact .refused error content fun tail => rfl

theorem decides_takeInto (count : Nat) (taken input : List UInt8) : Decides (takeInto count taken) input := by
  fun_induction takeInto count taken input with
  | case1 taken input =>
    apply Decides.taken taken.reverse input
    intro tail
    rw [takeInto]
  | case2 count taken => exact .short rfl
  | case3 count taken byte input ih =>
    cases ih with
    | short failed => exact .short failed
    | taken value rest ok => exact .taken value rest ok
    | refused error content failed => exact .refused error content failed

theorem online_bytes (count : Nat) : (Reading.bytes count).Online :=
  decides_takeInto count []

/-- What follows the first part decides the whole, and it is read with the rest that the first part leaves. -/
theorem Online.andThen {first : Reading α} {next : α → Reading β} (head : first.Online)
    (last : ∀ value, (next value).Online) : (first.andThen next).Online := by
  intro input
  cases head input with
  | short failed =>
    apply Decides.short
    rw [Reading.andThen, failed]
  | refused error content failed =>
    apply Decides.refused error content
    intro tail
    rw [Reading.andThen, failed]
  | taken value rest ok =>
    have goesOn (tail : List UInt8) : first.andThen next (input ++ tail) = next value (rest ++ tail) := by
      rw [Reading.andThen, ok]
    cases last value rest with
    | short failed =>
      apply Decides.short
      have here := goesOn []
      rwa [List.append_nil, List.append_nil, failed] at here
    | taken result later ok => exact .taken result later fun tail => (goesOn tail).trans (ok tail)
    | refused error content failed => exact .refused error content fun tail => (goesOn tail).trans (failed tail)

theorem Online.map {reading : Reading α} (online : reading.Online) (f : α → β) : (reading.map f).Online :=
  online.andThen fun value => online_just (f value)

theorem Online.timesInto {reading : Reading α} (online : reading.Online) (count : Nat) (values : List α) :
    (reading.timesInto count values).Online := by
  induction count generalizing values with
  | zero => exact online_just values.reverse
  | succ count ih => exact online.andThen fun value => ih (value :: values)

end Reading

namespace Codec

variable {α β κ : Type}

def Online (codec : Codec α) : Prop :=
  codec.read.Online

theorem online_unit (value : α) : (unit value).Online :=
  Reading.online_just value

theorem Online.pair {first : Codec α} {second : Codec β} (head : first.Online) (last : second.Online) :
    (first.pair second).Online :=
  Reading.Online.andThen head fun left => Reading.Online.map last fun right => (left, right)

theorem Online.iso {codec : Codec α} (online : codec.Online) (pack : α → β) (unpack : β → α) :
    (codec.iso pack unpack).Online :=
  Reading.Online.map online pack

theorem Online.tagged {tag : Codec κ} (head : tag.Online) (tagOf : α → κ) {payload : κ → Codec α}
    (last : ∀ kind, (payload kind).Online) : (tagged tag tagOf payload).Online :=
  Reading.Online.andThen head last

theorem online_word (width : Nat) : (word width).Online :=
  (Reading.online_bytes width).map ofLittleEndian

theorem online_uint32 : uint32.Online :=
  (online_word 4).iso _ _

theorem online_int32 : int32.Online :=
  online_uint32.iso _ _

theorem online_single : single.Online :=
  online_uint32.iso _ _

/-- All bytes of a text are there before it is looked at, so a cut never shows as a fault of its encoding. -/
theorem online_string : string.Online := by
  apply Reading.Online.andThen (online_word 4)
  intro count
  apply (Reading.online_bytes count).andThen
  intro bytes
  cases Utf8.decode? bytes with
  | none => exact Reading.online_fail (.text _)
  | some text => exact Reading.online_just text

theorem Online.list {codec : Codec α} (online : codec.Online) : codec.list.Online :=
  Reading.Online.andThen (online_word 4) fun count => Reading.Online.timesInto online count []

theorem online_enumeration (name : String) (code : α → UInt32) (ofCode? : UInt32 → Option α) :
    (enumeration name code ofCode?).Online := by
  apply Reading.Online.andThen online_uint32
  intro number
  cases ofCode? number with
  | none => exact Reading.online_fail (.code name number)
  | some value => exact Reading.online_just value

theorem online_resource : resource.Online :=
  ((online_enumeration _ _ _).pair online_string).iso _ _

theorem online_chunk : chunk.Online :=
  (online_string.pair (online_string.list.pair (online_uint32.list.pair
    (online_resource.list.pair online_string)))).iso _ _

theorem online_shader : shader.Online :=
  ((online_enumeration _ _ _).pair online_uint32).iso _ _

theorem online_pass : pass.Online :=
  (online_string.pair (online_shader.list.pair (online_uint32.list.pair
    (online_uint32.pair (online_enumeration _ _ _))))).iso _ _

theorem online_payload (kind : Property.Kind) : (payload kind).Online := by
  cases kind with
  | float => exact online_single.iso _ _
  | int => exact online_int32.iso _ _
  | range => exact (online_single.pair (online_single.pair online_single)).iso _ _
  | color => exact online_unit _
  | vector => exact online_unit _
  | texture1D => exact online_string.iso _ _
  | texture2D => exact online_string.iso _ _
  | texture3D => exact online_string.iso _ _
  | textureVolume => exact online_string.iso _ _
  | unknown => exact online_unit _

theorem online_property : property.Online :=
  (online_string.pair (online_string.pair ((online_enumeration _ _ _).tagged _ online_payload))).iso _ _

theorem online_effect : effect.Online :=
  (online_string.pair (online_pass.list.pair (online_chunk.list.pair ((online_resource.list.iso _ _).list.pair
    ((online_string.iso _ _).list.pair online_property.list))))).iso _ _

end Codec

namespace Effect

variable {effect : Effect} {bytes : List UInt8}

theorem ofBytes_of_read {rest : List UInt8} (read : Codec.effect.read bytes = .ok (effect, rest)) :
    ofBytes bytes = .ok effect := by
  rw [ofBytes, read]
  rfl

theorem ofBytes_of_failed {error : Error} (failed : Codec.effect.read bytes = .error error) :
    ofBytes bytes = .error error := by
  rw [ofBytes, failed]
  rfl

theorem read_toBytes (written : effect.toBytes = .ok bytes) (tail : List UInt8) :
    Codec.effect.read (bytes ++ tail) = .ok (effect, tail) := by
  obtain ⟨after, success, rfl⟩ := Writing.run_success written
  obtain ⟨bytes, whole, read⟩ := Codec.restores_effect effect {} after success
  have same : after.toList = bytes := whole
  rw [same]
  exact read tail

/-- A part of a binary form that ends before the whole does runs short: were it decided, the whole would be read with
what is missing as its rest. -/
theorem read_of_cut {front missing : List UInt8} (written : effect.toBytes = .ok (front ++ missing))
    (cut : missing ≠ []) : Codec.effect.read front = .error (.stream .shortRead) := by
  have complete := read_toBytes written []
  rw [List.append_nil] at complete
  cases Codec.online_effect front with
  | short failed => exact failed
  | taken value rest ok =>
    have nothing : rest ++ missing = [] := by
      have same := (ok missing).symm.trans complete
      simp only [Except.ok.injEq, Prod.mk.injEq] at same
      exact same.2
    exact absurd (List.append_eq_nil_iff.mp nothing).2 cut
  | refused error content failed => cases (failed missing).symm.trans complete

/-- An input runs short, or it is decided whatever follows, and only its own content may be at fault. -/
theorem ofBytes_cases (bytes : List UInt8) :
    ofBytes bytes = .error (.stream .shortRead) ∨
      ∃ result, (∀ tail, ofBytes (bytes ++ tail) = result) ∧ ∀ error, result = .error error → error.OfContent := by
  cases Codec.online_effect bytes with
  | short failed => exact .inl (ofBytes_of_failed failed)
  | taken effect rest ok =>
    refine .inr ⟨.ok effect, fun tail => ofBytes_of_read (ok tail), ?_⟩
    intro error fault
    cases fault
  | refused error content failed =>
    refine .inr ⟨.error error, fun tail => ofBytes_of_failed (failed tail), ?_⟩
    intro other fault
    cases fault
    exact content

/-- The binary form of an effect runs short when it is cut off anywhere. Any input that does not run short is read in
the same way with anything behind it, and it is an effect or at fault itself. -/
theorem ofBytes_of_truncated :
    (∀ (effect : Effect) (bytes front : List UInt8), effect.toBytes = .ok bytes → front <+: bytes → front ≠ bytes →
      ofBytes front = .error (.stream .shortRead)) ∧
    (∀ bytes tail : List UInt8, (∀ fault, ofBytes bytes ≠ .error (.stream fault)) →
      ofBytes (bytes ++ tail) = ofBytes bytes) ∧
    ∀ (bytes : List UInt8) (error : Error), ofBytes bytes = .error error →
      error = .stream .shortRead ∨ error.OfContent := by
  refine ⟨?_, ?_, ?_⟩
  · rintro effect bytes front written ⟨missing, rfl⟩ shorter
    apply ofBytes_of_failed
    apply read_of_cut written
    rintro rfl
    exact shorter (List.append_nil front).symm
  · intro bytes tail decided
    obtain short | ⟨result, same, -⟩ := ofBytes_cases bytes
    · exact absurd short (decided .shortRead)
    · have here := same []
      rw [List.append_nil] at here
      rw [same, here]
  · intro bytes error given
    obtain short | ⟨result, same, content⟩ := ofBytes_cases bytes
    · cases short.symm.trans given
      exact .inl rfl
    · have here := same []
      rw [List.append_nil, given] at here
      exact .inr (content error here.symm)

/-- A cut inside a character of a name, and a name that is no UTF-8 with more bytes behind it. -/
theorem ofBytes_of_truncated_inside_character :
    toBytes { name := "é" } = .ok ([2, 0, 0, 0, 0xC3, 0xA9] ++ List.replicate 20 0) ∧
    ofBytes [2, 0, 0, 0, 0xC3] = .error (.stream .shortRead) ∧
    ofBytes [1, 0, 0, 0, 0xC3] = .error (.invalidUtf8 ⟨0, none⟩) ∧
    ofBytes ([1, 0, 0, 0, 0xC3] ++ [0xA9]) = ofBytes [1, 0, 0, 0, 0xC3] ∧
    Error.OfContent (.invalidUtf8 ⟨0, none⟩) := by
  have written : toBytes { name := "é" } = .ok ([2, 0, 0, 0, 0xC3, 0xA9] ++ List.replicate 20 0) := by cbv
  have refused : ofBytes [1, 0, 0, 0, 0xC3] = .error (.invalidUtf8 ⟨0, none⟩) := by cbv
  obtain ⟨cut, online, faults⟩ := ofBytes_of_truncated
  refine ⟨written, cut _ _ [2, 0, 0, 0, 0xC3] written (by decide) (by decide), refused, online _ [0xA9] ?_, ?_⟩
  · intro fault
    simp [refused]
  · exact (faults _ _ refused).resolve_left (by simp)

end Effect

end EffectLang
