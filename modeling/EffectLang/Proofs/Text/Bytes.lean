import EffectLang.Proofs.Token.Place

/-!
The bytes of a text. An ASCII character is one byte below `0x80`; any other is a lead byte and some bytes that
continue it, all of them `0x80` or above. So ASCII characters are found byte by byte, and a range of bytes is a text
when both ends are lead bytes or the end.
-/
namespace EffectLang.Utf8

def bytes (text : List Char) : List UInt8 :=
  text.flatMap String.utf8EncodeChar

@[simp] theorem bytes_nil : bytes [] = [] := rfl

@[simp] theorem bytes_cons (c : Char) (text : List Char) :
    bytes (c :: text) = String.utf8EncodeChar c ++ bytes text := rfl

@[simp] theorem bytes_append (left right : List Char) : bytes (left ++ right) = bytes left ++ bytes right :=
  List.flatMap_append

@[simp] theorem length_bytes (text : List Char) : (bytes text).length = byteLength text := by
  induction text with
  | nil => rfl
  | cons c text ih => rw [bytes_cons, List.length_append, ih, String.length_utf8EncodeChar, byteLength_cons]

theorem encode_ofList (text : List Char) : encode (String.ofList text) = bytes text := by
  induction text with
  | nil => rfl
  | cons c text ih =>
    unfold encode at ih ⊢
    rw [String.toByteArray_ofList] at ih ⊢
    rw [List.utf8Encode_cons, ByteArray.data_append, Array.toList_append, ih, List.utf8Encode_singleton,
      List.toList_data_toByteArray, bytes_cons]

theorem encode_eq_bytes (text : String) : encode text = bytes text.toList := by
  rw [← encode_ofList, String.ofList_toList]

def ascii (c : Char) : UInt8 :=
  UInt8.ofNat c.toNat

theorem utf8EncodeChar_of_ascii {c : Char} (narrow : c.toNat < 128) : String.utf8EncodeChar c = [ascii c] := by
  have small : c.val.toNat ≤ 127 := Nat.le_of_lt_succ narrow
  simp only [String.utf8EncodeChar, small, if_true]
  rfl

theorem toNat_ascii {c : Char} (narrow : c.toNat < 128) : (ascii c).toNat = c.toNat := by
  rw [ascii, UInt8.toNat_ofNat']
  omega

theorem byteLength_of_ascii {text : List Char} (narrow : ∀ c ∈ text, c.toNat < 128) :
    byteLength text = text.length := by
  induction text with
  | nil => rfl
  | cons c text ih =>
    rw [List.forall_mem_cons] at narrow
    rw [byteLength_cons, ← String.length_utf8EncodeChar, utf8EncodeChar_of_ascii narrow.1, ih narrow.2]
    simp [Nat.add_comm]

/-- Any other character is a lead byte that tells how many bytes it has, and bytes that continue it. -/
theorem utf8EncodeChar_of_wide {c : Char} (wide : 128 ≤ c.toNat) :
    ∃ lead more, String.utf8EncodeChar c = lead :: more ∧ 0xC0 ≤ lead.toNat ∧
      (∀ byte ∈ more, 0x80 ≤ byte.toNat) ∧
      more.length + 1 = if lead.toNat < 0xE0 then 2 else if lead.toNat < 0xF0 then 3 else 4 := by
  have large : ¬c.val.toNat ≤ 127 := Nat.not_le_of_gt wide
  simp only [String.utf8EncodeChar, large, if_false]
  split_ifs
  all_goals
    refine ⟨_, _, rfl, ?_, ?_, ?_⟩
    · rw [UInt8.toNat_ofNat']
      omega
    · simp only [List.forall_mem_cons, UInt8.toNat_ofNat', List.not_mem_nil, false_implies, implies_true, and_true]
      omega
    · simp only [UInt8.toNat_ofNat', List.length_cons, List.length_nil]
      split_ifs <;> omega

/-- Whether a place in some bytes lies between two characters: at the start, at the end, or before a byte that
continues none. -/
def isBoundary (source : List UInt8) (position : Nat) : Bool :=
  match source[position]? with
  | none => position = source.length
  | some byte => position = 0 || byte < 0x80 || 0xC0 ≤ byte

/-- A range of bytes that is a text. -/
structure IsRange (source : List UInt8) (start stop : Nat) : Prop where
  ordered : start ≤ stop
  inside : stop ≤ source.length
  startBoundary : isBoundary source start
  stopBoundary : isBoundary source stop

theorem isBoundary_append (left right : List Char) : isBoundary (bytes (left ++ right)) (byteLength left) := by
  rw [bytes_append]
  unfold isBoundary
  cases right with
  | nil => simp
  | cons c right =>
    have behind : (bytes left ++ bytes (c :: right))[byteLength left]? =
        (String.utf8EncodeChar c ++ bytes right)[0]? := by
      rw [List.getElem?_append_right (by simp)]
      simp
    rw [behind]
    by_cases narrow : c.toNat < 128
    · have small := toNat_ascii narrow
      simp only [utf8EncodeChar_of_ascii narrow, List.cons_append, List.getElem?_cons_zero]
      simp only [UInt8.lt_iff_toNat_lt, small, Bool.or_eq_true, decide_eq_true_eq]
      exact .inl (.inr narrow)
    · obtain ⟨lead, more, spelled, large, -, -⟩ := utf8EncodeChar_of_wide (Nat.le_of_not_lt narrow)
      simp only [spelled, List.cons_append, List.getElem?_cons_zero]
      simp only [UInt8.le_iff_toNat_le, Bool.or_eq_true, decide_eq_true_eq]
      exact .inr large

theorem isRange_append (before middle after : List Char) :
    IsRange (bytes (before ++ (middle ++ after))) (byteLength before) (byteLength (before ++ middle)) where
  ordered := by simp
  inside := by simp
  startBoundary := isBoundary_append before (middle ++ after)
  stopBoundary := by
    rw [← List.append_assoc]
    exact isBoundary_append (before ++ middle) after

def IsCut (text : List Char) (position : Nat) : Prop :=
  ∃ left right, text = left ++ right ∧ position = byteLength left

/-- Two places in a source between which there is a text. -/
structure Takes (source : String) (start stop : Nat) : Prop where
  range : IsRange (encode source) start stop
  taken : (slice? source.toList start stop).isSome

theorem IsCut.le {text : List Char} {position : Nat} (cut : IsCut text position) : position ≤ byteLength text := by
  obtain ⟨left, right, rfl, rfl⟩ := cut
  simp

theorem exists_between {left right front back : List Char} (same : left ++ right = front ++ back)
    (ordered : byteLength left ≤ byteLength front) : ∃ middle, front = left ++ middle := by
  rcases List.append_eq_append_iff.mp same with ⟨middle, whole, -⟩ | ⟨middle, whole, -⟩
  · exact ⟨middle, whole⟩
  · cases middle with
    | nil => exact ⟨[], by rw [whole, List.append_nil, List.append_nil]⟩
    | cons c middle =>
      have positive := byteLength_pos (List.cons_ne_nil c middle)
      rw [whole, byteLength_append] at ordered
      omega

theorem IsCut.takes {source : String} {start stop : Nat} (first : IsCut source.toList start)
    (second : IsCut source.toList stop) (ordered : start ≤ stop) : Takes source start stop := by
  obtain ⟨left, right, whole, rfl⟩ := first
  obtain ⟨front, back, same, rfl⟩ := second
  obtain ⟨middle, rfl⟩ := exists_between (whole.symm.trans same) ordered
  rw [List.append_assoc] at same
  refine ⟨?_, ?_⟩
  · rw [encode_eq_bytes, same]
    exact isRange_append left middle back
  · rw [same, slice?_append]
    rfl

end EffectLang.Utf8
