import EffectLang.Proofs.Effect.WellFormed
import EffectLang.Proofs.Glsl.Constants
import EffectLang.Text.Lines

/-!
The uniform block of the local constants under the rules of its layout. The text of the block says which members it
has, and the rules say where each of them lies and how large the block is. The float members lie where their defaults
do, but an array of floats takes four times the room that its defaults do, so the block is larger than the values that
are there to fill it.
-/
namespace EffectLang

namespace Lines

theorem splitFrom_append {line : List Char} (unbroken : '\n' ∉ line) (before rest : List Char) :
    splitFrom before (line ++ '\n' :: rest) = ended (line.reverse ++ before) :: splitFrom [] rest := by
  induction line generalizing before with
  | nil => rfl
  | cons c line ih =>
    obtain ⟨noFeed, more⟩ := not_or.mp (List.mem_cons.not.mp unbroken)
    rw [List.cons_append, splitFrom, if_neg fun feed => noFeed feed.symm, ih more]
    simp

theorem ended_reverse {line : List Char} (plain : line.getLast? ≠ some '\r') :
    ended line.reverse = String.ofList line := by
  rw [← List.head?_reverse] at plain
  unfold ended
  split
  · rename_i rest spelled
    rw [spelled] at plain
    exact absurd rfl plain
  · rw [List.reverse_reverse]

theorem split_join {lines : List String}
    (plain : ∀ line ∈ lines, '\n' ∉ line.toList ∧ line.toList.getLast? ≠ some '\r') :
    split (String.join (lines.map (· ++ "\n"))) = lines := by
  induction lines with
  | nil => rfl
  | cons line lines ih =>
    obtain ⟨⟨unbroken, noReturn⟩, more⟩ := List.forall_mem_cons.mp plain
    have spelled : (String.join ((line :: lines).map (· ++ "\n"))).toList =
        line.toList ++ '\n' :: (String.join (lines.map (· ++ "\n"))).toList := by
      simp [String.join_cons]
    rw [split, spelled, splitFrom_append unbroken, List.append_nil, ended_reverse noReturn, String.ofList_toList]
    exact congrArg (line :: ·) (ih more)

end Lines

namespace Std140

/-- A member of a uniform block: a float, or an array of floats. -/
inductive Member where
  | float (name : String)
  | floats (name : String) (count : Nat)
deriving DecidableEq, Repr

namespace Member

def name : Member → String
  | .float name => name
  | .floats name _ => name

def alignment : Member → Nat
  | .float _ => 4
  | .floats _ _ => 16

def size : Member → Nat
  | .float _ => 4
  -- The elements lie 16 bytes apart.
  | .floats _ count => 16 * count

def declarator : Member → String
  | .float name => name
  | .floats name count => name ++ "[" ++ toString count ++ "]"

/-- The line that declares a member. -/
def line (member : Member) : String :=
  "\tfloat " ++ member.declarator ++ ";"

def ofExtent? (name : String) (digits : List Char) : List Char → Option Member
  | [']', ';'] => if digits = [] then none else some (.floats name (Nat.ofDigitChars 10 digits 0))
  | _ => none

def ofMarks? (name : String) : List Char → Option Member
  | [';'] => some (.float name)
  | '[' :: extent => ofExtent? name (extent.takeWhile Char.isDigit) (extent.dropWhile Char.isDigit)
  | _ => none

/-- The member that a line declares. -/
def read? : List Char → Option Member
  | '\t' :: 'f' :: 'l' :: 'o' :: 'a' :: 't' :: ' ' :: rest =>
    if rest.head?.any Char.isAlpha then
      ofMarks? (String.ofList (rest.takeWhile Lexeme.isWordChar)) (rest.dropWhile Lexeme.isWordChar)
    else none
  | _ => none

end Member

def openingLine : String :=
  "layout(std140, binding=7) uniform LocalConstants \x7b"

def closingLine : String :=
  "\x7d;"

def text (members : List Member) : String :=
  String.join ((openingLine :: members.map Member.line ++ [closingLine]).map (· ++ "\n"))

def readMembers : List String → Option (List Member)
  | [] => none
  | line :: lines =>
    if line = closingLine then if lines = [] then some [] else none
    else
      match Member.read? line.toList, readMembers lines with
      | some member, some members => some (member :: members)
      | _, _ => none

/-- The members that the text of a block declares. -/
def read? (text : String) : Option (List Member) :=
  match Lines.split text with
  | [] => none
  | line :: lines => if line = openingLine then readMembers lines else none

/-- The first multiple of an alignment that is not less than an offset. -/
def alignUp (alignment offset : Nat) : Nat :=
  (offset + (alignment - 1)) / alignment * alignment

/-- The offsets of members that are placed one after another. -/
def offsets (start : Nat) : List Member → List Nat
  | [] => []
  | member :: members =>
    alignUp member.alignment start :: offsets (alignUp member.alignment start + member.size) members

/-- Where the last of the members ends that are placed one after another. -/
def finish (start : Nat) : List Member → Nat
  | [] => start
  | member :: members => finish (alignUp member.alignment start + member.size) members

def blockSize (members : List Member) : Nat :=
  alignUp 16 (finish 0 members)

namespace Member

theorem word_of_isName {name : String} (isName : IsName name) :
    name.toList.head?.any Char.isAlpha = true ∧ ∀ c ∈ name.toList, Lexeme.isWordChar c = true := by
  obtain ⟨c, more, spelled, letter, inside⟩ := isName
  rw [spelled]
  refine ⟨by simpa using letter, List.forall_mem_cons.mpr ⟨?_, ?_⟩⟩
  · simp [Lexeme.isWordChar, Char.isAlphanum, letter]
  · intro d member
    simpa [Lexeme.isWordChar] using inside d member

theorem span_name {name : String} (isName : IsName name) (mark : Char) (noWord : Lexeme.isWordChar mark = false)
    (rest : List Char) :
    (name.toList ++ mark :: rest).head?.any Char.isAlpha = true ∧
      (name.toList ++ mark :: rest).takeWhile Lexeme.isWordChar = name.toList ∧
      (name.toList ++ mark :: rest).dropWhile Lexeme.isWordChar = mark :: rest := by
  obtain ⟨letter, word⟩ := word_of_isName isName
  refine ⟨?_, ?_, ?_⟩
  · cases spelled : name.toList with
    | nil => simp [spelled] at letter
    | cons c more => simpa [spelled] using letter
  · rw [List.takeWhile_append_of_pos word, List.takeWhile_cons_of_neg (by simp [noWord]), List.append_nil]
  · rw [List.dropWhile_append_of_pos word, List.dropWhile_cons_of_neg (by simp [noWord])]

theorem toList_toString (count : Nat) : (toString count).toList = Nat.toDigits 10 count := by
  rw [Nat.toString_eq_repr, Nat.repr_eq_ofList_toDigits, String.toList_ofList]

theorem isDigit_of_mem_toString {count : Nat} {c : Char} (member : c ∈ (toString count).toList) : c.isDigit = true := by
  rw [toList_toString] at member
  exact Nat.isDigit_of_mem_toDigits (by decide) (by decide) member

theorem span_count (count : Nat) (rest : List Char) :
    ((toString count).toList ++ ']' :: rest).takeWhile Char.isDigit = (toString count).toList ∧
      ((toString count).toList ++ ']' :: rest).dropWhile Char.isDigit = ']' :: rest := by
  have digits : ∀ c ∈ (toString count).toList, c.isDigit = true := fun c member => isDigit_of_mem_toString member
  constructor
  · rw [List.takeWhile_append_of_pos digits, List.takeWhile_cons_of_neg (by decide), List.append_nil]
  · rw [List.dropWhile_append_of_pos digits, List.dropWhile_cons_of_neg (by decide)]

theorem read?_of_isName {name : String} (isName : IsName name) (mark : Char) (noWord : Lexeme.isWordChar mark = false)
    (rest : List Char) :
    read? ("\tfloat ".toList ++ (name.toList ++ mark :: rest)) = ofMarks? name (mark :: rest) := by
  obtain ⟨letter, word, behind⟩ := span_name isName mark noWord rest
  have known : read? ("\tfloat ".toList ++ (name.toList ++ mark :: rest)) =
      ofMarks? (String.ofList ((name.toList ++ mark :: rest).takeWhile Lexeme.isWordChar))
        ((name.toList ++ mark :: rest).dropWhile Lexeme.isWordChar) := if_pos letter
  rw [known, word, behind, String.ofList_toList]

theorem read?_line {member : Member} (isName : IsName member.name) : read? member.line.toList = some member := by
  cases member with
  | float name =>
    have spelled : (line (.float name)).toList = "\tfloat ".toList ++ (name.toList ++ [';']) := by
      simp [line, declarator]
    rw [spelled]
    exact read?_of_isName isName ';' (by decide) []
  | floats name count =>
    have spelled : (line (.floats name count)).toList =
        "\tfloat ".toList ++ (name.toList ++ '[' :: ((toString count).toList ++ [']', ';'])) := by
      simp [line, declarator]
    obtain ⟨digits, behind⟩ := span_count count [';']
    rw [spelled]
    refine (read?_of_isName isName '[' (by decide) _).trans ?_
    change ofExtent? name (((toString count).toList ++ [']', ';']).takeWhile Char.isDigit)
      (((toString count).toList ++ [']', ';']).dropWhile Char.isDigit) = _
    rw [digits, behind, ofExtent?, toList_toString, if_neg Nat.toDigits_ne_nil,
      Nat.ofDigitChars_toDigits (by decide) (by decide)]

theorem line_ne_closingLine (member : Member) : member.line ≠ closingLine := by
  intro same
  have spelled := congrArg String.toList same
  simp [line, closingLine] at spelled

theorem plain_line {member : Member} (isName : IsName member.name) :
    '\n' ∉ member.line.toList ∧ member.line.toList.getLast? ≠ some '\r' := by
  obtain ⟨-, word⟩ := word_of_isName isName
  have noFeed : '\n' ∉ member.name.toList := fun inside => absurd (word _ inside) (by decide)
  have unbroken : '\n' ∉ member.declarator.toList := by
    cases member with
    | float name => exact noFeed
    | floats name count =>
      have digits : '\n' ∉ (toString count).toList := fun inside =>
        absurd (isDigit_of_mem_toString inside) (by decide)
      rw [toList_toString] at digits
      change '\n' ∉ name.toList at noFeed
      simp [declarator, noFeed, digits]
  have spelled : member.line.toList = "\tfloat ".toList ++ member.declarator.toList ++ [';'] := by
    simp [line]
  rw [spelled]
  constructor
  · simp [unbroken]
  · rw [List.getLast?_concat]
    decide

end Member

theorem readMembers_lines {members : List Member} (named : ∀ member ∈ members, IsName member.name) :
    readMembers (members.map Member.line ++ [closingLine]) = some members := by
  induction members with
  | nil => rfl
  | cons member members ih =>
    obtain ⟨isName, more⟩ := List.forall_mem_cons.mp named
    rw [List.map_cons, List.cons_append, readMembers, if_neg member.line_ne_closingLine, Member.read?_line isName,
      ih more]

theorem read?_text {members : List Member} (named : ∀ member ∈ members, IsName member.name) :
    read? (text members) = some members := by
  have plain : ∀ line ∈ openingLine :: members.map Member.line ++ [closingLine],
      '\n' ∉ line.toList ∧ line.toList.getLast? ≠ some '\r' := by
    simp only [List.cons_append, List.forall_mem_cons, List.forall_mem_append, List.forall_mem_map]
    refine ⟨by decide, fun member inside => Member.plain_line (named member inside), by decide, by simp⟩
  rw [read?, text, Lines.split_join plain, List.cons_append]
  exact (if_pos rfl).trans (readMembers_lines named)

section Layout

theorem finish_append (start : Nat) (members others : List Member) :
    finish start (members ++ others) = finish (finish start members) others := by
  induction members generalizing start with
  | nil => rfl
  | cons member members ih => exact ih _

theorem offsets_append (start : Nat) (members others : List Member) :
    offsets start (members ++ others) = offsets start members ++ offsets (finish start members) others := by
  induction members generalizing start with
  | nil => rfl
  | cons member members ih => exact congrArg _ (ih _)

theorem alignUp_mul (alignment count : Nat) (positive : 0 < alignment) :
    alignUp alignment (alignment * count) = alignment * count := by
  have whole : (alignment * count + (alignment - 1)) / alignment = count := by
    rw [Nat.mul_add_div positive, Nat.div_eq_of_lt (by omega), Nat.add_zero]
  rw [alignUp, whole, Nat.mul_comm]

variable {α : Type} (name : α → String)

theorem finish_floats (start : Nat) (items : List α) :
    finish (4 * start) (items.map fun item => .float (name item)) = 4 * (start + items.length) := by
  induction items generalizing start with
  | nil => rfl
  | cons item items ih =>
    -- A float ends on a multiple of four, so the next one follows without a gap.
    have next : 4 * start + 4 = 4 * (start + 1) := by omega
    rw [List.map_cons, finish, Member.alignment, Member.size, alignUp_mul 4 start (by decide), next, ih,
      List.length_cons]
    omega

theorem offsets_floats (start : Nat) (items : List α) :
    offsets (4 * start) (items.map fun item => .float (name item)) =
      (List.range items.length).map fun k => 4 * (start + k) := by
  induction items generalizing start with
  | nil => rfl
  | cons item items ih =>
    have next : 4 * start + 4 = 4 * (start + 1) := by omega
    rw [List.map_cons, offsets, Member.alignment, Member.size, alignUp_mul 4 start (by decide), next, ih,
      List.length_cons, List.range_succ_eq_map]
    simp [Nat.add_assoc, Nat.add_comm 1]

end Layout

end Std140

namespace LocalConstants

variable {effect : Effect}

def members (effect : Effect) : List Std140.Member :=
  effect.floatProperties.map (fun property => .float property.name) ++
    [.floats "pad_tail" (padding effect.floatProperties.length)]

theorem member_eq (name : String) : member name = (Std140.Member.float name).line ++ "\n" := by
  rw [← String.toList_inj]
  simp [member, Std140.Member.line, Std140.Member.declarator]

theorem closing_eq (count : Nat) :
    closing count = (Std140.Member.floats "pad_tail" count).line ++ "\n" ++ (Std140.closingLine ++ "\n") := by
  have spelled : closing count = "\tfloat pad_tail[" ++ toString count ++ "];\n\x7d;\n" := rfl
  rw [spelled, ← String.toList_inj]
  simp [Std140.Member.line, Std140.Member.declarator, Std140.closingLine]

theorem block_eq_text (declared : effect.properties ≠ []) : (ofEffect effect).block = Std140.text (members effect) := by
  have first : opening = Std140.openingLine ++ "\n" := by decide
  rw [block_eq declared, first, closing_eq]
  simp only [member_eq, Std140.text, members, List.map_append, List.map_cons, List.map_map, List.map_nil,
    List.cons_append, List.append_assoc, List.nil_append, String.join_cons, String.join_append, String.join_nil,
    String.append_empty, String.append_assoc]
  rfl

theorem read?_block (declared : effect.properties ≠ [])
    (named : ∀ property ∈ effect.floatProperties, IsName property.name) :
    Std140.read? (ofEffect effect).block = some (members effect) := by
  have tail : IsName "pad_tail" := ⟨'p', "ad_tail".toList, rfl, by decide, by simp⟩
  rw [block_eq_text declared]
  apply Std140.read?_text
  simp only [members, List.forall_mem_append, List.forall_mem_map, List.forall_mem_singleton]
  exact ⟨named, tail⟩

theorem offsets_members {k : Nat} (inside : k < effect.floatProperties.length) :
    (Std140.offsets 0 (members effect))[k]? = some (4 * k) := by
  rw [members, Std140.offsets_append, Std140.offsets_floats Property.name 0,
    List.getElem?_append_left (by simpa using inside)]
  simp [inside]

theorem blockSize_members (effect : Effect) :
    Std140.blockSize (members effect) =
      4 * (effect.floatProperties.length + padding effect.floatProperties.length) +
        16 * min (padding effect.floatProperties.length) 3 := by
  rw [Std140.blockSize, members, Std140.finish_append, Std140.finish_floats Property.name 0]
  -- The array begins a new row of 16 bytes and takes one row for each of its elements.
  simp only [Std140.finish, Std140.Member.alignment, Std140.Member.size, Std140.alignUp, padding]
  omega

/-- The block of an effect with properties. Its text is that of one float for each float property and an array for the
padding, and is read as nothing else if the properties have names, as they have when they come from a source. Each
float lies where the bytes of its default do. But the block is larger than the bytes that are there for it, by 16 for
each element of the array up to three, and so the size that is given for it is always too small. -/
theorem block_exceeds_byteSize (effect : Effect) (declared : effect.properties ≠ []) :
    let constants := ofEffect effect
    let floats := effect.floatProperties
    let padding := constants.defaults.length - floats.length
    ∃ members : List Std140.Member,
      members = floats.map (fun property => .float property.name) ++ [.floats "pad_tail" padding] ∧
      constants.block = Std140.text members ∧
      ((∀ property ∈ floats, IsName property.name) → Std140.read? constants.block = some members) ∧
      (∃ blob, constants.blob = .ok blob ∧ ∀ (k : Nat) (property : Property), floats[k]? = some property →
        ∃ default offset, property.value = .float default ∧ (Std140.offsets 0 members)[k]? = some offset ∧
          ((blob.drop 4).drop offset).take 4 = littleEndian 4 default.bits.toNat) ∧
      Std140.blockSize members = 4 * constants.defaults.length + 16 * min padding 3 ∧
      constants.byteSize.toNat = 4 * constants.defaults.length % 2 ^ 32 ∧
      constants.byteSize.toNat < Std140.blockSize members := by
  intro constants floats padding
  have counted : constants.defaults.length = floats.length + LocalConstants.padding floats.length :=
    length_defaults declared
  have padded : padding = LocalConstants.padding floats.length := by
    simp only [padding, counted, Nat.add_sub_cancel_left]
  have sized : Std140.blockSize (LocalConstants.members effect) =
      4 * constants.defaults.length + 16 * min padding 3 := by
    rw [blockSize_members, padded, counted]
  refine ⟨LocalConstants.members effect, by rw [padded]; rfl, block_eq_text declared, read?_block declared, ?_, sized,
    toNat_byteSize constants, ?_⟩
  · refine ⟨_, blob_eq constants, fun k property there => ?_⟩
    obtain ⟨default, value, held⟩ := defaults_get_of_member declared there
    have inside : k < floats.length := (List.getElem?_eq_some_iff.mp there).1
    exact ⟨default, 4 * k, value, offsets_members inside, blob_get (blob_eq constants) held⟩
  · have positive := one_le_padding floats.length
    have cut : constants.byteSize.toNat ≤ 4 * constants.defaults.length := by
      rw [toNat_byteSize]
      exact Nat.mod_le _ _
    rw [sized]
    omega

/-- Four floats fill a row, and a whole array follows: 80 bytes, of which 32 are there. -/
theorem block_exceeds_byteSize_row :
    let effect : Effect :=
      { properties := [⟨"a", "A", .float .one⟩, ⟨"b", "B", .float .zero⟩, ⟨"t", "T", .texture .d2 "w"⟩,
          ⟨"c", "C", .float ⟨0x7FC00001⟩⟩, ⟨"d", "D", .float .one⟩] }
    effect.properties ≠ [] ∧ ∃ members, (ofEffect effect).block = Std140.text members ∧
      Std140.blockSize members = 80 ∧ (ofEffect effect).byteSize.toNat = 32 ∧
      (ofEffect effect).byteSize.toNat < Std140.blockSize members := by
  intro effect
  have declared : effect.properties ≠ [] := by decide
  obtain ⟨members, -, spelled, -, -, larger, size, less⟩ := block_exceeds_byteSize effect declared
  exact ⟨declared, members, spelled, larger.trans (by decide), size.trans (by decide), less⟩

/-- The text of a block with one float declares it and an array of three; these take 64 bytes, where 16 are given. -/
theorem byteSize_ne_blockSize :
    let effect : Effect := { properties := [⟨"a", "A", .float .one⟩] }
    effect.properties ≠ [] ∧ ∃ members, Std140.read? (ofEffect effect).block = some members ∧
      Std140.blockSize members = 64 ∧ (ofEffect effect).byteSize.toNat = 16 ∧
      Std140.blockSize members ≠ (ofEffect effect).byteSize.toNat := by
  refine ⟨by decide, [.float "a", .floats "pad_tail" 3], ?_, by decide, by decide, by decide⟩
  decide +kernel

end LocalConstants

end EffectLang
