import EffectLang.Proofs.Document.Directives
import EffectLang.Proofs.Reading.Aftermath

/-!
Where the block of a chunk ends. Going over the tokens of a block, only those braces count that belong to no directive
and to no uniform. The block ends at the first closing brace that is one too many among these, and the code of the chunk
is all text up to there. A brace in the place of a word of a directive or a uniform is taken for that word.
-/
namespace EffectLang

namespace Token

def weight (token : Token) : Int :=
  if token.kind = .openBrace then 1 else if token.kind = .closeBrace then -1 else 0

/-- How many more braces are opened than closed. -/
def depth (tokens : List Token) : Int :=
  (tokens.map weight).sum

theorem depth_cons (token : Token) (tokens : List Token) : depth (token :: tokens) = token.weight + depth tokens := by
  simp [depth]

theorem neg_one_le_weight (token : Token) : -1 ≤ token.weight := by
  unfold weight
  split_ifs <;> decide

theorem weight_eq_neg_one {token : Token} : token.weight = -1 ↔ token.kind = .closeBrace := by
  unfold weight
  split_ifs with opens closes
  · simp [opens]
  · simp [closes]
  · simp [closes]

/-- Behind an opening brace, the block ends at the first token with which more braces are closed than opened, of those
that are counted. -/
structure EndsBlock (counted : List Token → List Token) (body : List Token) (closing : Token) : Prop where
  inside : ∀ front, front <+: body → 0 ≤ depth (counted front)
  outside : depth (counted (body ++ [closing])) < 0

end Token

namespace Reader

variable {reader : Reader}

/-- A token of the kind of a mark is that mark. -/
theorem text_of_mark {kind : Token.Kind} {c : Char} (listed : (c, kind) ∈ Lexeme.marks)
    (found : reader.next.1.kind = kind) : reader.next.1.text.toList = [c] := by
  have more : kind ≠ .endOfStream := by
    rintro rfl
    simp [Lexeme.marks] at listed
  have unique : ∀ first ∈ Lexeme.marks, ∀ second ∈ Lexeme.marks, first.2 = second.2 → first = second := by decide
  obtain ⟨opening, text, closing, rest, spelled, form⟩ := spelled_next found more
  rw [spelled]
  cases form with
  | mark other => rw [(Prod.mk.inj (unique _ other _ listed rfl)).1]
  | _ => simp [Lexeme.marks] at listed

theorem expect_of_kind {kind : Token.Kind} (calm : reader.error = none) (found : reader.next.1.kind = kind) :
    reader.expect kind = (.ok reader.next.1, reader.next.2) := by
  simp [expect, hasError, calm, found]

theorem more_of_ahead {token : Token} {rest : List Token} (ahead : reader.ahead = token :: rest) (longer : rest ≠ []) :
    token.kind ≠ .endOfStream := by
  obtain ⟨others, first⟩ := reader.head_ahead
  obtain ⟨rfl, -⟩ := List.cons.inj (first.symm.trans ahead)
  intro ended
  exact longer (List.cons.inj ((ahead_of_end ended).symm.trans ahead)).2.symm

theorem next_of_ahead {token : Token} {rest : List Token} (ahead : reader.ahead = token :: rest)
    (more : token.kind ≠ .endOfStream) : reader.next.1 = token ∧ reader.next.2.ahead = rest := by
  obtain ⟨others, first⟩ := reader.head_ahead
  obtain ⟨rfl, -⟩ := List.cons.inj (first.symm.trans ahead)
  exact ⟨rfl, (List.cons.inj ((ahead_of_more more).symm.trans ahead)).2⟩

end Reader

namespace Document

open StateTransition

namespace Part

/-- The tokens that are no part of a directive or of a uniform, but for the words that begin them. -/
def plain : Part → List Token → List Token
  | _, [] => []
  | part, token :: rest => (if part = .code then [token] else []) ++ plain (part.read token).1 rest

/-- No brace is a part of a directive or of a uniform. -/
def Clean : Part → List Token → Prop
  | _, [] => True
  | part, token :: rest => (part = .code ∨ token.weight = 0) ∧ Clean (part.read token).1 rest

/-- What a token counts where it is found. -/
def weight (part : Part) (token : Token) : Int :=
  if part = .code then token.weight else 0

variable {part : Part} {token closing : Token} {body : List Token} {braces : Int}

theorem depth_plain_cons (part : Part) (token : Token) (rest : List Token) :
    Token.depth (part.plain (token :: rest)) = part.weight token + Token.depth ((part.read token).1.plain rest) := by
  rw [plain, weight]
  split_ifs
  · exact Token.depth_cons _ _
  · rw [List.nil_append, zero_add]

theorem depth_plain_of_clean {part : Part} {tokens : List Token} (clean : part.Clean tokens) :
    Token.depth (part.plain tokens) = Token.depth tokens := by
  induction tokens generalizing part with
  | nil => rfl
  | cons token rest ih =>
    obtain ⟨counts, later⟩ := clean
    have same : part.weight token = token.weight := by
      unfold weight
      split_ifs with code
      · rfl
      · exact (counts.resolve_left code).symm
    rw [depth_plain_cons, Token.depth_cons, ih later, same]

theorem Clean.front {part : Part} {front back : List Token} (clean : part.Clean (front ++ back)) :
    part.Clean front := by
  induction front generalizing part with
  | nil => trivial
  | cons token front ih => exact ⟨clean.1, ih clean.2⟩

/-- Where no brace is a part of a directive or of a uniform, the block ends at the plain matching brace. -/
theorem endsBlock_iff_of_clean (clean : Part.code.Clean (body ++ [closing])) :
    Token.EndsBlock id body closing ↔ Token.EndsBlock Part.code.plain body closing := by
  have inner {front : List Token} (within : front <+: body) :
      Token.depth (Part.code.plain front) = Token.depth front := by
    obtain ⟨back, rfl⟩ := within
    rw [List.append_assoc] at clean
    exact depth_plain_of_clean clean.front
  constructor
  · rintro ⟨inside, outside⟩
    exact ⟨fun front within => by rw [inner within]; exact inside front within,
      by rw [depth_plain_of_clean clean]; exact outside⟩
  · rintro ⟨inside, outside⟩
    exact ⟨fun front within => by rw [id, ← inner within]; exact inside front within,
      by rw [id, ← depth_plain_of_clean clean]; exact outside⟩

/-- From a part on, with some braces open, the block ends behind `body` at `closing`. -/
structure Closes (part : Part) (braces : Int) (body : List Token) (closing : Token) : Prop where
  inside : ∀ front, front <+: body → 0 < braces + Token.depth (part.plain front)
  outside : braces + Token.depth (part.plain (body ++ [closing])) ≤ 0

theorem closes_iff_endsBlock : Part.code.Closes 1 body closing ↔ Token.EndsBlock Part.code.plain body closing := by
  constructor
  · rintro ⟨inside, outside⟩
    exact ⟨fun front within => by have := inside front within; omega, by omega⟩
  · rintro ⟨inside, outside⟩
    exact ⟨fun front within => by have := inside front within; omega, by omega⟩

theorem Closes.pos (closes : part.Closes braces body closing) : 0 < braces := by
  simpa [plain, Token.depth] using closes.inside [] (List.nil_prefix)

/-- One token further on, the braces that are open are those that it leaves open. -/
theorem closes_cons (positive : 0 < braces) :
    part.Closes braces (token :: body) closing ↔
      (part.read token).1.Closes (braces + part.weight token) body closing := by
  constructor
  · rintro ⟨inside, outside⟩
    refine ⟨fun front within => ?_, ?_⟩
    · have more := inside (token :: front) (List.cons_prefix_cons.mpr ⟨rfl, within⟩)
      rw [depth_plain_cons] at more
      omega
    · rw [List.cons_append, depth_plain_cons] at outside
      omega
  · rintro ⟨inside, outside⟩
    refine ⟨fun front within => ?_, ?_⟩
    · cases front with
      | nil => simpa [plain, Token.depth] using positive
      | cons first front =>
        obtain ⟨rfl, later⟩ := List.cons_prefix_cons.mp within
        have more := inside front later
        rw [depth_plain_cons]
        omega
    · rw [List.cons_append, depth_plain_cons]
      omega

theorem closes_nil (positive : 0 < braces) : part.Closes braces [] closing ↔ braces + part.weight closing ≤ 0 := by
  have whole : Token.depth (part.plain [closing]) = part.weight closing := by
    rw [depth_plain_cons]
    simp [plain, Token.depth]
  constructor
  · rintro ⟨-, outside⟩
    rwa [List.nil_append, whole] at outside
  · intro outside
    refine ⟨fun front within => ?_, ?_⟩
    · rw [List.prefix_nil.mp within]
      simpa [plain, Token.depth] using positive
    · rwa [List.nil_append, whole]

/-- A token with which no brace is open any more is a closing brace in plain code, and one was open before it. -/
theorem lastBrace_of_weight (positive : 0 < braces) (last : braces + part.weight token ≤ 0) :
    part = .code ∧ token.kind = .closeBrace ∧ braces = 1 := by
  have least := token.neg_one_le_weight
  unfold weight at last
  split_ifs at last with code
  · exact ⟨code, Token.weight_eq_neg_one.mp (by omega), by omega⟩
  · omega

end Part

/-- A task in a block reads the part that the tokens so far lead to. -/
inductive CodeTask.Reads : CodeTask → Part → Prop
  | code : Reads .code .code
  | directive : Reads .directive .word
  | defined : Reads .defined .defined
  | condition : Reads .condition .condition
  | conditionName : Reads .conditionName .name
  | pragma : Reads .pragma .pragma
  | includeName (flag : UInt32) (own : Bool) : Reads (.includeName flag) (.included own)
  | uniformType : Reads .uniformType .type
  | resourceName (kind : Resource.Kind) : Reads (.resourceName kind) .resource

namespace Moment

variable {task : CodeTask} {part : Part}

/-- A token of a directive or of a uniform leads the task to the next part, and leaves the name of the chunk alone. -/
theorem reads_readItem (reads : task.Reads part) (other : part ≠ .code) (block : Block) (token : Token) :
    (readItem block token task).2.Reads (part.read token).1 ∧
      (readItem block token task).1.chunk.name = block.chunk.name := by
  cases reads with
  | code => exact absurd rfl other
  | directive =>
    simp only [readItem]
    split
    · rename_i word
      refine ⟨?_, rfl⟩
      simp only [Part.read, word]
      exact .defined
    · rename_i word
      refine ⟨?_, rfl⟩
      simp only [Part.read, word]
      exact .pragma
    · rename_i word
      refine ⟨?_, rfl⟩
      simp only [Part.read, word]
      exact .code
    · rename_i noIf noPragma noEnd
      refine ⟨?_, rfl⟩
      simp only [Part.read]
      exact .code
  | defined =>
    refine ⟨?_, rfl⟩
    simp only [readItem, Part.read]
    split
    · exact .condition
    · exact .code
  | condition =>
    simp only [readItem, Part.read]
    split
    · exact ⟨.conditionName, rfl⟩
    · exact ⟨.code, rfl⟩
  | conditionName => exact ⟨.code, rfl⟩
  | pragma =>
    simp only [readItem]
    obtain ⟨nothing, goes⟩ | ⟨own, asked, goes⟩ := includeFlag?_cases block.conditionals token
    · rw [nothing, goes]
      exact ⟨.code, rfl⟩
    · rw [asked, goes]
      exact ⟨.includeName _ own, rfl⟩
  | includeName flag own => exact ⟨.code, rfl⟩
  | uniformType =>
    simp only [readItem, Part.read]
    cases uniformKind? token.text with
    | none => exact ⟨.code, rfl⟩
    | some kind => exact ⟨.resourceName kind, rfl⟩
  | resourceName kind => exact ⟨.code, rfl⟩

/-- At the end of the source every directive and uniform is over. -/
theorem readItem_of_end {token : Token} (ended : token.kind = .endOfStream) (nothing : token.text = "") (block : Block)
    (task : CodeTask) : (readItem block token task).2 = .code := by
  cases task with
  | directive =>
    simp only [readItem, nothing]
    rfl
  | defined =>
    simp only [readItem, Token.isKeyword, nothing]
    rfl
  | condition => simp only [readItem, ended, reduceCtorEq, if_false]
  | pragma =>
    simp only [readItem, nothing]
    rfl
  | uniformType =>
    simp only [readItem, nothing]
    rfl
  | _ => rfl

variable {progress : Progress} {brace : Token} {braces : Nat} {block : Block}

/-- What plain code leads to, token by token: braces are counted, and a hash or `uniform` begins something else. -/
theorem readCode_inside {token : Token} (more : token.kind ≠ .endOfStream) (stays : 0 < braces + token.weight) :
    ∃ (count : Nat) (next : CodeTask),
      readCode brace braces block token progress = ⟨progress, .chunk brace count block next⟩ ∧
        (count : Int) = braces + token.weight ∧ next.Reads (Part.code.read token).1 := by
  by_cases opens : token.kind = .openBrace
  · have lifts : token.weight = 1 := if_pos opens
    refine ⟨braces + 1, .code, ?_, by omega, ?_⟩
    · simp only [readCode, opens, reduceCtorEq, if_false, if_true]
    · simp only [Part.read, opens, reduceCtorEq, false_and, if_false]
      exact .code
  by_cases closes : token.kind = .closeBrace
  · have lowers := Token.weight_eq_neg_one.mpr closes
    have open_ : braces - 1 ≠ 0 := by omega
    refine ⟨braces - 1, .code, ?_, by omega, ?_⟩
    · simp only [readCode, closes, reduceCtorEq, open_, if_false, if_true]
    · simp only [Part.read, closes, reduceCtorEq, false_and, if_false]
      exact .code
  have level : token.weight = 0 := by rw [Token.weight, if_neg opens, if_neg closes]
  simp only [readCode, if_neg more, if_neg opens, if_neg closes, Part.read]
  split_ifs with hash word
  · exact ⟨braces, .directive, rfl, by omega, .directive⟩
  · exact ⟨braces, .uniformType, rfl, by omega, .uniformType⟩
  · exact ⟨braces, .code, rfl, by omega, .code⟩

/-- A token of a block that does not end it is taken by one step. -/
theorem step_inside (brace : Token) (block : Block) (reads : task.Reads part)
    (more : progress.reader.next.1.kind ≠ .endOfStream) (stays : 0 < braces + part.weight progress.reader.next.1) :
    ∃ (count : Nat) (later : Block) (next : CodeTask),
      step ⟨progress, .chunk brace braces block task⟩ =
        some ⟨progress.moveTo progress.reader.next.2, .chunk brace count later next⟩ ∧
      (count : Int) = braces + part.weight progress.reader.next.1 ∧
      next.Reads (part.read progress.reader.next.1).1 ∧ later.chunk.name = block.chunk.name := by
  rw [step_read progress rfl rfl]
  by_cases code : part = .code
  · subst code
    cases reads
    rw [Part.weight, if_pos rfl] at stays ⊢
    obtain ⟨count, next, goes, counted, goesOn⟩ := readCode_inside more stays
    exact ⟨count, block, next, congrArg some goes, counted, goesOn, rfl⟩
  · have counts : part.weight progress.reader.next.1 = 0 := if_neg code
    obtain ⟨goesOn, named⟩ := reads_readItem reads code block progress.reader.next.1
    refine ⟨braces, _, _, ?_, by omega, goesOn, named⟩
    cases reads with
    | code => exact absurd rfl code
    | _ => rfl

/-- The brace that ends a block gives the chunk, with the text up to there. -/
theorem step_lastBrace (closes : progress.reader.next.1.kind = .closeBrace) :
    step ⟨progress, .chunk brace 1 block .code⟩ =
      some ⟨(progress.moveTo progress.reader.next.2).addChunk { block.chunk with
        code := progress.reader.next.2.textBetween (min brace.stop progress.reader.next.1.offset)
          progress.reader.next.1.offset }, .declaration⟩ := by
  rw [step_read progress rfl rfl]
  simp only [read, readCode, closes, reduceCtorEq, if_false, if_true, Nat.sub_self]
  rfl

/-- At the end of the source a block that is still open is given up, with a complaint. -/
theorem reaches_given_up (reads : task.Reads part) (ended : progress.reader.next.1.kind = .endOfStream)
    (calm : progress.reader.error = none) :
    ∃ reader, Reaches step ⟨progress, .chunk brace braces block task⟩ ⟨progress.moveTo reader, .declaration⟩ ∧
      reader.error = some (.of .closeBrace progress.reader.next.1) := by
  have code {progress : Progress} {block : Block} (ended : progress.reader.next.1.kind = .endOfStream)
      (calm : progress.reader.error = none) :
      ∃ reader, Reaches step ⟨progress, .chunk brace braces block .code⟩ ⟨progress.moveTo reader, .declaration⟩ ∧
        reader.error = some (.of .closeBrace progress.reader.next.1) := by
    refine ⟨progress.reader.next.2.report .closeBrace progress.reader.next.1, .single ?_, ?_⟩
    · rw [Option.mem_def, step_read progress rfl rfl]
      simp only [read, readCode, ended, if_true]
      rfl
    · rw [Reader.report, Reader.error_next, calm]
  by_cases already : task = .code
  · subst already
    exact code ended calm
  · have finished := readItem_of_end ended (Reader.text_of_end ended) block task
    have again := Reader.next_again ended
    have goes : step ⟨progress, .chunk brace braces block task⟩ =
        some ⟨progress.moveTo progress.reader.next.2,
          .chunk brace braces (readItem block progress.reader.next.1 task).1 .code⟩ := by
      rw [step_read progress rfl rfl, ← finished]
      cases task with
      | code => exact absurd rfl already
      | _ => rfl
    obtain ⟨reader, course, error⟩ := @code (progress.moveTo progress.reader.next.2)
      (readItem block progress.reader.next.1 task).1 (again ▸ ended) (progress.reader.error_next.trans calm)
    rw [Progress.reader_moveTo, again] at error
    exact ⟨reader, .head goes course, error⟩

/-- From within a block the steps come to the brace that ends it. The chunk has the text from behind the opening brace
up to there, and the reading goes on with the token behind it. -/
theorem reaches_lastBrace {body later : List Token} {closing : Token} {front inner rest : List Char}
    (located : progress.reader.Located (front ++ '\x7b' :: inner) rest)
    (stop : brace.stop = Utf8.byteLength (front ++ ['\x7b'])) (reads : task.Reads part)
    (closes : part.Closes braces body closing) (ahead : progress.reader.ahead = body ++ closing :: later) :
    ∃ between back reader chunk, rest = between ++ '\x7d' :: back ∧
      closing.offset = Utf8.byteLength (front ++ '\x7b' :: (inner ++ between)) ∧
      Reaches step ⟨progress, .chunk brace braces block task⟩ ⟨(progress.moveTo reader).addChunk chunk, .declaration⟩ ∧
      chunk.name = block.chunk.name ∧ chunk.code = String.ofList (inner ++ between) ∧ reader.ahead = later ∧
      reader.error = progress.reader.error := by
  induction body generalizing progress part task braces block inner rest with
  | nil =>
    obtain ⟨rfl, brace_, one⟩ := Part.lastBrace_of_weight closes.pos ((Part.closes_nil closes.pos).mp closes)
    cases reads
    cases Nat.cast_eq_one.mp one
    obtain ⟨rfl, behind⟩ := progress.reader.next_of_ahead ahead (brace_ ▸ by decide)
    obtain ⟨gap, text, tail, later', rfl, lies, -, -, -⟩ := located.next
    have spelled : text = ['\x7d'] := by
      rw [← show String.toList (String.ofList text) = text from String.toList_ofList, ← lies.text]
      exact Reader.text_of_mark (by decide) brace_
    subst spelled
    have whole : progress.reader.next.2.source =
        (front ++ ['\x7b']) ++ ((inner ++ gap) ++ ('\x7d' :: (tail ++ later'))) := by
      rw [Reader.source_next, located.source]
      simp
    have offset : progress.reader.next.1.offset = Utf8.byteLength ((front ++ ['\x7b']) ++ (inner ++ gap)) := by
      rw [lies.offset]
      simp
    have ordered : brace.stop ≤ progress.reader.next.1.offset := by
      rw [stop, offset, Utf8.byteLength_append (front ++ ['\x7b'])]
      exact Nat.le_add_right _ _
    refine ⟨gap, tail ++ later', _, _, by simp, ?_, .single (step_lastBrace brace_), rfl, ?_, behind,
      Reader.error_next _⟩
    · rw [offset]
      simp
    · dsimp only
      rw [min_eq_left ordered, stop, offset, Reader.textBetween_of_source _ _ _ whole]
  | cons token body ih =>
    obtain ⟨rfl, behind⟩ := progress.reader.next_of_ahead ahead (Reader.more_of_ahead ahead (by simp))
    have closesLater := (Part.closes_cons closes.pos).mp closes
    obtain ⟨count, middle, next, goes, counted, goesOn, named⟩ :=
      step_inside brace block reads (Reader.more_of_ahead ahead (by simp)) closesLater.pos
    obtain ⟨gap, text, tail, rest, rfl, -, place, -, -⟩ := located.next
    rw [List.append_assoc, List.cons_append] at place
    rw [← counted] at closesLater
    obtain ⟨between, back, reader, chunk, rfl, offset, course, name, code, resumed, error⟩ :=
      @ih _ _ (progress.moveTo progress.reader.next.2) count middle _ _ place goesOn closesLater behind
    refine ⟨gap ++ (text ++ (tail ++ between)), back, reader, chunk, ?_, ?_, .head goes course, name.trans named, ?_,
      resumed, error.trans (Reader.error_next _)⟩
    · simp only [List.append_assoc]
    · rw [offset]
      simp only [List.append_assoc]
    · rw [code]
      simp only [List.append_assoc]

/-- From within a block that no brace ends, the steps come to the end of the source and its complaint. -/
theorem reaches_unclosed (reads : task.Reads part) (open_ : 0 < (braces : Int)) (calm : progress.reader.error = none)
    (never : ∀ body closing later, progress.reader.ahead = body ++ closing :: later →
      ¬part.Closes braces body closing) :
    ∃ reader last, progress.reader.ahead.getLast? = some last ∧ last.kind = .endOfStream ∧
      Reaches step ⟨progress, .chunk brace braces block task⟩ ⟨progress.moveTo reader, .declaration⟩ ∧
      reader.error = some (.of .closeBrace last) := by
  induction tokens : progress.reader.ahead generalizing progress part task braces block with
  | nil =>
    obtain ⟨later, first⟩ := progress.reader.head_ahead
    cases first.symm.trans tokens
  | cons token rest ih =>
    by_cases ended : progress.reader.next.1.kind = .endOfStream
    · obtain ⟨reader, course, error⟩ := reaches_given_up reads ended calm
      refine ⟨reader, progress.reader.next.1, ?_, ended, course, error⟩
      rw [← tokens, Reader.ahead_of_end ended]
      rfl
    · have ahead := Reader.ahead_of_more ended
      have stays : 0 < braces + part.weight progress.reader.next.1 := by
        by_contra last
        exact never [] _ _ ahead ((Part.closes_nil open_).mpr (by omega))
      obtain ⟨count, middle, next, goes, counted, goesOn, -⟩ := step_inside brace block reads ended stays
      rw [← counted] at stays
      have neverLater : ∀ body closing later, progress.reader.next.2.ahead = body ++ closing :: later →
          ¬(part.read progress.reader.next.1).1.Closes count body closing := by
        intro body closing later behind closes
        rw [counted] at closes
        refine never (progress.reader.next.1 :: body) closing later ?_ ((Part.closes_cons open_).mpr closes)
        rw [ahead, behind, List.cons_append]
      have left : progress.reader.next.2.ahead = rest := (List.cons.inj (ahead.symm.trans tokens)).2
      obtain ⟨reader, last, final, isEnd, course, error⟩ :=
        @ih _ _ (progress.moveTo progress.reader.next.2) count middle goesOn stays
          ((Reader.error_next _).trans calm) neverLater left
      refine ⟨reader, last, ?_, isEnd, .head goes course, error⟩
      rw [List.getLast?_cons, final, Option.getD_some]

/-- The heading of a chunk leads into its block, with one brace open. -/
theorem reaches_block {name brace : Token} {rest : List Token} {source : List Char}
    (within : progress.reader.Within source) (calm : progress.reader.error = none)
    (ahead : progress.reader.ahead = name :: brace :: rest) (named : name.kind = .identifier)
    (opened : brace.kind = .openBrace) :
    ∃ reader front inner back,
      Reaches step ⟨progress, .chunkName⟩ ⟨progress.moveTo reader, .chunk brace 1 ⟨{ name := name.text }, {}⟩ .code⟩ ∧
      reader.ahead = rest ∧ reader.error = none ∧ source = front ++ '\x7b' :: (inner ++ back) ∧
      reader.Located (front ++ '\x7b' :: inner) back ∧ brace.offset = Utf8.byteLength front ∧
      brace.stop = Utf8.byteLength (front ++ ['\x7b']) := by
  obtain ⟨rfl, second⟩ := Reader.next_of_ahead ahead (named ▸ by decide)
  obtain ⟨rfl, third⟩ := Reader.next_of_ahead second (opened ▸ by decide)
  have still : progress.reader.next.2.error = none := (Reader.error_next _).trans calm
  obtain ⟨before, left, whole, located⟩ := within.next
  obtain ⟨gap, text, tail, back, rfl, lies, place, -, -⟩ := located.next
  have spelled : text = ['\x7b'] := by
    rw [← show String.toList (String.ofList text) = text from String.toList_ofList, ← lies.text]
    exact Reader.text_of_mark (by decide) opened
  subst spelled
  refine ⟨progress.reader.next.2.next.2, before ++ gap, tail, back, ?_, third, (Reader.error_next _).trans still, ?_,
    ?_, lies.offset, lies.stop⟩
  · refine reaches_found progress rfl (Reader.expect_of_kind calm named) ?_
    exact reaches_found (progress.moveTo progress.reader.next.2) rfl (Reader.expect_of_kind still opened) .refl
  · rw [whole]
    simp
  · simpa using place

end Moment

open Moment

/-- The block of a chunk ends at its matching brace, where those braces are not counted that stand in the place of a
word of a directive or a uniform. The code is the text between the two braces, and the reading goes on behind the
second. Without a matching brace there is no chunk, and the complaint is about the end of the source. Where no brace
stands in such a place, this is the matching brace among all tokens. -/
theorem chunk_ends_at_matching_brace {source : String} {capacity : LiteralTable.Capacity} {progress : Progress}
    {name brace : Token} {rest : List Token}
    (course : Reaches step (start (.start source capacity)) ⟨progress, .chunkName⟩)
    (calm : progress.reader.error = none) (ahead : progress.reader.ahead = name :: brace :: rest)
    (named : name.kind = .identifier) (opened : brace.kind = .openBrace) :
    (∀ body closing later, rest = body ++ closing :: later → Token.EndsBlock Part.code.plain body closing →
      ∃ front code back reader chunk, source.toList = front ++ '\x7b' :: (code ++ '\x7d' :: back) ∧
        brace.offset = Utf8.byteLength front ∧ closing.offset = Utf8.byteLength (front ++ '\x7b' :: code) ∧
        Reaches step ⟨progress, .chunkName⟩ ⟨(progress.moveTo reader).addChunk chunk, .declaration⟩ ∧
        chunk.name = name.text ∧ chunk.code = String.ofList code ∧ reader.ahead = later ∧ reader.error = none) ∧
    ((∀ body closing later, rest = body ++ closing :: later → ¬Token.EndsBlock Part.code.plain body closing) →
      ∃ reader last, rest.getLast? = some last ∧ last.kind = .endOfStream ∧
        Reaches step ⟨progress, .chunkName⟩ ⟨progress.moveTo reader, .declaration⟩ ∧
        reader.error = some (.of .closeBrace last)) ∧
    ∀ body closing, Part.code.Clean (body ++ [closing]) →
      (Token.EndsBlock id body closing ↔ Token.EndsBlock Part.code.plain body closing) := by
  have within : progress.reader.Within source.toList :=
    within_of_reaches ⟨[], source.toList, rfl, Reader.located_start source capacity⟩ course
  obtain ⟨inside, front, inner, back, entered, left, still, whole, located, offset, stop⟩ :=
    reaches_block within calm ahead named opened
  refine ⟨?_, ?_, fun body closing clean => Part.endsBlock_iff_of_clean clean⟩
  · intro body closing later split ends
    obtain ⟨between, after, reader, chunk, rfl, last, leads, same, code, resumed, error⟩ :=
      @reaches_lastBrace _ _ (progress.moveTo inside) brace 1 ⟨{ name := name.text }, {}⟩ body later closing front
        inner back located stop .code (Part.closes_iff_endsBlock.mpr ends) (left.trans split)
    refine ⟨front, inner ++ between, after, reader, chunk, ?_, offset, last, entered.trans leads, same, code, resumed,
      error.trans still⟩
    rw [whole, List.append_assoc]
  · intro never
    obtain ⟨reader, last, final, isEnd, leads, error⟩ :=
      @reaches_unclosed _ _ (progress.moveTo inside) brace 1 ⟨{ name := name.text }, {}⟩ .code (by decide) still
        fun body closing later split closes => never body closing later (left.symm.trans split)
          (Part.closes_iff_endsBlock.mp closes)
    exact ⟨reader, last, left ▸ final, isEnd, entered.trans leads, error⟩

/-- A brace behind a hash is taken for the word of a directive, and the block ends two closing braces later. -/
theorem chunk_ends_at_matching_brace_behind_hash :
    let source := "glsl a \x7b # \x7d \x7b y \x7d \x7d pass"
    let body : List Token := [⟨.hash, "#", 9, 1⟩, ⟨.closeBrace, "\x7d", 11, 1⟩, ⟨.openBrace, "\x7b", 13, 1⟩,
      ⟨.identifier, "y", 15, 1⟩, ⟨.closeBrace, "\x7d", 17, 1⟩]
    let closing : Token := ⟨.closeBrace, "\x7d", 19, 1⟩
    let later : List Token := [⟨.identifier, "pass", 21, 1⟩, ⟨.endOfStream, "", 25, 1⟩]
    Token.EndsBlock Part.code.plain body closing ∧ ∃ progress,
      Reaches step (start (.start source {})) ⟨progress, .chunkName⟩ ∧ progress.reader.error = none ∧
      progress.reader.ahead =
        ⟨.identifier, "a", 5, 1⟩ :: ⟨.openBrace, "\x7b", 7, 1⟩ :: (body ++ closing :: later) ∧
      ∃ front code back reader chunk, source.toList = front ++ '\x7b' :: (code ++ '\x7d' :: back) ∧
        7 = Utf8.byteLength front ∧ 19 = Utf8.byteLength (front ++ '\x7b' :: code) ∧
        Reaches step ⟨progress, .chunkName⟩ ⟨(progress.moveTo reader).addChunk chunk, .declaration⟩ ∧
        chunk.name = "a" ∧ chunk.code = String.ofList code ∧ reader.ahead = later ∧ reader.error = none := by
  intro source body closing later
  have ends : Token.EndsBlock Part.code.plain body closing := by
    refine ⟨?_, by decide⟩
    have inside : ∀ front ∈ body.inits, 0 ≤ Token.depth (Part.code.plain front) := by decide
    intro front within
    exact inside front ((List.mem_inits front body).mpr within)
  have reached : ((advance 1 (start (.start source {}))).any fun moment =>
      moment.task == .chunkName && moment.reader.error == none && moment.reader.ahead ==
        ⟨.identifier, "a", 5, 1⟩ :: ⟨.openBrace, "\x7b", 7, 1⟩ :: (body ++ closing :: later)) = true := by
    decide +kernel
  simp only [Option.any_eq_true, Bool.and_eq_true, beq_iff_eq] at reached
  obtain ⟨⟨progress, task⟩, course, ⟨rfl, calm⟩, ahead⟩ := reached
  exact ⟨ends, progress, reaches_of_advance course, calm, ahead,
    (chunk_ends_at_matching_brace (reaches_of_advance course) calm ahead rfl rfl).1 body closing later rfl ends⟩

/-- A matching brace among all tokens need not end the block. -/
theorem parse_passes_matching_brace :
    let source := "glsl A \x7b # \x7d"
    let body : List Token := [⟨.hash, "#", 9, 1⟩]
    let closing : Token := ⟨.closeBrace, "\x7d", 11, 1⟩
    Token.EndsBlock id body closing ∧
      (∃ progress, Reaches step (start (.start source {})) ⟨progress, .chunkName⟩ ∧ progress.reader.error = none ∧
        progress.reader.ahead =
          ⟨.identifier, "A", 5, 1⟩ :: ⟨.openBrace, "\x7b", 7, 1⟩ :: (body ++ closing :: [⟨.endOfStream, "", 12, 1⟩])) ∧
      parse source {} = .ok ⟨{}, some ⟨.closeBrace, .endOfStream, "", 1⟩⟩ := by
  intro source body closing
  have ends : Token.EndsBlock id body closing := by
    refine ⟨?_, by decide⟩
    have inside : ∀ front ∈ body.inits, 0 ≤ Token.depth (id front) := by decide
    intro front within
    exact inside front ((List.mem_inits front body).mpr within)
  have reached : ((advance 1 (start (.start source {}))).any fun moment =>
      moment.task == .chunkName && moment.reader.error == none && moment.reader.ahead ==
        ⟨.identifier, "A", 5, 1⟩ :: ⟨.openBrace, "\x7b", 7, 1⟩ :: (body ++ closing :: [⟨.endOfStream, "", 12, 1⟩])) =
      true := by
    decide +kernel
  simp only [Option.any_eq_true, Bool.and_eq_true, beq_iff_eq] at reached
  obtain ⟨⟨progress, task⟩, course, ⟨rfl, calm⟩, ahead⟩ := reached
  exact ⟨ends, ⟨progress, reaches_of_advance course, calm, ahead⟩, by decide +kernel⟩

end Document

end EffectLang
