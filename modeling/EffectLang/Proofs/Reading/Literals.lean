import EffectLang.Proofs.Reading.Calls
import EffectLang.Proofs.Reading.Composition
import EffectLang.Proofs.Token.Numbers

/-!
What a reading leaves in the literal table. A number that is only looked at is read again and its value is kept again,
three times in all at the most. But then it stands where something else is required, so that without a complaint the
table has the value of every number once.
-/
namespace EffectLang

/-- A number is not the name of a range. -/
theorem Reader.ofTypeName_next_ne_range {reader : Reader} (number : reader.next.1.kind = .number) :
    Property.Kind.ofTypeName reader.next.1.text ≠ .range := by
  intro range
  obtain ⟨⟨c, head, digit⟩, -⟩ := isNumber_next number
  unfold Property.Kind.ofTypeName at range
  split at range
  case h_3 spelled =>
    rw [spelled] at head
    cases head
    exact absurd digit (by decide)
  all_goals cases range

namespace Document

open StateTransition

/-- How often the token ahead of a task has been looked at before, at the most. -/
def Task.looks : Task → Nat
  | .property _ (.sign _ _) => 1
  | .property _ .closing => 2
  | .propertyName => 2
  | _ => 0

/-- The tasks at which a number may have been looked at, and is not what is wanted. -/
def Task.rejectsNumber : Task → Bool
  | .property _ (.bounds _) => true
  | .property _ (.sign _ _) => true
  | .property _ .closing => true
  | _ => false

/-- The tasks that ask for the value of a number. -/
def Task.takesLiteral : Task → Bool
  | .property _ (.low _) => true
  | .property _ (.high _ _) => true
  | .property _ (.default _ _) => true
  | _ => false

/-- A task that no overflow leads to. The number that a type name begins with makes no name of a range by itself. -/
def Task.Plain : Task → Prop
  | .property _ (.typeSuffix _ number) => Property.Kind.ofTypeName number.text ≠ .range
  | .done (some (.literalOverflow _)) => False
  | _ => True

theorem Task.looks_le (task : Task) : task.looks ≤ 2 := by
  unfold looks
  split <;> decide

theorem Task.fresh_of_takesLiteral {task : Task} (takes : task.takesLiteral = true) :
    task.looks = 0 ∧ task.rejectsNumber = false := by
  cases task with
  | property name part => cases part <;> cases takes <;> exact ⟨rfl, rfl⟩
  | _ => cases takes

theorem Task.number_of_takesLiteral {task : Task} {kind : Token.Kind} (takes : task.takesLiteral = true)
    (required : task.required? = some kind) : kind = .number := by
  cases task with
  | property name part => cases part <;> cases takes <;> cases required <;> rfl
  | _ => cases takes

theorem lastLiteral?_of_literal {reader : Reader} {token : Token} {error : Error}
    (given : literal reader token = .error error) :
    error = .literalOverflow token.line ∧ reader.lastLiteral? = none := by
  unfold literal at given
  split at given
  · cases given
  · rename_i missing
    cases given
    exact ⟨rfl, missing⟩

theorem plain_of_defaultValue {name : String} {value : Property.Value} {token : Token} {reader : Reader}
    {error : Error} (given : (defaultValue name value token reader).1 = .error error) :
    Task.Plain (.done (some error)) ∨
      error = .literalOverflow token.line ∧ token.kind = .number ∧ reader.lastLiteral? = none := by
  have lacking {wrap : Double → Property.Value} (number : token.kind = .number)
      (given : (literal reader token).map wrap = .error error) :
      error = .literalOverflow token.line ∧ token.kind = .number ∧ reader.lastLiteral? = none := by
    cases found : literal reader token with
    | error reason =>
      obtain ⟨rfl, missing⟩ := lastLiteral?_of_literal found
      rw [found] at given
      cases given
      exact ⟨rfl, number, missing⟩
    | ok value =>
      rw [found] at given
      cases given
  unfold defaultValue at given
  split at given
  case h_5 number => exact .inr (lacking number given)
  case h_6 number => exact .inr (lacking number given)
  case h_7 number => exact .inr (lacking number given)
  case h_10 =>
    cases given
    exact .inl trivial
  all_goals cases given

namespace Moment

/-- The value of the number ahead is asked for, and is not kept when the number is read. -/
structure Lacks (moment : Moment) : Prop where
  number : moment.reader.next.1.kind = .number
  missing : moment.reader.next.2.lastLiteral? = none
  takes : moment.task.takesLiteral = true

section Plain

variable (progress : Progress)

theorem plain_readDeclaration (token : Token) : (readDeclaration token progress).task.Plain := by
  unfold readDeclaration
  split_ifs
  · trivial
  · trivial
  · trivial
  · unfold Task.ofWord
    split <;> trivial
  · trivial

theorem plain_readCode (brace : Token) (braces : Nat) (block : Block) (token : Token) :
    (readCode brace braces block token progress).task.Plain := by
  unfold readCode
  split_ifs <;> trivial

theorem plain_readPass (name : String) (shaders : List Shader) (token : Token) :
    (readPass name shaders token progress).task.Plain := by
  unfold readPass
  split_ifs
  · trivial
  · trivial
  · split <;> trivial
  · trivial

theorem plain_readPropertyName (token : Token) : (readPropertyName token progress).task.Plain := by
  unfold readPropertyName
  split_ifs <;> trivial

theorem plain_typed (name label type : String) : (typed name label type progress).task.Plain := by
  unfold typed
  split <;> trivial

theorem plain_readGroup (name label : String) (value : Property.Value) (depth : Nat) (token : Token) :
    (readGroup name label value depth token progress).task.Plain := by
  unfold readGroup
  split_ifs <;> trivial

theorem plain_missed (task : Task) : (missed task).Plain := by
  unfold missed
  split <;> trivial

theorem plain_readDefault (name label : String) (value : Property.Value) (token : Token) :
    (readDefault name label value token progress).task.Plain ∨
      (readDefault name label value token progress).Overflows ∧ token.kind = .number ∧
        progress.reader.lastLiteral? = none := by
  unfold readDefault
  split
  · exact .inl trivial
  · split
    · exact .inl trivial
    · rename_i failed
      obtain plain | ⟨rfl, lacking⟩ := plain_of_defaultValue failed
      · exact .inl plain
      · exact .inr ⟨⟨token.line, rfl⟩, lacking⟩

theorem plain_number (name label : String) (token : Token) (next : Double → PropertyTask)
    (plain : ∀ value, Task.Plain (.property name (next value))) :
    (number name label token next progress).task.Plain ∨
      (number name label token next progress).Overflows ∧ progress.reader.error = none ∧
        progress.reader.lastLiteral? = none := by
  unfold number
  split
  · exact .inl trivial
  · rename_i calm
    split
    · exact .inl (plain _)
    · rename_i failed
      obtain ⟨rfl, missing⟩ := lastLiteral?_of_literal failed
      exact .inr ⟨⟨token.line, rfl⟩, by simpa [Reader.hasError] using calm, missing⟩

theorem plain_foundInProperty (name : String) (token : Token) {part : PropertyTask}
    (plain : Task.Plain (.property name part)) :
    (foundInProperty name token progress part).task.Plain ∨
      Task.takesLiteral (.property name part) = true ∧ (foundInProperty name token progress part).Overflows ∧
        progress.reader.error = none ∧ progress.reader.lastLiteral? = none := by
  cases part with
  | low label =>
    obtain plain | lacking := plain_number progress name label token (.boundsComma label) fun _ => trivial
    · exact .inl plain
    · exact .inr ⟨rfl, lacking⟩
  | high label low =>
    obtain plain | lacking := plain_number progress name label token (.boundsEnd label low) fun _ => trivial
    · exact .inl plain
    · exact .inr ⟨rfl, lacking⟩
  | typeSuffix label number => exact .inl plain
  | _ => exact .inl trivial

theorem plain_found (token : Token) {task : Task} (plain : task.Plain) :
    (found token progress task).task.Plain ∨
      task.takesLiteral = true ∧ (found token progress task).Overflows ∧ progress.reader.error = none ∧
        progress.reader.lastLiteral? = none := by
  cases task with
  | property name part => exact plain_foundInProperty progress name token plain
  | done error => exact .inl plain
  | _ => exact .inl trivial

theorem plain_readProperty {reader : Reader} (name : String) {part : PropertyTask}
    (plain : Task.Plain (.property name part)) :
    (readProperty reader.cursor name reader.next.1 (progress.moveTo reader.next.2) part).task.Plain ∨
      Task.takesLiteral (.property name part) = true ∧
        (readProperty reader.cursor name reader.next.1 (progress.moveTo reader.next.2) part).Overflows ∧
        reader.next.1.kind = .number ∧ reader.next.2.lastLiteral? = none := by
  cases part with
  | typeName label =>
    simp only [readProperty]
    split
    · rename_i number
      exact .inl (Reader.ofTypeName_next_ne_range number)
    · exact .inl (plain_typed _ _ _ _)
  | typeSuffix label number =>
    simp only [readProperty]
    split <;> exact .inl (plain_typed _ _ _ _)
  | bounds label =>
    simp only [readProperty]
    split <;> exact .inl trivial
  | sign label value =>
    simp only [readProperty]
    split <;> exact .inl trivial
  | default label value =>
    obtain plain | lacking := plain_readDefault (progress.moveTo reader.next.2) name label value reader.next.1
    · exact .inl plain
    · exact .inr ⟨rfl, lacking⟩
  | group label value depth => exact .inl (plain_readGroup _ _ _ _ _ _)
  | _ => exact .inl trivial

theorem plain_read {reader : Reader} {task : Task} (plain : task.Plain) :
    (read reader.cursor reader.next.1 (progress.moveTo reader.next.2) task).task.Plain ∨
      task.takesLiteral = true ∧
        (read reader.cursor reader.next.1 (progress.moveTo reader.next.2) task).Overflows ∧
        reader.next.1.kind = .number ∧ reader.next.2.lastLiteral? = none := by
  cases task with
  | declaration => exact .inl (plain_readDeclaration _ _)
  | chunk brace braces block part =>
    cases part with
    | code => exact .inl (plain_readCode _ _ _ _ _)
    | _ => exact .inl trivial
  | passLine name shaders => exact .inl (plain_readPass _ _ _ _)
  | propertyName => exact .inl (plain_readPropertyName _ _)
  | property name part => exact plain_readProperty progress name plain
  | done error => exact .inl plain
  | _ => exact .inl trivial

end Plain

variable {moment next : Moment}

/-- A step leads to a plain task or to an overflow, and then it lacks the value of the number that it has read. -/
theorem plain_step (plain : moment.task.Plain) (goes : step moment = some next) :
    next.task.Plain ∨ moment.Lacks ∧ next.Overflows := by
  obtain ⟨-, -, rfl⟩ | ⟨kind, required, ⟨token, later, met, rfl⟩ | ⟨error, later, unmet, rfl⟩⟩ := step_cases goes
  · obtain plain | ⟨takes, overflows, number, missing⟩ := plain_read moment.progress plain
    · exact .inl plain
    · exact .inr ⟨⟨number, missing, takes⟩, overflows⟩
  · obtain plain | ⟨takes, overflows, calm, missing⟩ := plain_found (moment.progress.moveTo later) token plain
    · exact .inl plain
    · have number := Task.number_of_takesLiteral takes required
      subst number
      obtain ⟨complaint, given⟩ | ⟨-, number, given⟩ | ⟨-, -, given⟩ := moment.reader.expect_cases .number
      · cases given.symm.trans met
        rw [show moment.reader.error = none from calm] at complaint
        cases complaint
      · cases given.symm.trans met
        exact .inr ⟨⟨number, missing, takes⟩, overflows⟩
      · cases given.symm.trans met
  · exact .inl (plain_missed _)

theorem calm_of_step (goes : step moment = some next) (calm : next.reader.error = none) :
    moment.reader.error = none := by
  by_contra complaint
  have kept := (move_of_step goes).error_isSome (Option.isSome_iff_ne_none.mpr complaint)
  rw [calm] at kept
  cases kept

/-- A number stands where the reading will complain about it. -/
def Misplaced (moment : Moment) : Prop :=
  moment.task.rejectsNumber = true ∧ moment.reader.next.1.kind = .number

/-- What a step does with the token ahead: it takes it, looks at it only, or leaves it alone. -/
inductive Scans (moment next : Moment) : Prop
  | takes (cursor : next.reader.cursor = moment.reader.next.2.cursor)
      (literals : next.reader.literals = moment.reader.next.2.literals)
      (refuses : moment.Misplaced → next.reader.error.isSome)
  | looks (reader : next.reader = moment.reader.next.2.restore moment.reader.cursor)
      (more : moment.task.looks < next.task.looks) (rejects : next.task.rejectsNumber = true)
  | rests (complaint : moment.reader.error.isSome) (reader : next.reader = moment.reader)
      (more : moment.task.looks ≤ next.task.looks)

theorem looks_found (token : Token) (progress : Progress) {task : Task} {kind : Token.Kind}
    (required : task.required? = some kind) : task.looks ≤ (found token progress task).task.looks := by
  cases task with
  | property name part =>
    cases part with
    | closing => exact Nat.le_refl 2
    | sign label value => cases required
    | _ => exact Nat.zero_le _
  | propertyName => cases required
  | _ => exact Nat.zero_le _

theorem kind_of_rejectsNumber {task : Task} {kind : Token.Kind} (required : task.required? = some kind)
    (rejects : task.rejectsNumber = true) : kind = .closeParen := by
  cases task with
  | property name part =>
    cases part with
    | closing =>
      cases required
      rfl
    | bounds label => cases required
    | sign label value => cases required
    | _ => cases rejects
  | _ => cases rejects

theorem scans_of_next (behind : next.reader = moment.reader.next.2) (fitting : ¬moment.Misplaced) :
    moment.Scans next := by
  refine .takes (congrArg Reader.cursor behind) (congrArg Reader.literals behind) ?_
  intro misplaced
  exact absurd misplaced fitting

theorem scans_of_report {kind : Token.Kind} {token : Token}
    (behind : next.reader = moment.reader.next.2.report kind token) : moment.Scans next := by
  refine .takes ?_ ?_ ?_
  · rw [behind, Reader.cursor_report]
  · rw [behind, Reader.report_eq]
  · intro misplaced
    rw [behind]
    exact Reader.error_report _ _ _

theorem scans_required {kind : Token.Kind} (required : moment.task.required? = some kind)
    (goes : step moment = some next) : moment.Scans next := by
  have behind : next.reader = (moment.reader.expect kind).2 := by
    rw [reader_step goes, calls, after_calls_required _ _ required]
  obtain ⟨complaint, given⟩ | ⟨calm, met, given⟩ | ⟨calm, unmet, given⟩ := moment.reader.expect_cases kind
  · have found := step_found moment.progress required given
    rw [given] at behind
    cases found.symm.trans goes
    exact .rests complaint behind (looks_found _ _ required)
  · rw [given] at behind
    apply scans_of_next behind
    rintro ⟨rejects, number⟩
    rw [met, kind_of_rejectsNumber required rejects] at number
    cases number
  · rw [given] at behind
    exact scans_of_report behind

theorem fitting_of_task (accepts : moment.task.rejectsNumber = false) : ¬moment.Misplaced := by
  rintro ⟨rejects, -⟩
  rw [accepts] at rejects
  cases rejects

theorem fitting_of_kind {kind : Token.Kind} (found : moment.reader.next.1.kind = kind) (other : kind ≠ .number) :
    ¬moment.Misplaced := by
  rintro ⟨-, number⟩
  exact other (found.symm.trans number)

theorem scans_of_blockCalls (accepts : moment.task.rejectsNumber = false)
    (behind : next.reader = moment.reader.after moment.reader.blockCalls) : moment.Scans next := by
  rw [Reader.after_blockCalls] at behind
  split at behind
  · exact scans_of_report behind
  · exact scans_of_next behind (fitting_of_task accepts)

section Reads

variable (progress : Progress)

theorem scans_readDeclaration :
    Scans ⟨progress, .declaration⟩
      (readDeclaration progress.reader.next.1 (progress.moveTo progress.reader.next.2)) := by
  have behind := reader_readDeclaration progress
  rw [Task.calls] at behind
  split at behind
  · rename_i ended
    rw [Reader.after_endCalls ended] at behind
    split at behind
    · exact scans_of_next behind (fitting_of_task rfl)
    · exact scans_of_report behind
  · exact scans_of_next behind (fitting_of_task rfl)

theorem scans_readProperty (name : String) {part : PropertyTask} (free : part.required? = none)
    (plain : Task.Plain (.property name part)) :
    Scans ⟨progress, .property name part⟩
      (readProperty progress.reader.cursor name progress.reader.next.1 (progress.moveTo progress.reader.next.2)
        part) := by
  cases part with
  | typeName label => exact scans_of_next (reader_readProperty progress name free) (fitting_of_task rfl)
  | typeSuffix label number =>
    simp only [readProperty]
    split
    · rename_i word
      exact scans_of_next (reader_typed _ _ _ _) (fitting_of_kind word (by decide))
    · -- What is no range goes on with the sign, at which a number is misplaced.
      rw [typed, if_neg plain]
      exact .looks rfl Nat.one_pos rfl
  | bounds label =>
    simp only [readProperty]
    split
    · rename_i opens
      exact scans_of_next rfl (fitting_of_kind opens (by decide))
    · exact .looks rfl Nat.one_pos rfl
  | sign label value =>
    simp only [readProperty]
    split
    · rename_i equals
      exact scans_of_next rfl (fitting_of_kind equals (by decide))
    · exact .looks rfl Nat.one_lt_two rfl
  | default label value => exact scans_of_next (reader_readDefault _ _ _ _ _) (fitting_of_task rfl)
  | group label value depth => exact scans_of_next (reader_readProperty progress name free) (fitting_of_task rfl)
  | _ => cases free

theorem scans_read {task : Task} (running : task.isDone = false) (free : task.required? = none)
    (plain : task.Plain) :
    Scans ⟨progress, task⟩
      (read progress.reader.cursor progress.reader.next.1 (progress.moveTo progress.reader.next.2) task) := by
  cases task with
  | declaration => exact scans_readDeclaration progress
  | chunk brace braces block part =>
    cases part with
    | code => exact scans_of_blockCalls rfl (reader_readCode progress brace braces block)
    | _ => exact scans_of_next rfl (fitting_of_task rfl)
  | passLine name shaders => exact scans_of_blockCalls rfl (reader_readPass progress name shaders)
  | propertyName => exact scans_of_blockCalls rfl (reader_readPropertyName progress)
  | property name part => exact scans_readProperty progress name free plain
  | done error => cases running
  | _ => cases free

end Reads

theorem scans_step (plain : moment.task.Plain) (goes : step moment = some next) : moment.Scans next := by
  obtain ⟨running, free, rfl⟩ | ⟨kind, required, -⟩ := step_cases goes
  · exact scans_read moment.progress running free plain
  · exact scans_required required goes

/-- The account of a reading: `past` are the numbers that it has taken, and what it only looked at is on top. Without a
complaint the table has the values of these numbers, or too many because a number is misplaced. -/
structure Accounts (room : Nat) (past : List Token) (moment : Moment) : Prop where
  room_eq : moment.reader.literals.capacity.room = room
  size_le :
    moment.reader.literals.size ≤
      3 * past.length + if moment.reader.next.1.kind = .number then moment.task.looks else 0
  toList_eq : moment.reader.error = none →
    moment.reader.literals.toList = (past.map Token.value).take room ∨ moment.Misplaced
  plain : moment.task.Plain

namespace Accounts

variable {room : Nat} {past : List Token}

theorem start (source : String) (capacity : LiteralTable.Capacity) :
    Accounts capacity.room [] (start (.start source capacity)) where
  room_eq := rfl
  size_le := Nat.zero_le _
  toList_eq := fun _ => .inl List.take_nil.symm
  plain := trivial

theorem takes (accounts : Accounts room past moment) (literals : next.reader.literals = moment.reader.next.2.literals)
    (refuses : moment.Misplaced → next.reader.error.isSome) (goes : step moment = some next)
    (plain : next.task.Plain) : Accounts room (past ++ [moment.reader.next.1].filter Token.isNumber) next := by
  refine ⟨?_, ?_, ?_, plain⟩
  · rw [(move_of_step goes).capacity, accounts.room_eq]
  · have size := accounts.size_le
    have added := moment.reader.size_next_le
    have few := moment.task.looks_le
    rw [literals, List.length_append]
    by_cases number : moment.reader.next.1.kind = .number
    · -- The number has been looked at twice at the most, and now takes its own place.
      rw [if_pos number] at size
      rw [List.filter_singleton, Token.isNumber_iff.mpr number, cond_true, List.length_singleton] at added ⊢
      omega
    · rw [if_neg number] at size
      rw [Reader.literals_next_of_other number]
      omega
  · intro calm
    rw [literals]
    obtain kept | misplaced := accounts.toList_eq (calm_of_step goes calm)
    · exact .inl (Reader.toList_next_of_take accounts.room_eq kept)
    · have complaint := refuses misplaced
      rw [calm] at complaint
      cases complaint

theorem looks (accounts : Accounts room past moment)
    (reader : next.reader = moment.reader.next.2.restore moment.reader.cursor)
    (more : moment.task.looks < next.task.looks) (rejects : next.task.rejectsNumber = true)
    (goes : step moment = some next) (plain : next.task.Plain) : Accounts room past next := by
  have again : next.reader.next.1.kind = moment.reader.next.1.kind := by
    rw [reader]
    rfl
  have literals : next.reader.literals = moment.reader.next.2.literals := by
    rw [reader]
    rfl
  refine ⟨?_, ?_, ?_, plain⟩
  · rw [(move_of_step goes).capacity, accounts.room_eq]
  · have size := accounts.size_le
    rw [again, literals]
    by_cases number : moment.reader.next.1.kind = .number
    · have added := moment.reader.size_next_le
      have one : ([moment.reader.next.1].filter Token.isNumber).length ≤ 1 := List.length_filter_le _ _
      rw [if_pos number] at size ⊢
      omega
    · rw [if_neg number] at size ⊢
      rwa [Reader.literals_next_of_other number]
  · intro calm
    by_cases number : moment.reader.next.1.kind = .number
    · exact .inr ⟨rejects, again.trans number⟩
    · obtain kept | ⟨-, misplaced⟩ := accounts.toList_eq (calm_of_step goes calm)
      · rw [literals, Reader.literals_next_of_other number]
        exact .inl kept
      · exact absurd misplaced number

theorem rests (accounts : Accounts room past moment) (complaint : moment.reader.error.isSome)
    (reader : next.reader = moment.reader) (more : moment.task.looks ≤ next.task.looks) (plain : next.task.Plain) :
    Accounts room past next := by
  refine ⟨?_, ?_, ?_, plain⟩
  · rw [reader, accounts.room_eq]
  · have size := accounts.size_le
    rw [reader]
    split at size
    · rename_i number
      rw [if_pos number]
      omega
    · rename_i other
      rwa [if_neg other]
  · intro calm
    rw [← reader, calm] at complaint
    cases complaint

/-- A step keeps the account. What it takes goes from the numbers ahead to those that are past. -/
theorem step (accounts : Accounts room past moment) (goes : step moment = some next) (plain : next.task.Plain) :
    ∃ later, later ++ next.reader.numbersLeft = past ++ moment.reader.numbersLeft ∧ Accounts room later next := by
  cases scans_step accounts.plain goes with
  | takes cursor literals refuses =>
    refine ⟨_, ?_, accounts.takes literals refuses goes plain⟩
    rw [List.append_assoc, moment.reader.numbersLeft_eq, Reader.numbersLeft_congr cursor]
  | looks reader more rejects =>
    refine ⟨past, ?_, accounts.looks reader more rejects goes plain⟩
    rw [Reader.numbersLeft_congr (congrArg Reader.cursor reader)]
    rfl
  | rests complaint reader more =>
    refine ⟨past, ?_, accounts.rests complaint reader more plain⟩
    rw [reader]

/-- A number whose value is not kept comes after the table is full or has run out of indices. -/
theorem sure_lt (accounts : Accounts room past moment) (lacks : moment.Lacks) :
    min room noIndex.toNat + 3 ≤ 3 * (past ++ moment.reader.numbersLeft).length ∧
      (moment.reader.error = none → min room noIndex.toNat < (past ++ moment.reader.numbersLeft).length) := by
  obtain ⟨fresh, wanted⟩ := Task.fresh_of_takesLiteral lacks.takes
  have full := Reader.sure_le_of_missing lacks.number lacks.missing
  rw [LiteralTable.Capacity.sure, accounts.room_eq] at full
  have ahead : 0 < moment.reader.numbersLeft.length := by
    rw [moment.reader.numbersLeft_eq, List.filter_singleton, Token.isNumber_iff.mpr lacks.number]
    exact Nat.succ_pos _
  rw [List.length_append]
  constructor
  · have size := accounts.size_le
    rw [fresh, ite_self] at size
    omega
  · intro calm
    obtain kept | ⟨rejects, -⟩ := accounts.toList_eq calm
    · have size := LiteralTable.size_of_take (accounts.room_eq ▸ kept)
      rw [accounts.room_eq, List.length_map] at size
      omega
    · rw [wanted] at rejects
      cases rejects

end Accounts

/-- A reading stands to its numbers, `all` of the source, as its account says, or it has come to want of room. -/
def Tallies (room : Nat) (all : List Token) (moment : Moment) : Prop :=
  (∃ past, past ++ moment.reader.numbersLeft = all ∧ Accounts room past moment) ∨
    moment.Overflows ∧ min room noIndex.toNat + 3 ≤ 3 * all.length ∧
      (moment.reader.error = none → min room noIndex.toNat < all.length)

theorem Tallies.step {room : Nat} {all : List Token} (tallies : Tallies room all moment)
    (goes : step moment = some next) : Tallies room all next := by
  obtain ⟨past, rfl, accounts⟩ | ⟨⟨line, ended⟩, -⟩ := tallies
  · obtain plain | ⟨lacks, overflows⟩ := plain_step accounts.plain goes
    · exact .inl (accounts.step goes plain)
    · obtain ⟨much, calm⟩ := accounts.sure_lt lacks
      exact .inr ⟨overflows, much, fun quiet => calm (calm_of_step goes quiet)⟩
  · simp [Moment.step, ended] at goes

theorem tallies_of_reaches {source : String} {capacity : LiteralTable.Capacity}
    (course : Reaches step (Moment.start (.start source capacity)) moment) :
    Tallies capacity.room (Token.numbersIn source) moment :=
  invariant_of_reaches (fun _ _ tallies goes => tallies.step goes) (.inl ⟨[], rfl, .start source capacity⟩) course

end Moment

/-- The literal table mirrors the source: a reading without a complaint leaves in it the values of the numbers among the
plain tokens, each once and in order, as many of them as fit. -/
theorem literals_of_parse {source : String} {capacity : LiteralTable.Capacity} {effect : Effect}
    (given : parse source capacity = .ok ⟨effect, none⟩) :
    (read (.start source capacity)).2.literals.toList =
      ((Token.numbersIn source).map Token.value).take capacity.room := by
  obtain ⟨progress, course, -, calm⟩ := Moment.exists_settled given
  have result : some (Except.ok progress.effect, progress.reader) = some (read (.start source capacity)) :=
    Moment.result?_of_reaches course rfl
  have none_left : (Moment.mk progress (.done none)).reader.numbersLeft = [] :=
    Reader.numbersLeft_of_end (Reader.kind_next_of_ended (Moment.rest_of_settled course))
  rw [← Option.some.inj result]
  obtain ⟨past, all, accounts⟩ | ⟨⟨line, overflows⟩, -⟩ := Moment.tallies_of_reaches course
  · obtain kept | ⟨rejects, -⟩ := accounts.toList_eq calm
    · rw [none_left, List.append_nil] at all
      rw [all] at kept
      exact kept
    · cases rejects
  · cases overflows

/-- Six numbers for a table with room for four: bounds and a default, the beginning of a type name, and two numbers of a
colour that are passed over. -/
theorem literals_of_parse_cut :
    let source :=
      "properties \x7b a(\"A\", Range(0, 1) = 0.5) t(\"T\", 2D = \"w\") c(\"C\", Color = (7, 8)) \x7d"
    let capacity : LiteralTable.Capacity := ⟨5, 39⟩
    (∃ effect, parse source capacity = .ok ⟨effect, none⟩) ∧
      (read (.start source capacity)).2.literals.toList =
        [⟨0⟩, ⟨0x3ff0000000000000⟩, ⟨0x3fe0000000000000⟩, ⟨0x4000000000000000⟩] := by
  intro source capacity
  have given : ∃ effect, parse source capacity = .ok ⟨effect, none⟩ := by
    refine ⟨((parse source capacity).toOption.getD default).effect, ?_⟩
    decide +kernel
  refine ⟨given, ?_⟩
  obtain ⟨effect, given⟩ := given
  rw [literals_of_parse given]
  decide +kernel

end Document

end EffectLang
