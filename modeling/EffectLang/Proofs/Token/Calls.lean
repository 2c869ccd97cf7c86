import EffectLang.Proofs.Token.SideBySide

/-!
Readers under any use. Whatever a reader is asked for, its first complaint stays. From then on nothing that is
required is missing, and nothing is read for it.
-/
namespace EffectLang.Reader

/-- All that a reader can be asked for, except to give its complaint away. -/
inductive Call where
  | next
  | nextIs (kind : Token.Kind)
  | expect (kind : Token.Kind)
  | report (expected : Token.Kind) (found : Token)
  | mark
  | restore (place : Cursor)
  | join (first last : Token)
  | lastLiteral
deriving DecidableEq, Repr

inductive Answer where
  | token (token : Token)
  | decided (holds : Bool)
  | required (result : Except Unexpected Token)
  | place (cursor : Cursor)
  | literal (value : Option Double)
  | nothing
deriving DecidableEq

def perform (reader : Reader) : Call → Answer × Reader
  | .next => (.token reader.next.1, reader.next.2)
  | .nextIs kind => (.decided (reader.nextIs kind).1, (reader.nextIs kind).2)
  | .expect kind => (.required (reader.expect kind).1, (reader.expect kind).2)
  | .report expected found => (.nothing, reader.report expected found)
  | .mark => (.place reader.cursor, reader)
  | .restore place => (.nothing, reader.restore place)
  | .join first last => (.token (reader.join first last), reader)
  | .lastLiteral => (.literal reader.lastLiteral?, reader)

/-- The reader behind some calls, made one after another. -/
def after (reader : Reader) : List Call → Reader
  | [] => reader
  | call :: calls => (reader.perform call).2.after calls

/-- The complaint of a call that fails: a required token is missing, or something is reported. -/
def failure? (reader : Reader) : Call → Option Unexpected
  | .expect kind =>
    match (reader.expect kind).1 with
    | .error complaint => some complaint
    | .ok _ => none
  | .report expected found => some (.of expected found)
  | _ => none

/-- The complaints of all calls that fail, in the order of the calls. -/
def failures (reader : Reader) : List Call → List Unexpected
  | [] => []
  | call :: calls => (reader.failure? call).toList ++ (reader.perform call).2.failures calls

theorem after_append (reader : Reader) (front back : List Call) :
    reader.after (front ++ back) = (reader.after front).after back := by
  induction front generalizing reader with
  | nil => rfl
  | cons call front ih => exact ih _

variable {reader : Reader}

theorem expect_of_complaint (complaint : reader.error.isSome) (kind : Token.Kind) :
    reader.expect kind = (.ok (reader.placeholder kind), reader) :=
  if_pos complaint

/-- A required token is missing only before the first complaint, and then the complaint is about the token that stands
in its place. -/
theorem failure?_expect_eq_some {kind : Token.Kind} {complaint : Unexpected} :
    reader.failure? (.expect kind) = some complaint ↔
      reader.error = none ∧ reader.next.1.kind ≠ kind ∧ complaint = .of kind reader.next.1 := by
  obtain ⟨complained, given⟩ | ⟨calm, met, given⟩ | ⟨calm, unmet, given⟩ := reader.expect_cases kind
  · simp only [failure?, given, Option.isSome_iff_ne_none.mp complained, false_and, reduceCtorEq]
  · simp only [failure?, given, met, ne_eq, not_true_eq_false, false_and, and_false, reduceCtorEq]
  · simp only [failure?, given, calm, unmet, ne_eq, not_false_eq_true, true_and, Option.some.injEq, eq_comm]

/-- Every complaint is about a token: one that a call finds in place of the required one, or one that is reported. -/
theorem exists_found_of_failure? {call : Call} {complaint : Unexpected}
    (fails : reader.failure? call = some complaint) :
    ∃ kind found, complaint = .of kind found ∧
      (call = .expect kind ∧ found = reader.next.1 ∧ found.kind ≠ kind ∨ call = .report kind found) := by
  cases call with
  | expect kind =>
    obtain ⟨-, other, rfl⟩ := failure?_expect_eq_some.mp fails
    exact ⟨kind, reader.next.1, rfl, .inl ⟨rfl, rfl, other⟩⟩
  | report expected found =>
    cases fails
    exact ⟨expected, found, rfl, .inr rfl⟩
  | _ => cases fails

theorem error_expect (reader : Reader) (kind : Token.Kind) :
    (reader.expect kind).2.error = reader.error.or (reader.failure? (.expect kind)) := by
  obtain ⟨complained, given⟩ | ⟨calm, -, given⟩ | ⟨calm, -, given⟩ := reader.expect_cases kind
  · obtain ⟨complaint, kept⟩ := Option.isSome_iff_exists.mp complained
    rw [given, kept]
    rfl
  · simp only [failure?, given, error_next, Option.or_none]
  · simp only [failure?, given, report_eq, error_next, calm, Option.getD_none, Option.none_or]

/-- What one call does to the complaint: it leaves it as it is, and without one it may bring it. -/
theorem error_perform (reader : Reader) (call : Call) :
    (reader.perform call).2.error = reader.error.or (reader.failure? call) := by
  cases call with
  | next => simp only [perform, failure?, error_next, Option.or_none]
  | nextIs kind => simp only [perform, nextIs, failure?, error_next, Option.or_none]
  | expect kind => exact reader.error_expect kind
  | report expected found =>
    simp only [perform, failure?, report_eq]
    cases reader.error <;> rfl
  | _ => simp only [perform, restore, failure?, Option.or_none]

/-- The first complaint wins: the one that a reader has already, or that of the first call that fails. -/
theorem error_after (reader : Reader) (calls : List Call) :
    (reader.after calls).error = reader.error.or (reader.failures calls).head? := by
  induction calls generalizing reader with
  | nil => exact (Option.or_none).symm
  | cons call calls ih =>
    calc ((reader.perform call).2.after calls).error
      _ = (reader.perform call).2.error.or ((reader.perform call).2.failures calls).head? := ih _
      _ = reader.error.or ((reader.failure? call).or ((reader.perform call).2.failures calls).head?) := by
        rw [error_perform, Option.or_assoc]
      _ = reader.error.or (reader.failures (call :: calls)).head? := by
        rw [failures, List.head?_append, Option.head?_toList]

theorem error_after_of_complaint {complaint : Unexpected} (has : reader.error = some complaint) (calls : List Call) :
    (reader.after calls).error = some complaint := by
  rw [error_after, has]
  rfl

end EffectLang.Reader
