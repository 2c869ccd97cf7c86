import EffectLang.Token.Reader

/-!
Blocks of named items: between its braces only the words count, and everything else is passed over.
-/
namespace EffectLang.Document

/-- The next word before the closing brace of a block, or none at the brace. A source that ends first
lacks the brace. -/
def nextWord? (reader : Reader) : Option Token × Reader :=
  let token := reader.next.1
  if token.kind = .endOfStream then (none, reader.next.2.report .closeBrace token)
  else if token.kind = .closeBrace then (none, reader.next.2)
  else if token.kind = .identifier then (some token, reader.next.2)
  else nextWord? reader.next.2
termination_by reader.remaining
decreasing_by exact reader.remaining_next_lt ‹_›

theorem remaining_nextWord?_le (reader : Reader) : (nextWord? reader).2.remaining ≤ reader.remaining := by
  fun_induction nextWord? reader with
  | case1 => simpa using Reader.remaining_next_le _
  | case2 => exact Reader.remaining_next_le _
  | case3 => exact Reader.remaining_next_le _
  | case4 _ _ _ _ _ ih => exact Nat.le_trans ih (Reader.remaining_next_le _)

theorem remaining_nextWord?_lt (reader : Reader) (found : (nextWord? reader).1.isSome) :
    (nextWord? reader).2.remaining < reader.remaining := by
  fun_induction nextWord? reader with
  | case1 => simp at found
  | case2 => simp at found
  | case3 reader _ more => exact reader.remaining_next_lt more
  | case4 reader _ _ _ _ ih => exact Nat.lt_of_lt_of_le (ih found) reader.remaining_next_le

end EffectLang.Document
