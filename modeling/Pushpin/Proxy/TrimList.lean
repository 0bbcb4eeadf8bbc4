import Mathlib.Data.List.GetD

/-! # `trimlist`: removing the empty entries of a string list

`trimlist` (src/proxy/app.cpp) walks a `QStringList` with an index `n`. After
`removeAt(n)` it steps back with `--n`, so that the loop's `++n` tests the same
position again. The loop is a total function here: both branches shrink
`count - n`, the measure Lean checks for the recursion.
-/

namespace Pushpin.TrimList
set_option autoImplicit false

/-- The `for` loop of `trimlist`, entered at the test `n < list->count()`. When `list[n]` is
empty it is removed and `--n` cancels the loop's `++n`, so the next test is at `n` again. -/
def trimlistFrom (list : List String) (n : Nat) : List String :=
  if h : n < list.length then
    if (list.get ⟨n, h⟩).isEmpty then
      trimlistFrom (list.eraseIdx n) n
    else
      trimlistFrom list (n + 1)
  else list
termination_by list.length - n
decreasing_by
  all_goals simp_wf
  · rw [List.length_eraseIdx]; simp [h]; omega
  · omega

def trimlist (list : List String) : List String := trimlistFrom list 0

def nonEmpty (s : String) : Bool := !s.isEmpty

theorem trimlistFrom_append (done rest : List String) :
    trimlistFrom (done ++ rest) done.length = done ++ rest.filter nonEmpty := by
  induction rest generalizing done with
  | nil => rw [trimlistFrom]; simp
  | cons r rs ih =>
    have hLen : done.length < (done ++ r :: rs).length := by simp
    have hAt : (done ++ r :: rs).get ⟨done.length, hLen⟩ = r := by
      simp [List.getElem_append_right (Nat.le_refl _)]
    rw [trimlistFrom, dif_pos hLen, hAt]
    by_cases hr : r.isEmpty
    · have hErase : (done ++ r :: rs).eraseIdx done.length = done ++ rs := by
        simp [List.eraseIdx_append_of_length_le]
      rw [if_pos hr, hErase, ih done]
      simp [nonEmpty, hr]
    · have hKeep := ih (done ++ [r])
      simp only [List.append_assoc, List.singleton_append, List.length_append,
        List.length_singleton] at hKeep
      rw [if_neg hr, hKeep]
      simp [nonEmpty, hr]

/-- `trimlist` leaves exactly the non-empty entries of any list, in their original order. -/
theorem trimlist_filters_nonempty (list : List String) : trimlist list = list.filter nonEmpty := by
  simpa using trimlistFrom_append [] list

theorem empty_not_mem_trimlist (list : List String) : "" ∉ trimlist list := by
  rw [trimlist_filters_nonempty, List.mem_filter]
  exact fun h => absurd h.2 (by decide)

end Pushpin.TrimList
