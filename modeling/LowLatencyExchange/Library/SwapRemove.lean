import Mathlib.Tactic

/-!
# Removal by overwriting with the last element

An element of an unordered vector is removed by moving the last one into its place and
dropping the end. The others stay, in some order.
-/
namespace SwapRemove

variable {A : Type*}

/-- The list without its `i`-th element, whose place is taken by the last one. -/
def swapRemove (l : List A) (i : Nat) : List A :=
  match l.getLast? with
  | none => l
  | some last => (l.set i last).dropLast

theorem length_swapRemove (l : List A) (i : Nat) : (swapRemove l i).length = l.length - 1 := by
  rw [swapRemove]
  cases hlast : l.getLast? with
  | none =>
    rw [List.getLast?_eq_none_iff.mp hlast]
    rfl
  | some last => rw [List.length_dropLast, List.length_set]

theorem cons_set_perm (l : List A) {i : Nat} (hi : i < l.length) (a : A) :
    (l[i] :: l.set i a).Perm (a :: l) := by
  have hset : (l.set i a).Perm (a :: l.eraseIdx i) := by
    rw [List.set_eq_take_append_cons_drop, if_pos hi, List.eraseIdx_eq_take_drop_succ]
    exact List.perm_middle
  calc (l[i] :: l.set i a).Perm (l[i] :: a :: l.eraseIdx i) := hset.cons _
    _ |>.Perm (a :: l[i] :: l.eraseIdx i) := List.Perm.swap ..
    _ |>.Perm (a :: l) := (List.getElem_cons_eraseIdx_perm hi).cons _

theorem cons_swapRemove_perm (l : List A) {i : Nat} (hi : i < l.length) :
    (l[i] :: swapRemove l i).Perm l := by
  have hne : l ≠ [] := by grind
  obtain ⟨init, last, rfl⟩ : ∃ init last, l = init ++ [last] :=
    ⟨l.dropLast, l.getLast hne, (List.dropLast_concat_getLast hne).symm⟩
  have hremove : swapRemove (init ++ [last]) i = ((init ++ [last]).set i last).dropLast := by
    simp [swapRemove]
  rw [hremove]
  by_cases hlt : i < init.length
  · have hget : (init ++ [last])[i] = init[i] := List.getElem_append_left hlt
    rw [hget, List.set_append_left _ _ hlt, List.dropLast_concat]
    exact (cons_set_perm init hlt last).trans (List.perm_append_singleton last init).symm
  · -- the last element overwrites itself
    obtain rfl : i = init.length := by
      simp only [List.length_append, List.length_singleton] at hi
      omega
    have hset : (init ++ [last]).set init.length last = init ++ [last] := by simp
    rw [hset, List.dropLast_concat, List.getElem_concat_length rfl]
    exact (List.perm_append_singleton last init).symm

end SwapRemove
