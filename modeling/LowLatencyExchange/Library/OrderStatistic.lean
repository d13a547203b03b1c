import Mathlib.Data.List.Sort
import Mathlib.Order.Basic

/-!
# Order statistics of a list

The `k`-th smallest element of a list, and its place among the levels of a
monotone map: more than `k` elements lie at or below a level exactly when the
`k`-th smallest one does.
-/

namespace OrderStatistic

variable {A : Type*} [LinearOrder A]

/-- In an ascending list the elements of a downward closed predicate come first. -/
theorem lt_countP_iff_of_sorted {l : List A} (hl : l.Pairwise (· ≤ ·)) {p : A → Bool}
    (hp : ∀ a b, a ≤ b → p b → p a) {k : Nat} (hk : k < l.length) :
    k < l.countP p ↔ p l[k] := by
  induction l generalizing k with
  | nil => simp at hk
  | cons a l ih =>
    obtain ⟨hhead, htail⟩ := List.pairwise_cons.mp hl
    by_cases ha : p a
    · rw [List.countP_cons_of_pos ha]
      cases k with
      | zero => simp [ha]
      | succ k =>
        have hk' : k < l.length := by simpa using hk
        simpa using ih htail hk'
    · -- nothing above an element outside the predicate is inside it
      have hnone : ∀ b ∈ a :: l, ¬ p b := by
        intro b hb hpb
        rcases List.mem_cons.mp hb with rfl | hb
        · exact ha hpb
        · exact ha (hp a b (hhead b hb) hpb)
      have hzero : (a :: l).countP p = 0 := List.countP_eq_zero.mpr hnone
      have hnot : ¬ p (a :: l)[k] := hnone _ (List.getElem_mem hk)
      simp [hzero, hnot]

/-- The `k`-th smallest element, counted from zero. -/
def kth (l : List A) (k : Nat) (hk : k < l.length) : A :=
  (l.insertionSort (· ≤ ·)).get ⟨k, by simpa [List.length_insertionSort] using hk⟩

theorem kth_mem (l : List A) (k : Nat) (hk : k < l.length) :
    kth l k hk ∈ l :=
  (List.perm_insertionSort _ l).subset (List.get_mem _ _)

/-- More than `k` elements are mapped below `level` exactly when the `k`-th smallest one is. -/
theorem lt_countP_iff {l : List A} {f : A → Nat} (hf : Monotone f) (level k : Nat)
    (hk : k < l.length) :
    k < l.countP (fun a => f a < level) ↔ f (kth l k hk) < level := by
  have hsorted : (l.insertionSort (· ≤ ·)).Pairwise (· ≤ ·) := List.pairwise_insertionSort _ l
  have hcount : l.countP (fun a => f a < level) =
      (l.insertionSort (· ≤ ·)).countP (fun a => f a < level) :=
    ((List.perm_insertionSort _ l).countP_eq _).symm
  have hdown : ∀ a b, a ≤ b → decide (f b < level) → decide (f a < level) := by
    intro a b hab hb
    have hmono := hf hab
    simp only [decide_eq_true_eq] at hb ⊢
    omega
  rw [hcount, lt_countP_iff_of_sorted hsorted hdown]
  · simp [kth]
  · simpa [List.length_insertionSort] using hk

end OrderStatistic
