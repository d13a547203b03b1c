import Mathlib.Data.List.Perm.Basic
import Mathlib.Data.List.Nodup
import Mathlib.Tactic

/-!
# Lists whose elements have distinct keys

A list is used as a finite map when a key function is injective on it. Looking a key up,
taking its element out and changing one element are then exact.
-/
namespace UniqueKeys

variable {A K : Type*} [DecidableEq K] {f : A → K} {l : List A}

/-- Lookup by key finds an element exactly when it is in the list. -/
theorem find_eq_some (h : (l.map f).Nodup) {k : K} {x : A} :
    l.find? (fun a => f a = k) = some x ↔ x ∈ l ∧ f x = k := by
  induction l with
  | nil => simp
  | cons y l ih =>
    obtain ⟨hy, hl⟩ := List.nodup_cons.mp h
    by_cases hk : f y = k
    · rw [List.find?_cons_of_pos (by simpa using hk), Option.some.injEq]
      constructor
      · rintro rfl
        exact ⟨List.mem_cons_self, hk⟩
      · rintro ⟨hx, he⟩
        rcases List.mem_cons.mp hx with rfl | hx
        · rfl
        · exact absurd (List.mem_map.mpr ⟨x, hx, he.trans hk.symm⟩) hy
    · rw [List.find?_cons_of_neg (by simpa using hk), ih hl, List.mem_cons]
      constructor
      · exact fun hx => ⟨Or.inr hx.1, hx.2⟩
      · rintro ⟨rfl | hx, he⟩
        · exact absurd he hk
        · exact ⟨hx, he⟩

theorem find_eq_none {k : K} : l.find? (fun a => f a = k) = none ↔ k ∉ l.map f := by
  simp

/-- Filtering a key out takes out exactly its element. -/
theorem perm_cons_filter (h : (l.map f).Nodup) {x : A} (hx : x ∈ l) :
    l.Perm (x :: l.filter (fun a => f a ≠ f x)) := by
  induction l with
  | nil => simp at hx
  | cons y l ih =>
    obtain ⟨hy, hl⟩ := List.nodup_cons.mp h
    rcases List.mem_cons.mp hx with rfl | hx
    · have keep : l.filter (fun a => f a ≠ f x) = l := by
        refine List.filter_eq_self.mpr fun a ha => ?_
        have : f a ≠ f x := fun he => hy (List.mem_map.mpr ⟨a, ha, he⟩)
        simpa using this
      rw [List.filter_cons_of_neg (by simp), keep]
    · have hne : f y ≠ f x := fun he => hy (List.mem_map.mpr ⟨x, hx, he.symm⟩)
      rw [List.filter_cons_of_pos (by simpa using hne)]
      exact ((ih hl hx).cons y).trans (List.Perm.swap _ _ _)

theorem filter_of_notMem {k : K} (h : k ∉ l.map f) : l.filter (fun a => f a ≠ k) = l := by
  refine List.filter_eq_self.mpr fun a ha => ?_
  have : f a ≠ k := fun he => h (List.mem_map.mpr ⟨a, ha, he⟩)
  simpa using this

theorem notMem_filter (k : K) : k ∉ (l.filter (fun a => f a ≠ k)).map f := by
  simp

theorem eraseP_eq_filter (h : (l.map f).Nodup) (k : K) :
    l.eraseP (fun a => f a = k) = l.filter (fun a => f a ≠ k) := by
  induction l with
  | nil => rfl
  | cons y l ih =>
    obtain ⟨hy, hl⟩ := List.nodup_cons.mp h
    by_cases hk : f y = k
    · have hkeep : l.filter (fun a => f a ≠ k) = l := filter_of_notMem (hk ▸ hy)
      rw [List.eraseP_cons_of_pos (by simpa using hk), List.filter_cons_of_neg (by simpa using hk),
        hkeep]
    · rw [List.eraseP_cons_of_neg (by simpa using hk), List.filter_cons_of_pos (by simpa using hk),
        ih hl]

theorem eraseIdx_eq_filter (h : (l.map f).Nodup) {i : Nat} {x : A} (hx : l[i]? = some x) :
    l.eraseIdx i = l.filter (fun a => f a ≠ f x) := by
  induction l generalizing i with
  | nil => simp at hx
  | cons y l ih =>
    obtain ⟨hy, hl⟩ := List.nodup_cons.mp h
    cases i with
    | zero =>
      obtain rfl : y = x := by simpa using hx
      rw [List.eraseIdx_zero, List.tail_cons, List.filter_cons_of_neg (by simp),
        filter_of_notMem hy]
    | succ i =>
      have hx' : l[i]? = some x := by simpa using hx
      have hne : f y ≠ f x := fun he => hy (he ▸ List.mem_map_of_mem (List.mem_of_getElem? hx'))
      rw [List.eraseIdx_cons_succ, List.filter_cons_of_pos (by simpa using hne), ih hl hx']

/-- Writing at the index of an element changes the element with its key. -/
theorem set_eq_map (h : (l.map f).Nodup) {i : Nat} {x : A} (hx : l[i]? = some x) (y : A) :
    l.set i y = l.map (fun a => if f a = f x then y else a) := by
  induction l generalizing i with
  | nil => simp at hx
  | cons z l ih =>
    obtain ⟨hz, hl⟩ := List.nodup_cons.mp h
    cases i with
    | zero =>
      obtain rfl : z = x := by simpa using hx
      have hkeep : l.map (fun a => if f a = f z then y else a) = l := by
        refine (List.map_congr_left fun a ha => ?_).trans (List.map_id l)
        exact if_neg fun he : f a = f z => hz (he ▸ List.mem_map_of_mem ha)
      rw [List.set_cons_zero, List.map_cons, if_pos rfl, hkeep]
    | succ i =>
      have hx' : l[i]? = some x := by simpa using hx
      have hne : f z ≠ f x := fun he => hz (he ▸ List.mem_map_of_mem (List.mem_of_getElem? hx'))
      rw [List.set_cons_succ, List.map_cons, if_neg hne, ih hl hx']

end UniqueKeys
