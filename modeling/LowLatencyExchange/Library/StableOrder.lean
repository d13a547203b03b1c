import Mathlib.Data.List.Sort
import Mathlib.Data.List.Count
import Mathlib.Tactic

/-!
# Stable arrangements of a list

`Arranges before key sorted original` says that `sorted` holds the elements of `original`
in the order of their keys, and elements with the same key in the order they have there.
Filtering, changing elements without their keys and appending one element at the end of
the original keep an arrangement, and its head is the first of the least elements.
-/
namespace StableOrder

variable {A K : Type*}

section Insert

variable {before : K → K → Prop} [DecidableRel before] [IsStrictTotalOrder K before] {key : A → K}

/-- Ordered insertion goes behind the elements whose key is not after its own, and before the
others. -/
theorem orderedInsert_split {l : List A} (h : l.Pairwise (fun x y => ¬ before (key y) (key x)))
    (a : A) :
    ∃ front back, l = front ++ back ∧
      l.orderedInsert (fun x y => before (key x) (key y)) a = front ++ a :: back ∧
      (∀ x ∈ front, ¬ before (key a) (key x)) ∧ ∀ y ∈ back, before (key a) (key y) := by
  induction l with
  | nil => exact ⟨[], [], rfl, rfl, by simp, by simp⟩
  | cons x l ih =>
    obtain ⟨hx, hl⟩ := List.pairwise_cons.mp h
    by_cases hb : before (key a) (key x)
    · refine ⟨[], x :: l, rfl, by simp [hb], by simp, ?_⟩
      intro y hy
      rcases List.mem_cons.mp hy with rfl | hy
      · exact hb
      · rcases trichotomous (r := before) (key x) (key y) with hxy | hxy | hyx
        · exact IsTrans.trans _ _ _ hb hxy
        · rwa [← hxy]
        · exact absurd hyx (hx y hy)
    · obtain ⟨front, back, hs, hq, hfront, hback⟩ := ih hl
      refine ⟨x :: front, back, by rw [hs, List.cons_append], ?_, ?_, hback⟩
      · rw [List.orderedInsert_cons, if_neg hb, hq, List.cons_append]
      · exact List.forall_mem_cons.mpr ⟨hb, hfront⟩

omit [IsStrictTotalOrder K before] in
theorem orderedInsert_of_split {front back : List A} {a : A}
    (hfront : ∀ x ∈ front, ¬ before (key a) (key x)) (hback : ∀ y ∈ back, before (key a) (key y)) :
    (front ++ back).orderedInsert (fun x y => before (key x) (key y)) a = front ++ a :: back := by
  induction front with
  | nil =>
    cases back with
    | nil => rfl
    | cons y back => simp [hback y List.mem_cons_self]
  | cons x front ih =>
    obtain ⟨hx, hfront⟩ := List.forall_mem_cons.mp hfront
    rw [List.cons_append, List.orderedInsert_cons, if_neg hx, ih hfront, List.cons_append]

/-- Ordered insertion commutes with a filter that keeps the element. -/
theorem orderedInsert_filter {l : List A} (h : l.Pairwise (fun x y => ¬ before (key y) (key x)))
    {p : A → Bool} {a : A} (ha : p a = true) :
    (l.filter p).orderedInsert (fun x y => before (key x) (key y)) a =
      (l.orderedInsert (fun x y => before (key x) (key y)) a).filter p := by
  obtain ⟨front, back, hs, hi, hfront, hback⟩ := orderedInsert_split h a
  have hkept : ∀ x ∈ front.filter p, ¬ before (key a) (key x) :=
    fun x hx => hfront x (List.mem_of_mem_filter hx)
  have hkept' : ∀ y ∈ back.filter p, before (key a) (key y) :=
    fun y hy => hback y (List.mem_of_mem_filter hy)
  have hinsert := orderedInsert_of_split hkept hkept'
  rw [hi, hs, List.filter_append, hinsert, List.filter_append, List.filter_cons_of_pos ha]

end Insert

structure Arranges [DecidableEq K] (before : K → K → Prop) (key : A → K) (sorted original : List A) : Prop where
  pairwise : sorted.Pairwise (fun x y => ¬ before (key y) (key x))
  group : ∀ k, sorted.filter (fun a => key a = k) = original.filter (fun a => key a = k)

namespace Arranges

variable [DecidableEq K] {before : K → K → Prop} {key : A → K} {sorted original : List A}

theorem nil : Arranges before key [] [] := ⟨List.Pairwise.nil, fun _ => rfl⟩

theorem mem_iff (h : Arranges before key sorted original) {a : A} :
    a ∈ sorted ↔ a ∈ original := by
  have hgroup : a ∈ sorted.filter (fun b => key b = key a) ↔
      a ∈ original.filter (fun b => key b = key a) := by rw [h.group]
  simpa using hgroup

theorem perm (h : Arranges before key sorted original) : sorted.Perm original := by
  classical
  refine List.perm_iff_count.mpr fun a => ?_
  have hcount (l : List A) : l.count a = (l.filter (fun b => key b = key a)).count a :=
    (List.count_filter (by simp)).symm
  rw [hcount sorted, h.group, ← hcount]

theorem filter (h : Arranges before key sorted original) (p : A → Bool) :
    Arranges before key (sorted.filter p) (original.filter p) := by
  refine ⟨h.pairwise.sublist List.filter_sublist, fun k => ?_⟩
  rw [List.filter_comm, h.group, List.filter_comm]

theorem map (h : Arranges before key sorted original) {g : A → A} (hg : ∀ a, key (g a) = key a) :
    Arranges before key (sorted.map g) (original.map g) := by
  refine ⟨List.pairwise_map.mpr (by simpa only [hg] using h.pairwise), fun k => ?_⟩
  simp only [List.filter_map, Function.comp_def, hg, h.group]

/-- An element at the end of the original is inserted behind those not after it. -/
theorem insert [DecidableRel before] [IsStrictTotalOrder K before]
    (h : Arranges before key sorted original) (a : A) :
    Arranges before key (sorted.orderedInsert (fun x y => before (key x) (key y)) a)
      (original ++ [a]) := by
  obtain ⟨front, back, hs, hi, hfront, hback⟩ := orderedInsert_split h.pairwise a
  have hsplit := hs ▸ h.pairwise
  rw [hi]
  constructor
  · rw [List.pairwise_append, List.pairwise_cons] at *
    obtain ⟨hf, hb, hfb⟩ := hsplit
    refine ⟨hf, ⟨fun y hy hya => irrefl (r := before) _ (IsTrans.trans _ _ _ hya (hback y hy)), hb⟩,
      fun x hx y hy => ?_⟩
    rcases List.mem_cons.mp hy with rfl | hy
    · exact hfront x hx
    · exact hfb x hx y hy
  · intro k
    rw [List.filter_append original, ← h.group, hs]
    by_cases hk : key a = k
    · have hnone : back.filter (fun b => key b = k) = [] := by
        refine List.filter_eq_nil_iff.mpr fun y hy => ?_
        have hne : key y ≠ k := fun he => irrefl (r := before) k (by
          simpa only [hk, he] using hback y hy)
        simpa using hne
      simp [hk, hnone]
    · simp [hk]

/-- The head of an arrangement is the first of the least elements of the original. -/
theorem head {a : A} [IsStrictTotalOrder K before]
    (h : Arranges before key (a :: sorted) original) :
    ∃ front back, original = front ++ a :: back ∧ (∀ x ∈ front, before (key a) (key x)) ∧
      ∀ y ∈ back, ¬ before (key y) (key a) := by
  have hgroup := (h.group (key a)).symm
  rw [List.filter_cons_of_pos (by simp), List.filter_eq_cons_iff] at hgroup
  obtain ⟨front, back, hs, hfront, _, _⟩ := hgroup
  have hleast : ∀ x ∈ original, ¬ before (key x) (key a) := by
    intro x hx
    rcases List.mem_cons.mp (h.mem_iff.mpr hx) with rfl | hx
    · exact irrefl (r := before) _
    · exact (List.pairwise_cons.mp h.pairwise).1 x hx
  refine ⟨front, back, hs, fun x hx => ?_, fun y hy => hleast y (by simp [hs, hy])⟩
  rcases trichotomous (r := before) (key a) (key x) with hax | hax | hxa
  · exact hax
  · exact absurd (by simpa using hax.symm) (hfront x hx)
  · exact absurd hxa (hleast x (by simp [hs, hx]))

end Arranges

end StableOrder
