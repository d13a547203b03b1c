import Mathlib.Data.List.Sort
import Mathlib.Order.Basic
import Mathlib.Tactic

/-!
# Ordered maps as sorted association lists

A map whose keys follow a comparator `before` is the list of its entries in key order.
`upsert` is the subscript-and-update of such a map: it default-inserts a missing key.

Maps that hold a sequence per key flatten to one list of key-element pairs (`entries`).
Appending to the sequence of one key is then an ordered insertion behind every element
whose key does not come later (`entries_upsert`), and dropping elements found under one
key only, together with the key once its sequence is empty, is a filter of the flat list
(`entries_modify`, `entries_erase`).
-/
namespace OrderedMap

variable {K V W A : Type*}

/-- Keys strictly increase along the list. -/
def Sorted (before : K → K → Prop) (m : List (K × V)) : Prop :=
  m.Pairwise (fun a b => before a.1 b.1)

section Operations

variable [DecidableEq K]

def find (k : K) : List (K × V) → Option V
  | [] => none
  | (k', v) :: m => if k' = k then some v else find k m

/-- Update the value of a key that is present; other keys are left alone. -/
def modify (k : K) (f : V → V) (m : List (K × V)) : List (K × V) :=
  m.map (fun e => if e.1 = k then (e.1, f e.2) else e)

def erase (k : K) (m : List (K × V)) : List (K × V) := m.filter (fun e => e.1 ≠ k)

/-- `f` applied to the value at `k`, after default-inserting `d` for a missing key. -/
def upsert (before : K → K → Prop) [DecidableRel before] (k : K) (d : V) (f : V → V) :
    List (K × V) → List (K × V)
  | [] => [(k, f d)]
  | (k', v) :: m =>
    if before k k' then (k, f d) :: (k', v) :: m
    else if k' = k then (k', f v) :: m
    else (k', v) :: upsert before k d f m

end Operations

/-- All elements, in key order and in sequence order below one key. -/
def entries (g : V → List A) (m : List (K × V)) : List (K × A) :=
  m.flatMap (fun e => (g e.2).map (Prod.mk e.1))

section Lookup

variable [DecidableEq K] {before : K → K → Prop}

@[simp] theorem find_nil (k : K) : find k ([] : List (K × V)) = none := rfl

@[simp] theorem find_cons (k : K) (e : K × V) (m : List (K × V)) :
    find k (e :: m) = if e.1 = k then some e.2 else find k m := rfl

theorem mem_of_find {k : K} {v : V} {m : List (K × V)} (h : find k m = some v) :
    (k, v) ∈ m := by
  induction m with
  | nil => simp at h
  | cons e m ih =>
    rw [find_cons] at h
    split_ifs at h with hk
    · cases h
      subst hk
      exact List.mem_cons_self
    · exact List.mem_cons_of_mem _ (ih h)

theorem find_eq_none {k : K} {m : List (K × V)} : find k m = none ↔ ∀ e ∈ m, e.1 ≠ k := by
  induction m with
  | nil => simp
  | cons e m ih => by_cases h : e.1 = k <;> simp [h, ih]

theorem find_map (f : K → V → W) (k : K) (m : List (K × V)) :
    find k (m.map (fun e => (e.1, f e.1 e.2))) = (find k m).map (f k) := by
  induction m with
  | nil => rfl
  | cons e m ih =>
    by_cases h : e.1 = k
    · subst h
      simp
    · simp [h, ih]

variable [IsStrictTotalOrder K before]

theorem Sorted.find_of_mem {k : K} {v : V} {m : List (K × V)} (h : Sorted before m)
    (hm : (k, v) ∈ m) : find k m = some v := by
  induction m with
  | nil => simp at hm
  | cons e m ih =>
    obtain ⟨he, hs⟩ := List.pairwise_cons.mp h
    rcases List.mem_cons.mp hm with rfl | hm
    · simp
    · have hne : e.1 ≠ k := by
        rintro rfl
        exact irrefl _ (he (e.1, v) hm)
      simp [hne, ih hs hm]

theorem Sorted.find_iff {k : K} {v : V} {m : List (K × V)} (h : Sorted before m) :
    find k m = some v ↔ (k, v) ∈ m := ⟨mem_of_find, h.find_of_mem⟩

/-- Two sorted maps with the same lookups are the same list. -/
theorem Sorted.ext {m n : List (K × V)} (hm : Sorted before m) (hn : Sorted before n)
    (h : ∀ k, find k m = find k n) : m = n := by
  have : Std.Irrefl fun a b : K × V => before a.1 b.1 := ⟨fun a => irrefl a.1⟩
  have : IsTrans (K × V) fun a b => before a.1 b.1 := ⟨fun _ _ _ => IsTrans.trans _ _ _⟩
  have : Std.Antisymm fun a b : K × V => before a.1 b.1 :=
    ⟨fun a b hab hba => absurd (IsTrans.trans _ _ _ hab hba) (irrefl a.1)⟩
  apply List.Pairwise.eq_of_mem_iff hm hn
  rintro ⟨k, v⟩
  rw [← hm.find_iff, ← hn.find_iff, h]

end Lookup

section Upsert

variable [DecidableEq K] {before : K → K → Prop} [DecidableRel before]

theorem mem_upsert {k : K} {d : V} {f : V → V} {e : K × V} {m : List (K × V)}
    (h : e ∈ upsert before k d f m) :
    e ∈ m ∨ e.1 = k ∧ (e.2 = f d ∨ ∃ v, (k, v) ∈ m ∧ e.2 = f v) := by
  induction m with
  | nil =>
    obtain rfl := List.mem_singleton.mp h
    simp
  | cons x m ih =>
    simp only [upsert] at h
    split_ifs at h with hb hk
    · rcases List.mem_cons.mp h with rfl | h
      · simp
      · exact Or.inl h
    · rcases List.mem_cons.mp h with rfl | h
      · exact Or.inr ⟨hk, Or.inr ⟨x.2, by simp [← hk]⟩⟩
      · exact Or.inl (List.mem_cons_of_mem _ h)
    · rcases List.mem_cons.mp h with rfl | h
      · exact Or.inl List.mem_cons_self
      · rcases ih h with h | ⟨he, hv | ⟨v, hv, hf⟩⟩
        · exact Or.inl (List.mem_cons_of_mem _ h)
        · exact Or.inr ⟨he, Or.inl hv⟩
        · exact Or.inr ⟨he, Or.inr ⟨v, List.mem_cons_of_mem _ hv, hf⟩⟩

variable [IsStrictTotalOrder K before]

theorem Sorted.upsert {m : List (K × V)} (h : Sorted before m) (k : K) (d : V) (f : V → V) :
    Sorted before (upsert before k d f m) := by
  induction m with
  | nil => simp [Sorted, OrderedMap.upsert]
  | cons x m ih =>
    obtain ⟨hx, hs⟩ := List.pairwise_cons.mp h
    simp only [OrderedMap.upsert]
    split_ifs with hb hk
    · refine List.pairwise_cons.mpr ⟨?_, h⟩
      intro e he
      rcases List.mem_cons.mp he with rfl | he
      · exact hb
      · exact IsTrans.trans _ _ _ hb (hx e he)
    · exact List.pairwise_cons.mpr ⟨hx, hs⟩
    · refine List.pairwise_cons.mpr ⟨?_, ih hs⟩
      intro e he
      rcases mem_upsert he with he | ⟨rfl, _⟩
      · exact hx e he
      · rcases trichotomous (r := before) x.1 e.1 with hlt | heq | hgt
        · exact hlt
        · exact absurd heq hk
        · exact absurd hgt hb

theorem Sorted.find_upsert {m : List (K × V)} (h : Sorted before m) (k k' : K) (d : V)
    (f : V → V) :
    find k' (OrderedMap.upsert before k d f m) =
      if k' = k then some (f ((find k m).getD d)) else find k' m := by
  induction m with
  | nil =>
    by_cases hk : k' = k
    · simp [OrderedMap.upsert, hk]
    · simp [OrderedMap.upsert, hk, Ne.symm hk]
  | cons x m ih =>
    obtain ⟨hx, hs⟩ := List.pairwise_cons.mp h
    by_cases heq : k' = k
    · subst heq
      rw [if_pos rfl] at ih ⊢
      simp only [OrderedMap.upsert]
      split_ifs with hb hk
      · have absent : find k' (x :: m) = none := by
          refine find_eq_none.mpr fun e he => ?_
          rintro rfl
          rcases List.mem_cons.mp he with rfl | he
          · exact irrefl _ hb
          · exact irrefl _ (IsTrans.trans _ _ _ hb (hx e he))
        rw [absent]
        simp
      · simp [hk]
      · simp [hk, ih hs]
    · rw [if_neg heq] at ih ⊢
      simp only [OrderedMap.upsert]
      split_ifs with hb hk
      · rw [find_cons, if_neg (Ne.symm heq)]
      · subst hk
        simp [Ne.symm heq]
      · simp [ih hs]

end Upsert

section Entries

variable {g : V → List A} {before : K → K → Prop}

@[simp] theorem entries_nil : entries g ([] : List (K × V)) = [] := rfl

@[simp] theorem entries_cons (e : K × V) (m : List (K × V)) :
    entries g (e :: m) = (g e.2).map (Prod.mk e.1) ++ entries g m := rfl

theorem mem_entries {x : K × A} {m : List (K × V)} :
    x ∈ entries g m ↔ ∃ v, (x.1, v) ∈ m ∧ x.2 ∈ g v := by
  obtain ⟨k, a⟩ := x
  simp only [entries, List.mem_flatMap, List.mem_map, Prod.mk.injEq, Prod.exists]
  constructor
  · rintro ⟨k', v, hm, a', ha, rfl, rfl⟩
    exact ⟨v, hm, ha⟩
  · rintro ⟨v, hm, ha⟩
    exact ⟨k, v, hm, a, ha, rfl, rfl⟩

/-- Along the flat list no key comes before an earlier one. -/
theorem Sorted.entries_pairwise [IsStrictTotalOrder K before] {m : List (K × V)}
    (h : Sorted before m) : (entries g m).Pairwise (fun x y => ¬ before y.1 x.1) := by
  induction m with
  | nil => exact List.Pairwise.nil
  | cons e m ih =>
    obtain ⟨he, hs⟩ := List.pairwise_cons.mp h
    rw [entries_cons, List.pairwise_append]
    refine ⟨?_, ih hs, ?_⟩
    · rw [List.pairwise_map]
      exact List.pairwise_of_forall fun _ _ => irrefl _
    · intro x hx y hy hyx
      obtain ⟨a, _, rfl⟩ := List.mem_map.mp hx
      obtain ⟨v, hv, _⟩ := mem_entries.mp hy
      exact irrefl _ (IsTrans.trans _ _ _ (he _ hv) hyx)

/-- Appending to the sequence at `k` inserts behind every element not after `k`. -/
theorem Sorted.entries_upsert [DecidableEq K] [DecidableRel before]
    [IsStrictTotalOrder K before] {m : List (K × V)} (h : Sorted before m) (k : K) (d : V)
    (f : V → V) (a : A) (hd : g d = []) (hf : ∀ v, g (f v) = g v ++ [a]) :
    entries g (OrderedMap.upsert before k d f m) =
      (entries g m).orderedInsert (fun x y => before x.1 y.1) (k, a) := by
  induction m with
  | nil => simp [OrderedMap.upsert, hf, hd]
  | cons e m ih =>
    obtain ⟨he, hs⟩ := List.pairwise_cons.mp h
    -- Skipping a block of elements whose key does not come after `k`.
    have skip : ¬ before k e.1 → ∀ xs : List A, ∀ ys : List (K × A),
        (xs.map (Prod.mk e.1) ++ ys).orderedInsert (fun x y => before x.1 y.1) (k, a) =
          xs.map (Prod.mk e.1) ++ ys.orderedInsert (fun x y => before x.1 y.1) (k, a) := by
      intro hb xs ys
      induction xs with
      | nil => rfl
      | cons x xs ihx => simp [hb, ihx]
    -- Everything in a block whose keys all come after `k` stays behind the new element.
    have front : ∀ ys : List (K × A), (∀ y ∈ ys, before k y.1) →
        ys.orderedInsert (fun x y => before x.1 y.1) (k, a) = (k, a) :: ys := by
      intro ys hys
      cases ys with
      | nil => rfl
      | cons y ys => simp [hys y List.mem_cons_self]
    have later : ∀ y ∈ entries g m, before e.1 y.1 := by
      intro y hy
      obtain ⟨v, hv, _⟩ := mem_entries.mp hy
      exact he _ hv
    simp only [OrderedMap.upsert]
    split_ifs with hb hk
    · rw [front (entries g (e :: m))]
      · simp [hf, hd]
      · intro y hy
        rw [entries_cons] at hy
        rcases List.mem_append.mp hy with hy | hy
        · obtain ⟨x, _, rfl⟩ := List.mem_map.mp hy
          exact hb
        · exact IsTrans.trans _ _ _ hb (later y hy)
    · subst hk
      rw [entries_cons, entries_cons, skip hb, front _ later]
      simp [hf]
    · rw [entries_cons, entries_cons, skip hb, ih hs]

/-- Filtering the flat list filters every sequence. -/
theorem filter_entries (P : K × A → Bool) (m : List (K × V)) :
    (entries g m).filter P =
      m.flatMap (fun e => ((g e.2).filter (fun a => P (e.1, a))).map (Prod.mk e.1)) := by
  induction m with
  | nil => rfl
  | cons e m ih => simp [ih, List.filter_map, Function.comp_def]

variable [DecidableEq K]

/-- The elements under one key. -/
theorem Sorted.filter_key [IsStrictTotalOrder K before] {m : List (K × V)} (h : Sorted before m)
    (k : K) : (entries g m).filter (fun x => x.1 = k) = ((find k m).elim [] g).map (Prod.mk k) := by
  induction m with
  | nil => rfl
  | cons e m ih =>
    obtain ⟨he, hs⟩ := List.pairwise_cons.mp h
    rw [entries_cons, List.filter_append, List.filter_map, ih hs, find_cons]
    by_cases hk : e.1 = k
    · have absent : find k m = none := by
        refine find_eq_none.mpr fun x hx hxk => ?_
        have := he x hx
        rw [hk, hxk] at this
        exact irrefl _ this
      simp [hk, absent, Function.comp_def]
    · simp [hk, Function.comp_def]

/-- Narrowing the sequence of one key, when the others lose nothing. -/
theorem entries_modify (P : K × A → Bool) (k : K) (f : V → V) (m : List (K × V))
    (hk : ∀ v, (k, v) ∈ m → g (f v) = (g v).filter (fun a => P (k, a)))
    (ho : ∀ e ∈ m, e.1 ≠ k → ∀ a ∈ g e.2, P (e.1, a)) :
    entries g (modify k f m) = (entries g m).filter P := by
  rw [filter_entries, entries, modify, List.flatMap_map]
  refine List.flatMap_congr fun e he => ?_
  obtain ⟨k', v⟩ := e
  by_cases h : k' = k
  · subst h
    simp [hk v he]
  · simp only [h, if_false]
    rw [List.filter_eq_self.mpr (ho (k', v) he h)]

/-- Erasing a key whose sequence is filtered away completely. -/
theorem entries_erase (P : K × A → Bool) (k : K) (m : List (K × V))
    (hk : ∀ v, (k, v) ∈ m → (g v).filter (fun a => P (k, a)) = [])
    (ho : ∀ e ∈ m, e.1 ≠ k → ∀ a ∈ g e.2, P (e.1, a)) :
    entries g (erase k m) = (entries g m).filter P := by
  induction m with
  | nil => rfl
  | cons e m ih =>
    have ih := ih (fun v hv => hk v (List.mem_cons_of_mem _ hv))
      (fun x hx => ho x (List.mem_cons_of_mem _ hx))
    obtain ⟨k', v⟩ := e
    by_cases h : k' = k
    · subst h
      have hv := hk v List.mem_cons_self
      rw [entries_cons, List.filter_append, List.filter_map, ← ih]
      simp [erase, Function.comp_def, hv]
    · have hv := ho (k', v) List.mem_cons_self h
      rw [entries_cons, List.filter_append, List.filter_map, ← ih]
      rw [Function.comp_def, List.filter_eq_self.mpr hv]
      simp [erase, h]

theorem Sorted.erase {m : List (K × V)} (h : Sorted before m) (k : K) :
    Sorted before (erase k m) := h.sublist List.filter_sublist

theorem Sorted.modify {m : List (K × V)} (h : Sorted before m) (k : K) (f : V → V) :
    Sorted before (modify k f m) := by
  refine List.pairwise_map.mpr (h.imp ?_)
  intro a b hab
  split_ifs <;> exact hab

/-- Subscripting a key that is present changes its value and nothing else. -/
theorem Sorted.upsert_eq_modify [DecidableRel before] [IsStrictTotalOrder K before]
    {m : List (K × V)} (h : Sorted before m) {k : K} (hk : ∃ v, (k, v) ∈ m) (d : V) (f : V → V) :
    OrderedMap.upsert before k d f m = OrderedMap.modify k f m := by
  refine (h.upsert k d f).ext (h.modify k f) fun k' => ?_
  have hfind : OrderedMap.modify k f m =
      m.map (fun e => (e.1, if e.1 = k then f e.2 else e.2)) := by
    refine List.map_congr_left fun e _ => ?_
    split_ifs <;> rfl
  obtain ⟨v, hv⟩ := hk
  rw [h.find_upsert, hfind, find_map (fun k' v => if k' = k then f v else v)]
  split_ifs with he
  · rw [he, h.find_of_mem hv]
    rfl
  · cases find k' m <;> rfl

theorem mem_modify {k : K} {f : V → V} {e : K × V} {m : List (K × V)}
    (h : e ∈ modify k f m) :
    e ∈ m ∧ e.1 ≠ k ∨ e.1 = k ∧ ∃ v, (k, v) ∈ m ∧ e.2 = f v := by
  obtain ⟨x, hx, rfl⟩ := List.mem_map.mp h
  by_cases hk : x.1 = k
  · subst hk
    right
    exact ⟨by simp, x.2, hx, by simp⟩
  · left
    simp [hk, hx]

end Entries

section Keys

variable {K L V : Type*} [DecidableEq K] [DecidableEq L] {before : K → K → Prop}
  [DecidableRel before] {before' : L → L → Prop} [DecidableRel before']

/-- A translation of the keys that keeps their order commutes with an insertion. -/
theorem upsert_map_keys {g : K → L} (hg : Function.Injective g)
    (hbefore : ∀ a b, before' (g a) (g b) ↔ before a b) (k : K) (d : V) (f : V → V)
    (m : List (K × V)) :
    upsert before' (g k) d f (m.map (Prod.map g id)) =
      (upsert before k d f m).map (Prod.map g id) := by
  induction m with
  | nil => rfl
  | cons e m ih =>
    obtain ⟨k', v⟩ := e
    simp only [List.map_cons, Prod.map_apply, id_eq, upsert, hbefore, hg.eq_iff, ih]
    split_ifs <;> rfl

end Keys

end OrderedMap
