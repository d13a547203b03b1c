import Mathlib.Data.List.Basic
import Mathlib.Algebra.BigOperators.Group.List.Basic
import Mathlib.Tactic

/-!
# Greedy consumption of a list of lots

`fill` takes up to `q` units from the front of a list of lots and stops at the first lot
that is not eligible. Lots are taken whole (`gone`) except for at most one that is cut
(`part`); `left` is the list afterwards and `rest` the units that found no lot.

The parameters say how many units a lot has and what remains of it when some are cut off.
-/
namespace GreedyFill

variable {A B : Type*}

structure Outcome (A : Type*) where
  gone : List A
  part : Option (A × Nat)
  left : List A
  rest : Nat

def fill (eligible : A → Bool) (units : A → Nat) (cut : A → Nat → A) : List A → Nat → Outcome A
  | [], q => ⟨[], none, [], q⟩
  | a :: as, q =>
    if 0 < q ∧ eligible a then
      if units a ≤ q then
        let o := fill eligible units cut as (q - units a)
        { o with gone := a :: o.gone }
      else ⟨[], some (a, q), cut a q :: as, 0⟩
    else ⟨[], none, a :: as, q⟩

/-- The lots touched, in order, each with the units taken from it. -/
def Outcome.fills (units : A → Nat) (o : Outcome A) : List (A × Nat) :=
  o.gone.map (fun a => (a, units a)) ++ o.part.toList

def total (units : A → Nat) (as : List A) : Nat := (as.map units).sum

@[simp] theorem total_nil (units : A → Nat) : total units [] = 0 := rfl
@[simp] theorem total_cons (units : A → Nat) (a : A) (as : List A) :
    total units (a :: as) = units a + total units as := by simp [total]
@[simp] theorem total_append (units : A → Nat) (as bs : List A) :
    total units (as ++ bs) = total units as + total units bs := by simp [total]

variable {eligible : A → Bool} {units : A → Nat} {cut : A → Nat → A}

@[simp] theorem fill_nil (q : Nat) : fill eligible units cut [] q = ⟨[], none, [], q⟩ := rfl

@[simp] theorem fill_zero (as : List A) : fill eligible units cut as 0 = ⟨[], none, as, 0⟩ := by
  cases as <;> simp [fill]

theorem fill_cons_of_not_eligible {a : A} (h : eligible a = false) (as : List A) (q : Nat) :
    fill eligible units cut (a :: as) q = ⟨[], none, a :: as, q⟩ := by
  simp [fill, h]

theorem fill_cons_full {a : A} {q : Nat} (hq : 0 < q) (he : eligible a) (hu : units a ≤ q)
    (as : List A) :
    fill eligible units cut (a :: as) q =
      { fill eligible units cut as (q - units a) with
        gone := a :: (fill eligible units cut as (q - units a)).gone } := by
  simp [fill, hq, he, hu]

theorem fill_cons_cut {a : A} {q : Nat} (hq : 0 < q) (he : eligible a) (hu : q < units a)
    (as : List A) :
    fill eligible units cut (a :: as) q = ⟨[], some (a, q), cut a q :: as, 0⟩ := by
  simp [fill, hq, he, Nat.not_le.mpr hu]

section Laws

variable (eligible : A → Bool) (units : A → Nat) (cut : A → Nat → A)

/-- How the list splits: the lots gone, then the list left, whose head may be cut. -/
theorem fill_split (as : List A) (q : Nat) :
    (∃ tail, (fill eligible units cut as q).part = none ∧
      as = (fill eligible units cut as q).gone ++ tail ∧
      (fill eligible units cut as q).left = tail) ∨
    (∃ a n tail, (fill eligible units cut as q).part = some (a, n) ∧
      as = (fill eligible units cut as q).gone ++ a :: tail ∧
      (fill eligible units cut as q).left = cut a n :: tail ∧
      (fill eligible units cut as q).rest = 0 ∧ 0 < n ∧ n < units a ∧ eligible a) := by
  induction as generalizing q with
  | nil => simp
  | cons a as ih =>
    by_cases hq : 0 < q ∧ eligible a
    · by_cases hu : units a ≤ q
      · simp only [fill, if_pos hq, if_pos hu, List.cons_append, List.cons.injEq, true_and]
        exact ih (q - units a)
      · right
        refine ⟨a, q, as, ?_⟩
        simp only [fill, if_pos hq, if_neg hu, List.nil_append, true_and]
        exact ⟨hq.1, by omega, hq.2⟩
    · simp [fill, hq]

/-- The lots touched are the first ones of the list. -/
theorem fill_touched (as : List A) (q : Nat) :
    ((fill eligible units cut as q).fills units).map Prod.fst <+: as := by
  rcases fill_split eligible units cut as q with ⟨tail, hp, hs, _⟩ | ⟨a, n, tail, hp, hs, _⟩
  · refine ⟨tail, ?_⟩
    rw [Outcome.fills, hp]
    simpa [Function.comp_def] using hs.symm
  · refine ⟨tail, ?_⟩
    rw [Outcome.fills, hp]
    simpa [Function.comp_def] using hs.symm

/-- Only eligible lots are touched. -/
theorem fill_eligible (as : List A) (q : Nat) :
    ∀ x ∈ (fill eligible units cut as q).fills units, eligible x.1 := by
  induction as generalizing q with
  | nil => simp [Outcome.fills]
  | cons a as ih =>
    by_cases hq : 0 < q ∧ eligible a
    · by_cases hu : units a ≤ q
      · rw [fill_cons_full hq.1 hq.2 hu]
        intro x hx
        rcases List.mem_cons.mp hx with rfl | hx
        · exact hq.2
        · exact ih (q - units a) x hx
      · rw [fill_cons_cut hq.1 hq.2 (by omega)]
        simp [Outcome.fills, hq.2]
    · simp [fill, hq, Outcome.fills]

/-- The lots touched are the first eligible ones. -/
theorem fill_touched_eligible (as : List A) (q : Nat) :
    ((fill eligible units cut as q).fills units).map Prod.fst =
      (as.filter eligible).take ((fill eligible units cut as q).fills units).length := by
  obtain ⟨tail, htail⟩ := fill_touched eligible units cut as q
  have hkeep : (((fill eligible units cut as q).fills units).map Prod.fst).filter eligible =
      ((fill eligible units cut as q).fills units).map Prod.fst := by
    refine List.filter_eq_self.mpr fun a ha => ?_
    obtain ⟨x, hx, rfl⟩ := List.mem_map.mp ha
    exact fill_eligible eligible units cut as q x hx
  have hfilter : as.filter eligible =
      ((fill eligible units cut as q).fills units).map Prod.fst ++ tail.filter eligible := by
    rw [← hkeep, ← List.filter_append, htail]
  rw [hfilter, List.take_left' (List.length_map _)]

/-- What is left is what follows the lots touched, behind the rest of a lot that was cut. -/
theorem fill_left (as : List A) (q : Nat) :
    (((fill eligible units cut as q).fills units).map Prod.snd =
        (((fill eligible units cut as q).fills units).map Prod.fst).map units ∧
      (fill eligible units cut as q).left =
        as.drop ((fill eligible units cut as q).fills units).length) ∨
    (∃ whole a n, ((fill eligible units cut as q).fills units).map Prod.fst = whole ++ [a] ∧
      ((fill eligible units cut as q).fills units).map Prod.snd = whole.map units ++ [n] ∧
      0 < n ∧ n < units a ∧
      (fill eligible units cut as q).left =
        cut a n :: as.drop ((fill eligible units cut as q).fills units).length) := by
  rcases fill_split eligible units cut as q with
    ⟨tail, hp, hs, hl⟩ | ⟨a, n, tail, hp, hs, hl, -, hpos, hlt, -⟩
  · left
    have hlength : ((fill eligible units cut as q).fills units).length =
        (fill eligible units cut as q).gone.length := by
      simp [Outcome.fills, hp]
    refine ⟨by simp [Outcome.fills, hp, Function.comp_def], ?_⟩
    rw [hl, hlength]
    exact ((congrArg (List.drop _) hs).trans List.drop_left).symm
  · right
    have hlength : ((fill eligible units cut as q).fills units).length =
        (fill eligible units cut as q).gone.length + 1 := by
      simp [Outcome.fills, hp]
    refine ⟨(fill eligible units cut as q).gone, a, n, ?_, ?_, hpos, hlt, ?_⟩
    · simp [Outcome.fills, hp, Function.comp_def]
    · simp [Outcome.fills, hp, Function.comp_def]
    · rw [hl, hlength]
      have hdrop : as.drop ((fill eligible units cut as q).gone.length + 1) = tail := by
        rw [← List.drop_drop]
        exact congrArg (List.drop 1) ((congrArg (List.drop _) hs).trans List.drop_left)
      rw [hdrop]

/-- Units taken and units left over make up the request. -/
theorem fill_sum (as : List A) (q : Nat) :
    (((fill eligible units cut as q).fills units).map Prod.snd).sum +
      (fill eligible units cut as q).rest = q := by
  induction as generalizing q with
  | nil => simp [Outcome.fills]
  | cons a as ih =>
    by_cases hq : 0 < q ∧ eligible a
    · by_cases hu : units a ≤ q
      · have := ih (q - units a)
        simp only [fill, if_pos hq, if_pos hu, Outcome.fills, List.map_append, List.map_map,
          List.map_cons, List.sum_append, List.sum_cons] at this ⊢
        omega
      · simp [fill, hq, hu, Outcome.fills]
    · simp [fill, hq, Outcome.fills]

/-- When the eligible lots come first, they are used up before any unit is left over. -/
theorem fill_rest_eq {as : List A} (h : as.Pairwise (fun a b => eligible b → eligible a)) (q : Nat) :
    (fill eligible units cut as q).rest = q - total units (as.filter eligible) := by
  induction as generalizing q with
  | nil => simp
  | cons a as ih =>
    obtain ⟨ha, has⟩ := List.pairwise_cons.mp h
    by_cases he : eligible a
    · rcases Nat.eq_zero_or_pos q with rfl | hq
      · simp
      rcases Nat.lt_or_ge q (units a) with hu | hu
      · rw [fill_cons_cut hq he hu, List.filter_cons_of_pos he, total_cons]
        dsimp only
        omega
      · rw [fill_cons_full hq he hu, List.filter_cons_of_pos he, total_cons]
        have := ih has (q - units a)
        dsimp only
        omega
    · have hnone : as.filter eligible = [] :=
        List.filter_eq_nil_iff.mpr fun b hb heb => he (ha b hb heb)
      rw [fill_cons_of_not_eligible (by simpa using he), List.filter_cons_of_neg he, hnone]
      simp

/-- Units are conserved, for any kind of lot that cutting respects: what a fill takes from
lots of the kind is what they hold less afterwards. -/
theorem fill_conserves {kind : A → Bool} (hk : ∀ a n, kind (cut a n) = kind a)
    (hu : ∀ a n, n < units a → units (cut a n) = units a - n) (as : List A) (q : Nat) :
    total units (as.filter kind) =
      total units ((fill eligible units cut as q).left.filter kind) +
        ((((fill eligible units cut as q).fills units).filter (fun x => kind x.1)).map
          Prod.snd).sum := by
  induction as generalizing q with
  | nil => simp [Outcome.fills]
  | cons a as ih =>
    by_cases hq : 0 < q ∧ eligible a
    · rcases Nat.lt_or_ge q (units a) with hlt | hge
      · rw [fill_cons_cut hq.1 hq.2 hlt]
        have hcut := hu a q hlt
        simp only [Outcome.fills, List.map_nil, List.nil_append, Option.toList_some,
          List.filter_cons, hk, List.filter_nil]
        split_ifs
        · simp only [total_cons, List.map_cons, List.map_nil, List.sum_cons, List.sum_nil]
          omega
        · simp
      · rw [fill_cons_full hq.1 hq.2 hge]
        have hrest := ih (q - units a)
        simp only [Outcome.fills, List.map_cons, List.cons_append, List.filter_cons] at hrest ⊢
        split_ifs
        · simp only [total_cons, List.map_cons, List.sum_cons]
          omega
        · exact hrest
    · simp [fill, hq, Outcome.fills]

/-- Units left over mean that the list left starts with no eligible lot. -/
theorem fill_head_of_rest_pos (as : List A) (q : Nat)
    (h : 0 < (fill eligible units cut as q).rest) :
    ∀ a ∈ (fill eligible units cut as q).left.head?, eligible a = false := by
  induction as generalizing q with
  | nil => simp
  | cons a as ih =>
    by_cases hq : 0 < q ∧ eligible a
    · by_cases hu : units a ≤ q
      · simp only [fill, if_pos hq, if_pos hu] at h ⊢
        exact ih _ h
      · simp [fill, hq, hu] at h
    · simp only [fill, if_neg hq] at h ⊢
      intro b hb
      cases hb
      simpa [h] using hq

/-- Units left over mean that nothing eligible is left, when the eligible lots come first. -/
theorem fill_left_of_rest_pos {as : List A} (h : as.Pairwise (fun a b => eligible b → eligible a))
    (q : Nat) (hrest : 0 < (fill eligible units cut as q).rest) :
    ∀ a ∈ (fill eligible units cut as q).left, eligible a = false := by
  have hhead := fill_head_of_rest_pos eligible units cut as q hrest
  rcases fill_split eligible units cut as q with
    ⟨tail, -, hs, hl⟩ | ⟨a, n, tail, -, -, -, hzero, -⟩
  · have htail : tail.Pairwise (fun a b => eligible b → eligible a) := by
      rw [hs] at h
      exact h.sublist (List.sublist_append_right _ _)
    rw [hl] at hhead ⊢
    cases tail with
    | nil => simp
    | cons b tail =>
      have hb : eligible b = false := hhead b rfl
      intro a ha
      rcases List.mem_cons.mp ha with rfl | ha
      · exact hb
      · refine Bool.eq_false_iff.mpr fun he => ?_
        exact Bool.false_ne_true (hb ▸ (List.pairwise_cons.mp htail).1 a ha he)
  · omega

theorem fill_of_none_eligible {as : List A} (h : ∀ a ∈ as, eligible a = false) (q : Nat) :
    fill eligible units cut as q = ⟨[], none, as, q⟩ := by
  cases as with
  | nil => rfl
  | cons a as => exact fill_cons_of_not_eligible (h a List.mem_cons_self) as q

/-- Lots that a fill does not touch can be taken out before it, when no lot is eligible behind
one that is not. -/
theorem fill_filter (p : A → Bool) (hcut : ∀ a n, p (cut a n) = p a) {as : List A}
    (hmono : as.Pairwise (fun x y => eligible y → eligible x)) (q : Nat)
    (hkept : ∀ x ∈ (fill eligible units cut as q).fills units, p x.1 = true) :
    fill eligible units cut (as.filter p) q =
      { fill eligible units cut as q with
        left := (fill eligible units cut as q).left.filter p } := by
  induction as generalizing q with
  | nil => rfl
  | cons a as ih =>
    obtain ⟨hhead, htail⟩ := List.pairwise_cons.mp hmono
    rcases Nat.eq_zero_or_pos q with rfl | hq
    · rw [fill_zero, fill_zero]
    · cases he : eligible a with
      | false =>
        have hnone : ∀ x ∈ (a :: as).filter p, eligible x = false := by
          intro x hx
          rcases List.mem_cons.mp (List.mem_of_mem_filter hx) with rfl | hx
          · exact he
          · exact Bool.eq_false_iff.mpr fun hy => Bool.false_ne_true (he ▸ hhead x hx hy)
        rw [fill_of_none_eligible eligible units cut hnone, fill_cons_of_not_eligible he]
      | true =>
        rcases Nat.lt_or_ge q (units a) with hu | hu
        · rw [fill_cons_cut hq he hu] at hkept ⊢
          have ha : p a = true := hkept (a, q) (by simp [Outcome.fills])
          rw [List.filter_cons_of_pos ha, fill_cons_cut hq he hu,
            List.filter_cons_of_pos ((hcut a q).trans ha)]
        · rw [fill_cons_full hq he hu] at hkept ⊢
          have ha : p a = true := hkept (a, units a) (by simp [Outcome.fills])
          rw [List.filter_cons_of_pos ha, fill_cons_full hq he hu,
            ih htail (q - units a) fun x hx => hkept x (List.mem_cons_of_mem _ hx)]

end Laws

/-- Filling a concatenation: the second list is reached only when the first is used up. -/
theorem fill_append (as bs : List A) (q : Nat)
    (h : ∀ a ∈ as, eligible a) :
    fill eligible units cut (as ++ bs) q =
      if (fill eligible units cut as q).left = [] then
        let o := fill eligible units cut bs (fill eligible units cut as q).rest
        { o with gone := as ++ o.gone }
      else { fill eligible units cut as q with left := (fill eligible units cut as q).left ++ bs } := by
  induction as generalizing q with
  | nil => simp
  | cons a as ih =>
    have ha := h a List.mem_cons_self
    have has : ∀ b ∈ as, eligible b := fun b hb => h b (List.mem_cons_of_mem _ hb)
    by_cases hq : 0 < q
    · by_cases hu : units a ≤ q
      · simp only [List.cons_append, fill, hq, ha, and_self, if_true, if_pos hu, ih _ has]
        split_ifs <;> simp
      · simp [fill, hq, ha, hu]
    · simp [fill, hq]

/-- When nothing is left the whole list is gone. -/
theorem fill_gone_of_left_nil {as : List A} {q : Nat}
    (h : (fill eligible units cut as q).left = []) :
    (fill eligible units cut as q).gone = as ∧ (fill eligible units cut as q).part = none := by
  rcases fill_split eligible units cut as q with
    ⟨tail, hp, hs, hl⟩ | ⟨a, n, tail, _, _, hl, _⟩
  · rw [hl] at h
    subst h
    exact ⟨by simpa using hs.symm, hp⟩
  · simp [hl] at h

section Map

variable {eligible' : B → Bool} {units' : B → Nat} {cut' : B → Nat → B}

/-- Filling commutes with a map that keeps units and commutes with cuts, if it keeps the
eligibility of the lots in the list. -/
theorem fill_map_of_mem (f : A → B) (hu : ∀ a, units' (f a) = units a)
    (hc : ∀ a n, cut' (f a) n = f (cut a n)) (as : List A)
    (he : ∀ a ∈ as, eligible' (f a) = eligible a) (q : Nat) :
    fill eligible' units' cut' (as.map f) q =
      { gone := (fill eligible units cut as q).gone.map f
        part := (fill eligible units cut as q).part.map (fun x => (f x.1, x.2))
        left := (fill eligible units cut as q).left.map f
        rest := (fill eligible units cut as q).rest } := by
  induction as generalizing q with
  | nil => simp
  | cons a as ih =>
    have ih := ih fun a ha => he a (List.mem_cons_of_mem _ ha)
    simp only [List.map_cons, fill, he a List.mem_cons_self, hu, ih]
    split_ifs <;> simp [hc]

/-- Filling commutes with a map that keeps eligibility and units and commutes with cuts. -/
theorem fill_map (f : A → B) (he : ∀ a, eligible' (f a) = eligible a)
    (hu : ∀ a, units' (f a) = units a) (hc : ∀ a n, cut' (f a) n = f (cut a n))
    (as : List A) (q : Nat) :
    fill eligible' units' cut' (as.map f) q =
      { gone := (fill eligible units cut as q).gone.map f
        part := (fill eligible units cut as q).part.map (fun x => (f x.1, x.2))
        left := (fill eligible units cut as q).left.map f
        rest := (fill eligible units cut as q).rest } :=
  fill_map_of_mem f hu hc as (fun a _ => he a) q

end Map

end GreedyFill
