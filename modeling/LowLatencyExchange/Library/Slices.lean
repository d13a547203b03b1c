import LowLatencyExchange.Library.GreedyFill
import Mathlib.Tactic

/-!
# Filling a request in slices

`fillEach` fills one request after the other, each along what the ones before left. Together
they take what one request for all their units takes. A lot that several requests cut is named
by each of them; `coalesce` adds up what is taken from one lot in succession.
-/
namespace GreedyFill

variable {A K : Type*}

section Coalesce

variable [DecidableEq K]

/-- One more entry in front, which joins a first entry of the same key. -/
@[grind] def joinHead (x : K × Nat) : List (K × Nat) → List (K × Nat)
  | [] => [x]
  | y :: ys => if x.1 = y.1 then (y.1, x.2 + y.2) :: ys else x :: y :: ys

/-- Add up the units of neighbours with the same key. -/
def coalesce (xs : List (K × Nat)) : List (K × Nat) := xs.foldr joinHead []

@[simp] theorem coalesce_nil : coalesce ([] : List (K × Nat)) = [] := rfl

@[simp] theorem coalesce_cons (x : K × Nat) (xs : List (K × Nat)) :
    coalesce (x :: xs) = joinHead x (coalesce xs) := rfl

theorem joinHead_of_notMem {x : K × Nat} {xs : List (K × Nat)} (h : x.1 ∉ xs.map Prod.fst) :
    joinHead x xs = x :: xs := by
  cases xs <;> grind

theorem joinHead_joinHead (k : K) (m n : Nat) (xs : List (K × Nat)) :
    joinHead (k, m) (joinHead (k, n) xs) = joinHead (k, m + n) xs := by
  cases xs <;> grind

theorem coalesce_of_nodup {xs : List (K × Nat)} (h : (xs.map Prod.fst).Nodup) :
    coalesce xs = xs := by
  induction xs with
  | nil => rfl
  | cons x xs ih =>
    obtain ⟨hx, hxs⟩ := List.nodup_cons.mp h
    rw [coalesce_cons, ih hxs, joinHead_of_notMem hx]

/-- The end of a list may be coalesced first. -/
theorem coalesce_append_congr (xs : List (K × Nat)) {ys zs : List (K × Nat)}
    (h : coalesce ys = coalesce zs) : coalesce (xs ++ ys) = coalesce (xs ++ zs) := by
  induction xs with
  | nil => exact h
  | cons x xs ih => rw [List.cons_append, List.cons_append, coalesce_cons, coalesce_cons, ih]

end Coalesce

/-- Cutting a lot twice is cutting it once, and changes neither its key nor whether it is
eligible. -/
structure Cutting (eligible : A → Bool) (units : A → Nat) (cut : A → Nat → A) (key : A → K) :
    Prop where
  eligible_cut : ∀ a n, eligible (cut a n) = eligible a
  key_cut : ∀ a n, key (cut a n) = key a
  units_cut : ∀ a n, n < units a → units (cut a n) = units a - n
  cut_cut : ∀ a m n, m + n < units a → cut (cut a m) n = cut a (m + n)

/-- What is taken, by key. -/
def Outcome.taken (units : A → Nat) (key : A → K) (o : Outcome A) : List (K × Nat) :=
  (o.fills units).map fun x => (key x.1, x.2)

/-- The outcomes of requests that follow each other. -/
def fillEach (eligible : A → Bool) (units : A → Nat) (cut : A → Nat → A) :
    List A → List Nat → List (Outcome A)
  | _, [] => []
  | as, q :: qs =>
    let o := fill eligible units cut as q
    o :: fillEach eligible units cut o.left qs

section Laws

variable {eligible : A → Bool} {units : A → Nat} {cut : A → Nat → A} {key : A → K}

theorem taken_keys (as : List A) (q : Nat) :
    ((fill eligible units cut as q).taken units key).map Prod.fst <+: as.map key := by
  have htouched := (fill_touched eligible units cut as q).map key
  rw [List.map_map] at htouched
  rwa [Outcome.taken, List.map_map]

theorem taken_full {a : A} {q : Nat} (hq : 0 < q) (he : eligible a) (hu : units a ≤ q)
    (as : List A) :
    (fill eligible units cut (a :: as) q).taken units key =
      (key a, units a) :: (fill eligible units cut as (q - units a)).taken units key := by
  rw [fill_cons_full hq he hu]
  rfl

theorem taken_cut {a : A} {q : Nat} (hq : 0 < q) (he : eligible a) (hu : q < units a)
    (as : List A) : (fill eligible units cut (a :: as) q).taken units key = [(key a, q)] := by
  rw [fill_cons_cut hq he hu]
  rfl

theorem left_keys (law : Cutting eligible units cut key) (as : List A) (q : Nat) :
    ((fill eligible units cut as q).left.map key).Sublist (as.map key) := by
  rcases fill_split eligible units cut as q with ⟨tail, -, hs, hl⟩ | ⟨a, n, tail, -, hs, hl, -⟩
  · rw [hl]
    conv_rhs => rw [hs]
    rw [List.map_append]
    exact List.sublist_append_right _ _
  · rw [hl]
    conv_rhs => rw [hs]
    rw [List.map_append, List.map_cons, List.map_cons, law.key_cut]
    exact List.sublist_append_right _ _

variable [DecidableEq K]

theorem coalesce_taken {as : List A} (h : (as.map key).Nodup) (q : Nat) :
    coalesce ((fill eligible units cut as q).taken units key) =
      (fill eligible units cut as q).taken units key :=
  coalesce_of_nodup (h.sublist (taken_keys as q).sublist)

theorem joinHead_taken {a : A} {as : List A} (h : ((a :: as).map key).Nodup) (n q : Nat) :
    joinHead (key a, n) ((fill eligible units cut as q).taken units key) =
      (key a, n) :: (fill eligible units cut as q).taken units key :=
  joinHead_of_notMem fun hmem => (List.nodup_cons.mp h).1 ((taken_keys as q).subset hmem)

/-- A request for `m` units and then one for `n`, against one for `m + n`. -/
structure Composes (first second whole : Outcome A) (units : A → Nat) (key : A → K) : Prop where
  left : second.left = whole.left
  rest : first.rest + second.rest = whole.rest
  taken : coalesce (first.taken units key ++ second.taken units key) = whole.taken units key

theorem fill_add (law : Cutting eligible units cut key) {as : List A} (h : (as.map key).Nodup)
    (m n : Nat) :
    Composes (fill eligible units cut as m)
      (fill eligible units cut (fill eligible units cut as m).left n)
      (fill eligible units cut as (m + n)) units key := by
  induction as generalizing m with
  | nil => exact ⟨rfl, rfl, rfl⟩
  | cons a as ih =>
    have has : (as.map key).Nodup := (List.nodup_cons.mp h).2
    rcases Nat.eq_zero_or_pos m with rfl | hm
    · rw [fill_zero, Nat.zero_add]
      exact ⟨rfl, Nat.zero_add _, coalesce_taken h n⟩
    cases he : eligible a with
    | false =>
      rw [fill_cons_of_not_eligible he, fill_cons_of_not_eligible he, fill_cons_of_not_eligible he]
      exact ⟨rfl, rfl, rfl⟩
    | true =>
      rcases Nat.lt_or_ge m (units a) with hlt | hge
      · have hunits := law.units_cut a m hlt
        have hcut : eligible (cut a m) = true := (law.eligible_cut a m).trans he
        have hkey := law.key_cut a m
        rcases Nat.eq_zero_or_pos n with rfl | hn
        · rw [fill_zero, Nat.add_zero]
          refine ⟨rfl, rfl, ?_⟩
          exact (congrArg coalesce (List.append_nil _)).trans (coalesce_taken h m)
        rcases Nat.lt_or_ge n (units (cut a m)) with hlt' | hge'
        -- The second request cuts the lot again.
        · have htwice := law.cut_cut a m n (by omega)
          refine ⟨?_, ?_, ?_⟩
          · rw [fill_cons_cut hm he hlt, fill_cons_cut (by omega) he (by omega),
              fill_cons_cut hn hcut hlt', htwice]
          · rw [fill_cons_cut hm he hlt, fill_cons_cut (by omega) he (by omega),
              fill_cons_cut hn hcut hlt', Nat.add_zero]
          · rw [taken_cut hm he hlt, taken_cut (by omega) he (by omega), fill_cons_cut hm he hlt,
              taken_cut hn hcut hlt', hkey]
            exact joinHead_joinHead (key a) m n []
        -- The second request takes what is left of the lot and goes on.
        · have hsame : n - units (cut a m) = m + n - units a := by omega
          refine ⟨?_, ?_, ?_⟩
          · rw [fill_cons_cut hm he hlt, fill_cons_full hn hcut hge',
              fill_cons_full (by omega) he (by omega), hsame]
          · rw [fill_cons_cut hm he hlt, fill_cons_full hn hcut hge',
              fill_cons_full (by omega) he (by omega), hsame, Nat.zero_add]
          · have hall : m + (units a - m) = units a := by omega
            rw [taken_cut hm he hlt, fill_cons_cut hm he hlt, taken_full hn hcut hge',
              taken_full (by omega) he (by omega), hsame, hkey, hunits, List.singleton_append,
              coalesce_cons, coalesce_cons, coalesce_taken has, joinHead_joinHead, hall,
              joinHead_taken h]
      · have hrest := ih has (m - units a)
        have hsum : m - units a + n = m + n - units a := by omega
        rw [hsum] at hrest
        refine ⟨?_, ?_, ?_⟩
        · rw [fill_cons_full hm he hge, fill_cons_full (by omega) he (by omega)]
          exact hrest.left
        · rw [fill_cons_full hm he hge, fill_cons_full (by omega) he (by omega)]
          exact hrest.rest
        · rw [taken_full hm he hge, taken_full (by omega) he (by omega), fill_cons_full hm he hge,
            List.cons_append, coalesce_cons, hrest.taken, joinHead_taken h]

/-- Requests that follow each other take together what one request for the sum takes. -/
theorem fillEach_sum (law : Cutting eligible units cut key) {as : List A} (h : (as.map key).Nodup)
    (qs : List Nat) :
    qs.foldl (fun as q => (fill eligible units cut as q).left) as =
      (fill eligible units cut as qs.sum).left ∧
    ((fillEach eligible units cut as qs).map Outcome.rest).sum =
      (fill eligible units cut as qs.sum).rest ∧
    coalesce ((fillEach eligible units cut as qs).flatMap (Outcome.taken units key)) =
      (fill eligible units cut as qs.sum).taken units key := by
  induction qs generalizing as with
  | nil => simp [fillEach, Outcome.taken, Outcome.fills]
  | cons q qs ih =>
    have hleft : ((fill eligible units cut as q).left.map key).Nodup :=
      h.sublist (left_keys law as q)
    obtain ⟨hlast, hrest, htaken⟩ := ih hleft
    have hadd := fill_add law h q qs.sum
    rw [List.sum_cons, fillEach]
    refine ⟨?_, ?_, ?_⟩
    · rw [List.foldl_cons, hlast, hadd.left]
    · rw [List.map_cons, List.sum_cons, hrest, hadd.rest]
    · rw [List.flatMap_cons, ← hadd.taken]
      exact coalesce_append_congr _ (htaken.trans (coalesce_taken hleft qs.sum).symm)

end Laws

end GreedyFill
