import Mathlib.Tactic

/-!
# Bounded first-in first-out queues

A queue holds at most `capacity` elements. A push on a full queue fails and changes nothing;
so does a pop on an empty one.
-/

structure BoundedFifo (capacity : Nat) (A : Type*) where
  items : List A
  bounded : items.length ≤ capacity

namespace BoundedFifo

variable {capacity : Nat} {A : Type*}

def empty : BoundedFifo capacity A := ⟨[], Nat.zero_le _⟩

def size (q : BoundedFifo capacity A) : Nat := q.items.length

def tryPush (q : BoundedFifo capacity A) (a : A) : Option (BoundedFifo capacity A) :=
  if h : q.items.length < capacity then some ⟨q.items ++ [a], by simpa using h⟩ else none

def tryPop (q : BoundedFifo capacity A) : Option (A × BoundedFifo capacity A) :=
  match hq : q.items with
  | [] => none
  | a :: items => some (a, ⟨items, by have := q.bounded; rw [hq] at this; exact Nat.le_of_lt this⟩)

@[simp] theorem items_empty : (empty : BoundedFifo capacity A).items = [] := rfl

@[ext] theorem ext {q q' : BoundedFifo capacity A} (h : q.items = q'.items) : q = q' := by
  cases q
  cases q'
  congr

theorem items_of_tryPush {q q' : BoundedFifo capacity A} {a : A} (h : q.tryPush a = some q') :
    q'.items = q.items ++ [a] := by
  unfold tryPush at h
  split_ifs at h
  exact Option.some.inj h ▸ rfl

theorem tryPush_of_items {q q' : BoundedFifo capacity A} {a : A}
    (h : q'.items = q.items ++ [a]) : q.tryPush a = some q' := by
  have hlt : q.items.length < capacity := by
    have hbounded := q'.bounded
    rw [h, List.length_append] at hbounded
    exact hbounded
  rw [tryPush, dif_pos hlt]
  exact congrArg some (ext h.symm)

theorem tryPush_eq_none {q : BoundedFifo capacity A} {a : A} :
    q.tryPush a = none ↔ q.size = capacity := by
  have hbounded := q.bounded
  rw [tryPush, size]
  split_ifs with hlt
  · simp only [false_iff]
    omega
  · simp only [true_iff]
    omega

theorem items_of_tryPop {q q' : BoundedFifo capacity A} {a : A} (h : q.tryPop = some (a, q')) :
    q.items = a :: q'.items := by
  unfold tryPop at h
  split at h
  · cases h
  · next hq =>
    obtain ⟨rfl, rfl⟩ := Prod.mk.inj (Option.some.inj h)
    exact hq

theorem tryPop_of_items {q q' : BoundedFifo capacity A} {a : A} (h : q.items = a :: q'.items) :
    q.tryPop = some (a, q') := by
  unfold tryPop
  split
  · next hq => cases hq.symm.trans h
  · next hq =>
    obtain ⟨rfl, hitems⟩ := List.cons.inj (hq.symm.trans h)
    exact congrArg (fun q => some (_, q)) (ext hitems)

theorem items_of_tryPop_none {q : BoundedFifo capacity A} (h : q.tryPop = none) :
    q.items = [] := by
  unfold tryPop at h
  split at h
  · next hq => exact hq
  · cases h

end BoundedFifo
