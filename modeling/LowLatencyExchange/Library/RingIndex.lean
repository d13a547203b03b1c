import Mathlib.Logic.Function.Basic
import Mathlib.Tactic

/-!
# Wrapping counters over a ring of slots

Two counters that only grow are kept in 64-bit words, and a slot of a ring is picked by the
low bits of a counter. The distance of two counters and the slots between them are those of
the unbounded counts, as long as the distance is below the capacity of the ring.
-/

/-- The number of slots of a ring: a power of two, and at least 2. -/
structure RingCapacity where
  value : Nat
  two_le : 2 ≤ value
  power : value &&& (value - 1) = 0
  lt : value < 2 ^ 64

namespace RingCapacity

variable (c : RingCapacity)

def mask : UInt64 := UInt64.ofNat (c.value - 1)

theorem slot_lt (i : UInt64) : (i &&& c.mask).toNat < c.value := by
  have htwo := c.two_le
  have hlt := c.lt
  have hle : i.toNat &&& (c.value - 1) ≤ c.value - 1 := Nat.and_le_right
  rw [UInt64.toNat_and, mask, UInt64.toNat_ofNat_of_lt' (by rw [UInt64.size]; omega)]
  omega

def slot (i : UInt64) : Fin c.value := ⟨(i &&& c.mask).toNat, c.slot_lt i⟩

theorem exists_power : ∃ k, c.value = 2 ^ k ∧ k < 64 := by
  have htwo := c.two_le
  obtain ⟨k, hk⟩ := (Nat.and_sub_one_eq_zero_iff_isPowerOfTwo (by omega)).mp c.power
  refine ⟨k, hk, ?_⟩
  have hlt := c.lt
  rw [hk] at hlt
  exact (Nat.pow_lt_pow_iff_right (by omega)).mp hlt

/-- The slot of a count is its remainder, although the counter wraps. -/
theorem slot_ofNat (n : Nat) : (c.slot (UInt64.ofNat n)).val = n % c.value := by
  obtain ⟨k, hk, hlt⟩ := c.exists_power
  have hmask : c.mask.toNat = c.value - 1 := by
    have := c.lt
    exact UInt64.toNat_ofNat_of_lt' (by rw [UInt64.size]; omega)
  have hdvd : 2 ^ k ∣ 2 ^ 64 := Nat.pow_dvd_pow 2 hlt.le
  change (UInt64.ofNat n &&& c.mask).toNat = n % c.value
  rw [UInt64.toNat_and, hmask, UInt64.toNat_ofNat', hk, Nat.and_two_pow_sub_one_eq_mod,
    Nat.mod_mod_of_dvd _ hdvd]

/-- Counts that are less than a round apart have different slots. -/
theorem slot_ne {i j : Nat} (hij : i < j) (h : j < i + c.value) :
    c.slot (UInt64.ofNat i) ≠ c.slot (UInt64.ofNat j) := by
  intro heq
  have hval := congrArg Fin.val heq
  rw [slot_ofNat, slot_ofNat] at hval
  have hdvd : c.value ∣ j - i := (Nat.modEq_iff_dvd' hij.le).mp hval
  have hle := Nat.le_of_dvd (by omega) hdvd
  omega

end RingCapacity

namespace RingIndex

theorem toNat_sub_ofNat {i j : Nat} (hij : i ≤ j) (h : j - i < 2 ^ 64) :
    (UInt64.ofNat j - UInt64.ofNat i).toNat = j - i := by
  rw [← UInt64.ofNat_sub hij]
  exact UInt64.toNat_ofNat_of_lt' h

theorem le_sub_iff {n i j : Nat} (hij : i ≤ j) (h : j - i < 2 ^ 64) (hn : n < 2 ^ 64) :
    UInt64.ofNat n ≤ UInt64.ofNat j - UInt64.ofNat i ↔ n ≤ j - i := by
  rw [UInt64.le_iff_toNat_le, toNat_sub_ofNat hij h, UInt64.toNat_ofNat_of_lt' hn]

/-- Counters are equal when their counts are. -/
theorem ofNat_eq_iff {i j : Nat} (hij : i ≤ j) (h : j - i < 2 ^ 64) :
    UInt64.ofNat i = UInt64.ofNat j ↔ i = j := by
  constructor
  · intro heq
    have hsub := toNat_sub_ofNat hij h
    rw [heq, UInt64.sub_self] at hsub
    have hzero : (0 : UInt64).toNat = 0 := rfl
    omega
  · exact congrArg UInt64.ofNat

theorem ofNat_succ (i : Nat) : UInt64.ofNat i + 1 = UInt64.ofNat (i + 1) :=
  (UInt64.ofNat_add i 1).symm

end RingIndex

/-- The cells of a ring with the elements of `stored` from `low` on: each is in the slot of its
count, and `marked` are their slots. -/
structure RingCells (c : RingCapacity) {T : Type*} (cells : Fin c.value → T)
    (marked : Fin c.value → Bool) (low : Nat) (stored : List T) : Prop where
  low_le : low ≤ stored.length
  length_le : stored.length ≤ low + c.value
  get : ∀ {i x}, low ≤ i → stored[i]? = some x → cells (c.slot (UInt64.ofNat i)) = x
  marked_iff : ∀ j, marked j = true ↔
    ∃ i, low ≤ i ∧ i < stored.length ∧ c.slot (UInt64.ofNat i) = j

namespace RingCells

variable {c : RingCapacity} {T : Type*} {cells : Fin c.value → T} {marked : Fin c.value → Bool}
  {low : Nat} {stored : List T}

theorem empty (cells : Fin c.value → T) : RingCells c cells (fun _ => false) 0 [] where
  low_le := Nat.le_refl 0
  length_le := Nat.zero_le _
  get := by simp
  marked_iff := by simp

/-- The slot of the next count is free when the ring is not full. -/
theorem marked_next (h : RingCells c cells marked low stored)
    (hroom : stored.length < low + c.value) :
    marked (c.slot (UInt64.ofNat stored.length)) = false := by
  rw [← Bool.not_eq_true, h.marked_iff]
  rintro ⟨i, hlow, hi, heq⟩
  exact c.slot_ne hi (by omega) heq

theorem marked_low (h : RingCells c cells marked low stored) (hlt : low < stored.length) :
    marked (c.slot (UInt64.ofNat low)) = true :=
  (h.marked_iff _).mpr ⟨low, Nat.le_refl low, hlt, rfl⟩

/-- An element is stored behind the others. -/
theorem put (h : RingCells c cells marked low stored) (hroom : stored.length < low + c.value)
    (x : T) :
    RingCells c (Function.update cells (c.slot (UInt64.ofNat stored.length)) x)
      (Function.update marked (c.slot (UInt64.ofNat stored.length)) true) low
      (stored ++ [x]) where
  low_le := by
    have := h.low_le
    rw [List.length_append, List.length_singleton]
    omega
  length_le := by
    rw [List.length_append, List.length_singleton]
    omega
  get := by
    intro i y hlow hget
    rcases Nat.lt_trichotomy i stored.length with hi | rfl | hi
    · rw [List.getElem?_append_left hi] at hget
      rw [Function.update_of_ne (c.slot_ne hi (by omega))]
      exact h.get hlow hget
    · rw [List.getElem?_concat_length] at hget
      rw [Function.update_self]
      exact Option.some.inj hget
    · rw [List.getElem?_eq_none (by simp; omega)] at hget
      cases hget
  marked_iff := by
    intro j
    rw [Function.update_apply, List.length_append, List.length_singleton]
    split_ifs with hj
    · refine iff_of_true rfl ⟨stored.length, h.low_le, by omega, hj.symm⟩
    · rw [h.marked_iff]
      refine exists_congr fun i => and_congr_right fun _ => ?_
      constructor
      · exact fun hi => ⟨by omega, hi.2⟩
      · rintro ⟨hi, rfl⟩
        refine ⟨?_, rfl⟩
        rcases Nat.lt_or_eq_of_le (Nat.le_of_lt_succ hi) with hi | rfl
        · exact hi
        · exact absurd rfl hj

/-- The first element is taken out, whatever is left in its cell. -/
theorem take (h : RingCells c cells marked low stored) (hlt : low < stored.length) (left : T) :
    RingCells c (Function.update cells (c.slot (UInt64.ofNat low)) left)
      (Function.update marked (c.slot (UInt64.ofNat low)) false) (low + 1) stored where
  low_le := hlt
  length_le := by
    have := h.length_le
    omega
  get := by
    intro i x hlow hget
    have hi := (List.getElem?_eq_some_iff.mp hget).1
    have hle := h.length_le
    rw [Function.update_of_ne (c.slot_ne (by omega) (by omega)).symm]
    exact h.get (by omega) hget
  marked_iff := by
    intro j
    have hle := h.length_le
    rw [Function.update_apply]
    split_ifs with hj
    · refine iff_of_false not_false ?_
      rintro ⟨i, hlow, hi, rfl⟩
      exact c.slot_ne hlow (by omega) hj.symm
    · rw [h.marked_iff]
      refine exists_congr fun i => ?_
      constructor
      · rintro ⟨hlow, hi, rfl⟩
        refine ⟨?_, hi, rfl⟩
        rcases Nat.lt_or_eq_of_le hlow with hlow | rfl
        · exact hlow
        · exact absurd rfl hj
      · exact fun ⟨hlow, hi⟩ => ⟨by omega, hi⟩

end RingCells
