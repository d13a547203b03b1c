import LowLatencyExchange.Reference.Basic
import LowLatencyExchange.OrderBook.Representation
import Mathlib.Tactic

/-!
# The reference book against the priority book

The vector of the reference book holds the orders of both sides in the order in which they
came to rest. Each side's priority list arranges its part of the vector by price. The
earliest order at a price is also the one with the least sequence number, as long as the
sequence numbers of the commands do not decrease: this is where the scan needs them.
-/
namespace LowLatencyExchange

def RestingRefOrder.entry (o : RestingRefOrder) : Entry :=
  (o.price, ⟨o.orderId, o.sequence, o.remainingQuantity⟩)

namespace ReferenceOrderBook

/-- The orders of one side, in vector order. -/
def onSide (side : Side) (rs : List RestingRefOrder) : List Entry :=
  (rs.filter (fun o => o.side = side)).map RestingRefOrder.entry

structure Mirrors (orders : Side → List Entry) (rs : List RestingRefOrder) : Prop where
  ids : (rs.map RestingRefOrder.orderId).Nodup
  sequences : rs.Pairwise (fun x y => x.sequence.value ≤ y.sequence.value)
  arranges : ∀ side, StableOrder.Arranges side.before Prod.fst (orders side) (onSide side rs)

theorem mem_onSide {side : Side} {rs : List RestingRefOrder} {e : Entry} :
    e ∈ onSide side rs ↔ ∃ o ∈ rs, o.side = side ∧ o.entry = e := by
  simp [onSide, and_assoc]

/-! ## Operations on the vector -/

def assign (id : OrderId) (quantity : Quantity) (o : RestingRefOrder) : RestingRefOrder :=
  if o.orderId = id then { o with remainingQuantity := quantity } else o

section Assign

variable (id : OrderId) (quantity : Quantity) (o : RestingRefOrder)

@[simp] theorem assign_orderId : (assign id quantity o).orderId = o.orderId := by
  unfold assign
  split_ifs <;> rfl

@[simp] theorem assign_sequence : (assign id quantity o).sequence = o.sequence := by
  unfold assign
  split_ifs <;> rfl

@[simp] theorem assign_side : (assign id quantity o).side = o.side := by
  unfold assign
  split_ifs <;> rfl

@[simp] theorem assign_entry :
    (assign id quantity o).entry = PriorityBook.setQuantity id quantity o.entry := by
  unfold assign PriorityBook.setQuantity
  have hid : o.entry.id = o.orderId := rfl
  split_ifs <;> simp_all [RestingRefOrder.entry]

end Assign

section Vector

variable {rs : List RestingRefOrder} {id : OrderId}

theorem onSide_filter (side : Side) (rs : List RestingRefOrder) (id : OrderId) :
    onSide side (rs.filter (fun o => o.orderId ≠ id)) =
      (onSide side rs).filter (fun e => e.id ≠ id) := by
  rw [onSide, List.filter_comm, onSide, List.filter_map]
  rfl

theorem onSide_map (side : Side) (rs : List RestingRefOrder) (id : OrderId)
    (quantity : Quantity) :
    onSide side (rs.map (assign id quantity)) =
      (onSide side rs).map (PriorityBook.setQuantity id quantity) := by
  simp only [onSide, List.filter_map, List.map_map, Function.comp_def, assign_side, assign_entry]

theorem onSide_concat (side : Side) (rs : List RestingRefOrder) (o : RestingRefOrder) :
    onSide side (rs ++ [o]) = onSide side rs ++ if o.side = side then [o.entry] else [] := by
  by_cases h : o.side = side <;> simp [onSide, h]

/-- The iterator write changes the order with the id. -/
theorem assignFirst_eq_map (h : (rs.map RestingRefOrder.orderId).Nodup) (id : OrderId)
    (quantity : Quantity) : assignFirst id quantity rs = rs.map (assign id quantity) := by
  induction rs with
  | nil => rfl
  | cons o rs ih =>
    obtain ⟨ho, hrs⟩ := List.nodup_cons.mp h
    by_cases hid : o.orderId = id
    · have hkeep : rs.map (assign id quantity) = rs := by
        refine (List.map_congr_left fun x hx => ?_).trans (List.map_id rs)
        have hne : x.orderId ≠ id := fun he => ho (hid ▸ he ▸ List.mem_map_of_mem hx)
        simp [assign, hne]
      simp [assignFirst, assign, hid, hkeep]
    · simp [assignFirst, assign, hid, ih hrs]

/-- The write at an index, too. -/
theorem set_eq_map (h : (rs.map RestingRefOrder.orderId).Nodup) {i : Nat} {o : RestingRefOrder}
    (ho : rs[i]? = some o) (quantity : Quantity) :
    rs.set i { o with remainingQuantity := quantity } = rs.map (assign o.orderId quantity) := by
  rw [UniqueKeys.set_eq_map h ho]
  refine List.map_congr_left fun x hx => ?_
  unfold assign
  split_ifs with hid
  · rw [List.inj_on_of_nodup_map h hx (List.mem_of_getElem? ho) hid]
  · rfl

end Vector

namespace Mirrors

variable {orders : Side → List Entry} {rs : List RestingRefOrder}

theorem mem_iff (h : Mirrors orders rs) {side : Side} {e : Entry} :
    e ∈ orders side ↔ ∃ o ∈ rs, o.side = side ∧ o.entry = e := by
  rw [(h.arranges side).mem_iff, mem_onSide]

theorem filter (h : Mirrors orders rs) (id : OrderId) :
    Mirrors (fun side => (orders side).filter (fun e => e.id ≠ id))
      (rs.filter (fun o => o.orderId ≠ id)) where
  ids := h.ids.sublist (List.filter_sublist.map _)
  sequences := h.sequences.sublist List.filter_sublist
  arranges side := onSide_filter side rs id ▸ (h.arranges side).filter _

theorem map (h : Mirrors orders rs) (id : OrderId) (quantity : Quantity) :
    Mirrors (fun side => (orders side).map (PriorityBook.setQuantity id quantity))
      (rs.map (assign id quantity)) where
  ids := by simpa [Function.comp_def] using h.ids
  sequences := List.pairwise_map.mpr (by simpa using h.sequences)
  arranges side := onSide_map side rs id quantity ▸
    (h.arranges side).map (PriorityBook.setQuantity_fst id quantity)

/-- A new order joins its side's list and the end of the vector. -/
theorem enqueue (h : Mirrors orders rs) (o : RestingRefOrder)
    (hid : o.orderId ∉ rs.map RestingRefOrder.orderId)
    (hseq : ∀ x ∈ rs, x.sequence.value ≤ o.sequence.value) :
    Mirrors (Function.update orders o.side (PriorityBook.enqueue o.side o.entry (orders o.side)))
      (rs ++ [o]) where
  ids := by
    rw [List.map_append, List.map_singleton]
    exact List.nodup_append.mpr ⟨h.ids, List.nodup_singleton _, by
      rintro _ hx _ hy rfl
      exact hid (List.mem_singleton.mp hy ▸ hx)⟩
  sequences := List.pairwise_append.mpr ⟨h.sequences, List.pairwise_singleton _ _, by simpa using hseq⟩
  arranges side := by
    rw [onSide_concat]
    by_cases hs : o.side = side
    · subst hs
      rw [Function.update_self, if_pos rfl]
      exact (h.arranges o.side).insert o.entry
    · rw [Function.update_of_ne (Ne.symm hs), if_neg hs, List.append_nil]
      exact h.arranges side

theorem ids_side (h : Mirrors orders rs) (side : Side) :
    ((orders side).map Entry.id).Nodup := by
  have hids : (onSide side rs).map Entry.id =
      (rs.filter (fun o => o.side = side)).map RestingRefOrder.orderId := by
    rw [onSide, List.map_map]
    rfl
  rw [((h.arranges side).perm.map Entry.id).nodup_iff, hids]
  exact h.ids.sublist (List.filter_sublist.map _)

/-- An order of one side is not on the other. -/
theorem notMem_contra (h : Mirrors orders rs) {side : Side} {e x : Entry} (he : e ∈ orders side)
    (hx : x ∈ orders side.contra) : x.id ≠ e.id := by
  obtain ⟨o, ho, hside, rfl⟩ := h.mem_iff.mp he
  obtain ⟨o', ho', hside', rfl⟩ := h.mem_iff.mp hx
  intro hid
  have heq := List.inj_on_of_nodup_map h.ids ho' ho hid
  rw [heq, hside] at hside'
  cases side <;> simp [Side.contra] at hside'

end Mirrors

end ReferenceOrderBook

end LowLatencyExchange
