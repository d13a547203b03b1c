import LowLatencyExchange.OrderBook.Priority
import Mathlib.Tactic

/-!
# The representation invariant

A book stores every resting order several times over: in a queue under a sorted map, in
the aggregate of its level, in the index and in the counter. `Inv` says how these copies
fit together. It is stated over `cells`, the queue nodes of a level map in priority order
with the price each rests at, so that matching, insertion and removal each act on it
through one list operation.
-/
namespace LowLatencyExchange

def Node.units (n : Node) : Nat := n.order.units
def Node.cut (n : Node) (k : Nat) : Node := { n with order := n.order.cut k }

theorem Node.cut_units {n : Node} {k : Nat} (h : k < n.units) : (n.cut k).units = n.units - k :=
  RestingOrder.cut_units h

/-- A queue node with the price of its level. -/
abbrev Cell := Price × Node

namespace Cell

def id (c : Cell) : OrderId := c.2.order.orderId
def units (c : Cell) : Nat := c.2.units
def entry (c : Cell) : Entry := (c.1, c.2.order)

def cut (c : Cell) (n : Nat) : Cell := (c.1, c.2.cut n)

@[simp] theorem cut_fst (c : Cell) (n : Nat) : (c.cut n).1 = c.1 := rfl
@[simp] theorem cut_address (c : Cell) (n : Nat) : (c.cut n).2.address = c.2.address := rfl
@[simp] theorem cut_id (c : Cell) (n : Nat) : (c.cut n).id = c.id := by
  simp [cut, id, Node.cut]
@[simp] theorem entry_id (c : Cell) : c.entry.id = c.id := rfl
@[simp] theorem entry_fst (c : Cell) : c.entry.1 = c.1 := rfl
@[simp] theorem entry_units (c : Cell) : c.entry.units = c.units := rfl

end Cell

namespace OrderBook

def cells (ls : Levels) : List Cell := OrderedMap.entries PriceLevel.orders ls

/-- The exact sum of the remaining units of a queue. -/
def queueUnits (orders : List Node) : Nat := GreedyFill.total Node.units orders

/-- A level map in comparator order, without empty levels, with wrapped aggregates. -/
structure LevelsValid (side : Side) (ls : Levels) : Prop where
  sorted : OrderedMap.Sorted side.before ls
  nonempty : ∀ e ∈ ls, e.2.orders ≠ []
  total : ∀ e ∈ ls, e.2.totalUnits = UInt64.ofNat (queueUnits e.2.orders)

/-- The cells of one side, each with the location its index entry should hold. -/
def sidePlaces (side : Side) (cs : List Cell) : List (OrderId × OrderLocation) :=
  cs.map (fun c => (c.id, ⟨side, c.1, c.2.address⟩))

def places (b : OrderBook) : List (OrderId × OrderLocation) :=
  sidePlaces .buy (cells b.bids) ++ sidePlaces .sell (cells b.asks)

/-- The index, the counter and the set of seen ids describe the places `ps`: ids and
addresses are unique, and the index holds exactly these places. -/
structure Indexed (ps : List (OrderId × OrderLocation)) (index : Index) (count : Nat)
    (seen : Finset OrderId) (next : Nat) : Prop where
  ids : (ps.map Prod.fst).Nodup
  addresses : (ps.map (fun x => x.2.it)).Nodup
  fresh : ∀ x ∈ ps, x.2.it < next
  lookup : ∀ id loc, index.lookup id = some loc ↔ (id, loc) ∈ ps
  count : count = ps.length
  seen : ∀ x ∈ ps, x.1 ∈ seen

structure Inv (b : OrderBook) : Prop where
  bids : LevelsValid .buy b.bids
  asks : LevelsValid .sell b.asks
  indexed : Indexed (places b) b.restingOrders b.restingOrderCount b.seenOrderIds b.nextAddress
  uncrossed : ∀ c ∈ cells b.bids, ∀ d ∈ cells b.asks, c.1 < d.1

/-- The priority book a book stands for. -/
def view (b : OrderBook) : PriorityBook :=
  ⟨(cells b.bids).map Cell.entry, (cells b.asks).map Cell.entry, b.seenOrderIds⟩

theorem inv_empty : Inv empty where
  bids := ⟨List.Pairwise.nil, by simp [empty], by simp [empty]⟩
  asks := ⟨List.Pairwise.nil, by simp [empty], by simp [empty]⟩
  indexed :=
    { ids := List.nodup_nil
      addresses := List.nodup_nil
      fresh := by simp [places, sidePlaces, empty, cells]
      lookup := by simp [places, sidePlaces, empty, cells]
      count := rfl
      seen := by simp [places, sidePlaces, empty, cells] }
  uncrossed := by simp [empty, cells]

/-! ## The index under changes of the places -/

section Indexed

variable {ps qs : List (OrderId × OrderLocation)} {index : Index} {count next : Nat}
  {seen : Finset OrderId}

theorem Indexed.perm (h : Indexed ps index count seen next) (p : ps.Perm qs) :
    Indexed qs index count seen next where
  ids := (p.map _).nodup_iff.mp h.ids
  addresses := (p.map _).nodup_iff.mp h.addresses
  fresh x hx := h.fresh x (p.mem_iff.mpr hx)
  lookup id loc := (h.lookup id loc).trans p.mem_iff
  count := h.count.trans p.length_eq
  seen x hx := h.seen x (p.mem_iff.mpr hx)

theorem Indexed.erase {x : OrderId × OrderLocation}
    (h : Indexed (x :: ps) index count seen next) :
    Indexed ps (index.erase x.1) (count - 1) seen next where
  ids := (List.nodup_cons.mp h.ids).2
  addresses := (List.nodup_cons.mp h.addresses).2
  fresh y hy := h.fresh y (List.mem_cons_of_mem _ hy)
  lookup id loc := by
    have hn := (List.nodup_cons.mp h.ids).1
    by_cases he : id = x.1
    · subst he
      rw [Finmap.lookup_erase]
      refine ⟨by simp, fun hm => absurd (List.mem_map_of_mem hm) hn⟩
    · rw [Finmap.lookup_erase_ne he, h.lookup, List.mem_cons]
      have : (id, loc) ≠ x := fun e => he (congrArg Prod.fst e)
      simp [this]
  count := by rw [h.count, List.length_cons, Nat.add_sub_cancel]
  seen y hy := h.seen y (List.mem_cons_of_mem _ hy)

theorem Indexed.insert {x : OrderId × OrderLocation}
    (h : Indexed ps index count seen next) (hid : x.1 ∉ ps.map Prod.fst) (hit : x.2.it = next)
    (hseen : x.1 ∈ seen) :
    Indexed (x :: ps) (emplace index x.1 x.2) (count + 1) seen (next + 1) where
  ids := List.nodup_cons.mpr ⟨hid, h.ids⟩
  addresses := by
    refine List.nodup_cons.mpr ⟨?_, h.addresses⟩
    intro hm
    obtain ⟨y, hy, he⟩ := List.mem_map.mp hm
    have same : y.2.it = next := he.trans hit
    exact absurd (h.fresh y hy) (by omega)
  fresh y hy := by
    rcases List.mem_cons.mp hy with rfl | hy
    · omega
    · have := h.fresh y hy
      omega
  lookup id loc := by
    have absent : x.1 ∉ index := by
      intro hm
      obtain ⟨l, hl⟩ := Finmap.mem_iff.mp hm
      exact hid (List.mem_map.mpr ⟨_, (h.lookup _ l).mp hl, rfl⟩)
    rw [emplace, if_neg absent, List.mem_cons]
    by_cases he : id = x.1
    · subst he
      rw [Finmap.lookup_insert]
      constructor
      · rintro ⟨rfl⟩
        exact Or.inl rfl
      · rintro (he | hm)
        · rw [← he]
        · exact absurd (List.mem_map_of_mem hm) hid
    · rw [Finmap.lookup_insert_of_ne _ he, h.lookup]
      have : (id, loc) ≠ x := fun e => he (congrArg Prod.fst e)
      simp [this]
  count := by rw [h.count, List.length_cons]
  seen y hy := by
    rcases List.mem_cons.mp hy with rfl | hy
    · exact hseen
    · exact h.seen y hy

theorem Indexed.mono_seen (h : Indexed ps index count seen next) {seen' : Finset OrderId}
    (hs : seen ⊆ seen') : Indexed ps index count seen' next :=
  { h with seen := fun x hx => hs (h.seen x hx) }

/-- Erase the entries of fully filled orders. -/
def eraseAll (index : Index) (ids : List OrderId) : Index := ids.foldl (fun m id => m.erase id) index

theorem Indexed.eraseAll (h : Indexed (qs ++ ps) index count seen next) :
    Indexed ps (eraseAll index (qs.map Prod.fst)) (count - qs.length) seen next := by
  induction qs generalizing index count with
  | nil => simpa [OrderBook.eraseAll] using h
  | cons x qs ih =>
    have := ih h.erase
    simpa [OrderBook.eraseAll, Nat.sub_sub, Nat.add_comm] using this

end Indexed

end OrderBook

end LowLatencyExchange
