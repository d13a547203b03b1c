import LowLatencyExchange.Library.SelfDelimiting
import LowLatencyExchange.OrderBook.Representation
import LowLatencyExchange.OrderBook.Withdrawal
import Mathlib.Tactic

/-!
# What the words of a digest determine

`state_digest` hashes a sequence of words: each side behind a tag and the number of its
levels, each level behind its price, total and number of orders. No two reachable books with
different resting states share the sequence, so equal digests mean equal books up to
collisions of the hash.
-/
namespace LowLatencyExchange.OrderBook

open SelfDelimiting

/-! ## Lengths fit a word -/

theorem ofNat_injOn : Set.InjOn UInt64.ofNat (Set.Iio (2 ^ 64)) := by
  intro m hm n hn h
  have htoNat := congrArg UInt64.toNat h
  rwa [UInt64.toNat_ofNat_of_lt' hm, UInt64.toNat_ofNat_of_lt' hn] at htoNat

/-- There are fewer order ids than 64-bit numbers, zero being none. -/
theorem length_lt_of_nodup {ids : List OrderId} (h : ids.Nodup) : ids.length < 2 ^ 64 := by
  have hvalues : (ids.map OrderId.value).Nodup := h.map OrderId.value_injective
  have hsub : (ids.map OrderId.value).toFinset ⊆ Finset.Ioo 0 (2 ^ 64) := by
    intro n hn
    obtain ⟨id, -, rfl⟩ := List.mem_map.mp (List.mem_toFinset.mp hn)
    exact Finset.mem_Ioo.mpr ⟨id.pos, id.lt⟩
  have hcard := Finset.card_le_card hsub
  rw [List.toFinset_card_of_nodup hvalues, List.length_map, Nat.card_Ioo] at hcard
  omega

theorem Inv.cells_lt {b : OrderBook} (inv : b.Inv) (side : Side) :
    (cells (b.levels side)).length < 2 ^ 64 := by
  have hids := length_lt_of_nodup (inv.uniqueIds.side side)
  rwa [List.length_map, view_orders, List.length_map] at hids

theorem length_cells (ls : Levels) : (cells ls).length = (ls.map fun e => e.2.orders.length).sum := by
  simp [cells, OrderedMap.entries, List.length_flatMap]

theorem orders_le_cells {ls : Levels} {e : Price × PriceLevel} (he : e ∈ ls) :
    e.2.orders.length ≤ (cells ls).length := by
  rw [length_cells]
  exact List.single_le_sum (by simp) _ (List.mem_map_of_mem he)

theorem LevelsValid.length_le_cells {side : Side} {ls : Levels} (h : LevelsValid side ls) :
    ls.length ≤ (cells ls).length := by
  have hone : ∀ n ∈ ls.map fun e => e.2.orders.length, 1 ≤ n := by
    intro n hn
    obtain ⟨e, he, rfl⟩ := List.mem_map.mp hn
    exact List.length_pos_of_ne_nil (h.nonempty e he)
  have hsum := List.card_nsmul_le_sum _ 1 hone
  rw [length_cells]
  simpa using hsum

/-! ## The words of a side -/

theorem orderWords_delimits : Delimits (fun _ => True) Node.order orderWords := by
  refine delimits_of_length (n := 3) (fun _ _ => rfl) ?_
  rintro ⟨_, id, sequence, quantity⟩ ⟨_, id', sequence', quantity'⟩ - - h
  simp only [orderWords, RestingOrder.units, List.cons.injEq, and_true] at h
  obtain ⟨hid, hsequence, hunits⟩ := h
  obtain rfl := OrderId.value_injective (ofNat_injOn id.lt id'.lt hid)
  obtain rfl := SequenceNumber.value_injective (ofNat_injOn sequence.lt sequence'.lt hsequence)
  obtain rfl := Quantity.units_injective (ofNat_injOn quantity.lt quantity'.lt hunits)
  rfl

theorem priceWord_injective {p q : Price}
    (h : UInt64.ofNat p.ticks.toNat = UInt64.ofNat q.ticks.toNat) : p = q := by
  have hp := p.pos
  have hp' := p.lt
  have hq := q.pos
  have hq' := q.lt
  have heq : p.ticks.toNat = q.ticks.toNat :=
    ofNat_injOn (show p.ticks.toNat < 2 ^ 64 by omega) (show q.ticks.toNat < 2 ^ 64 by omega) h
  exact Price.ticks_injective (by omega)

theorem levelWords_delimits :
    Delimits (fun e : Price × PriceLevel => e.2.orders.length < 2 ^ 64)
      (fun e => (e.1, (e.2.totalUnits, e.2.orders.map Node.order))) levelWords := by
  rintro ⟨price, level⟩ ⟨price', level'⟩ hlength hlength' rest rest' h
  simp only [levelWords, List.cons_append, List.nil_append, List.cons.injEq] at h
  obtain ⟨hprice, htotal, hqueue⟩ := h
  obtain ⟨horders, hrest⟩ := orderWords_delimits.counted ofNat_injOn
    ⟨hlength, fun _ _ => trivial⟩ ⟨hlength', fun _ _ => trivial⟩ (List.cons_eq_cons.mpr hqueue)
  obtain rfl := priceWord_injective hprice
  exact ⟨by simp only [htotal, horders], hrest⟩

theorem sideWords_delimits (side : Side) :
    Delimits (fun ls : Levels => ls.length < 2 ^ 64 ∧ ∀ e ∈ ls, e.2.orders.length < 2 ^ 64)
      contents (sideWords side) := by
  intro ls ls' hls hls' rest rest' h
  simp only [sideWords, List.cons_append, List.nil_append, List.cons.injEq, true_and] at h
  exact levelWords_delimits.counted ofNat_injOn hls hls' (List.cons_eq_cons.mpr h)

/-! ## The whole state -/

theorem Inv.words_fit {b : OrderBook} (inv : b.Inv) (side : Side) :
    (b.levels side).length < 2 ^ 64 ∧
      ∀ e ∈ b.levels side, e.2.orders.length < 2 ^ 64 := by
  have hcells := inv.cells_lt side
  refine ⟨lt_of_le_of_lt (inv.levels side).length_le_cells hcells, fun e he => ?_⟩
  exact lt_of_le_of_lt (orders_le_cells he) hcells

/-- The queues of a side are a function of its contents. -/
theorem view_orders_contents (b : OrderBook) (side : Side) :
    b.view.orders side =
      (contents (b.levels side)).flatMap (fun e => e.2.2.map (Prod.mk e.1)) := by
  rw [view_orders, cells, OrderedMap.entries, contents, List.flatMap_map, List.map_flatMap]
  simp [Cell.entry, Function.comp_def]

theorem orders_of_digestWords {b b' : OrderBook} (inv : b.Inv) (inv' : b'.Inv)
    (h : b.digestWords = b'.digestWords) (side : Side) :
    b.view.orders side = b'.view.orders side := by
  simp only [digestWords, List.append_assoc] at h
  obtain ⟨hbids, h⟩ := sideWords_delimits .buy (inv.words_fit .buy) (inv'.words_fit .buy) h
  obtain ⟨hasks, -⟩ := sideWords_delimits .sell (inv.words_fit .sell) (inv'.words_fit .sell) h
  rw [view_orders_contents, view_orders_contents]
  cases side with
  | buy => exact congrArg (List.flatMap _) hbids
  | sell => exact congrArg (List.flatMap _) hasks

/-- Books with one view go on alike. -/
theorem outputs_of_view {b b' : OrderBook} (inv : b.Inv) (inv' : b'.Inv) (h : b.view = b'.view)
    (commands : List Command) :
    Transducer.outputs step b commands = Transducer.outputs step b' commands := by
  refine (Transducer.simulation (fun b b' : OrderBook => b.Inv ∧ b'.Inv ∧ b.view = b'.view) ?_
    ⟨inv, inv', h⟩ commands).2
  rintro b b' c ⟨inv, inv', h⟩
  obtain ⟨hinv, hview, hresult⟩ := step_spec inv c
  obtain ⟨hinv', hview', hresult'⟩ := step_spec inv' c
  exact ⟨⟨hinv, hinv', by rw [hview, hview', h]⟩, by rw [hresult, hresult', h]⟩

/-- Two reachable books that feed the same words to the hash rest the same orders in the same
queues, with the same totals, index and counter. If they have seen the same ids as well, they
return the same results for whatever commands follow. -/
theorem digestWords_determine (commands commands' : List Command)
    (h : (run commands).digestWords = (run commands').digestWords) :
    SameResting (run commands) (run commands') ∧
    ((run commands).seenOrderIds = (run commands').seenOrderIds →
      ∀ more, Transducer.outputs step (run commands) more =
        Transducer.outputs step (run commands') more) := by
  have inv := run_inv commands
  have inv' := run_inv commands'
  have horders := orders_of_digestWords inv inv' h
  refine ⟨sameResting_of_orders inv inv' horders, fun hseen more => ?_⟩
  refine outputs_of_view inv inv' ?_ more
  rw [view, view, PriorityBook.mk.injEq]
  exact ⟨horders .buy, horders .sell, hseen⟩

/-- A sale of five units, and a sale of eight that was reduced to five. -/
theorem reducedSale_alike :
    let five : List Command := [.submit ⟨SequenceNumber.of 1, OrderId.of 1, .sell, .limit,
      Quantity.of 5, some (Price.of 101)⟩]
    let eight : List Command := [.submit ⟨SequenceNumber.of 1, OrderId.of 1, .sell, .limit,
      Quantity.of 8, some (Price.of 101)⟩,
      .replace ⟨SequenceNumber.of 2, OrderId.of 1, Quantity.of 5, Price.of 101⟩]
    SameResting (run five) (run eight) ∧
    ∀ more, Transducer.outputs step (run five) more = Transducer.outputs step (run eight) more := by
  intro five eight
  obtain ⟨hsame, hmore⟩ := digestWords_determine five eight (by decide +kernel)
  exact ⟨hsame, hmore (by decide +kernel)⟩

end LowLatencyExchange.OrderBook
