import LowLatencyExchange.Reference.Mirror
import Mathlib.Tactic

/-!
# The matching loop of the reference book

One round of the loop executes against the head of the contra side's priority list, so the
loop as a whole fills greedily along that list.
-/
namespace LowLatencyExchange.ReferenceOrderBook

variable {side : Side} {type : OrderType} {limitPrice : Option Price}

theorem skips_eq_false (hl : type = .limit → limitPrice.isSome) {o : RestingRefOrder} :
    skips side type limitPrice o = false ↔
      o.side = side.contra ∧ OrderBook.crosses side type limitPrice o.price := by
  obtain ⟨_, _, s, _, _⟩ := o
  cases type with
  | market => cases side <;> cases s <;> simp [skips, OrderBook.crosses, Side.contra]
  | limit =>
    obtain ⟨limit, rfl⟩ := Option.isSome_iff_exists.mp (hl rfl)
    cases side <;> cases s <;> simp [skips, OrderBook.crosses, Side.contra]

theorem better_iff {x y : RestingRefOrder} :
    better side x y ↔ side.contra.before x.price y.price ∨
      (x.price = y.price ∧ x.sequence.value < y.sequence.value) := by
  cases side <;> simp [better, Side.contra, Side.before]

/-! ## The scan -/

/-- Nothing after the best order replaces it. -/
theorem scan_keeps {o : RestingRefOrder} {rs : List RestingRefOrder}
    (h : ∀ x ∈ rs, skips side type limitPrice x = false → better side x o = false) (i j : Nat) :
    scan side type limitPrice i rs (some (j, o)) = some (j, o) := by
  induction rs generalizing i with
  | nil => rfl
  | cons x rs ih =>
    obtain ⟨hx, hrs⟩ := List.forall_mem_cons.mp h
    cases hs : skips side type limitPrice x <;> simp [scan, hs, hx, ih hrs]

theorem scan_none {rs : List RestingRefOrder}
    (h : ∀ x ∈ rs, skips side type limitPrice x) (i : Nat) :
    scan side type limitPrice i rs none = none := by
  induction rs generalizing i with
  | nil => rfl
  | cons x rs ih =>
    obtain ⟨hx, hrs⟩ := List.forall_mem_cons.mp h
    simp [scan, hx, ih hrs]

/-- The best order replaces whatever the scan found before it. -/
theorem scan_finds {o : RestingRefOrder} {front back : List RestingRefOrder}
    (ho : skips side type limitPrice o = false)
    (hfront : ∀ x ∈ front, skips side type limitPrice x = false → better side o x)
    (hback : ∀ x ∈ back, skips side type limitPrice x = false → better side x o = false)
    (i : Nat) (best : Option (Nat × RestingRefOrder)) (hbest : ∀ c ∈ best, better side o c.2) :
    scan side type limitPrice i (front ++ o :: back) best = some (i + front.length, o) := by
  induction front generalizing i best with
  | nil =>
    have hkeep := scan_keeps hback (i + 1) i
    cases best with
    | none => simpa [scan, ho] using hkeep
    | some c => simpa [scan, ho, hbest c rfl] using hkeep
  | cons x front ih =>
    obtain ⟨hx, hfront⟩ := List.forall_mem_cons.mp hfront
    have hlen : i + (x :: front).length = i + 1 + front.length := by
      rw [List.length_cons]
      omega
    rw [hlen, List.cons_append]
    cases hs : skips side type limitPrice x with
    | true => simpa [scan, hs] using ih hfront (i + 1) best hbest
    | false =>
      have hnew := ih hfront (i + 1) (some (i, x)) (by simpa using hx hs)
      cases best with
      | none => simpa [scan, hs] using hnew
      | some c =>
        cases hc : better side x c.2 with
        | true => simpa [scan, hs, hc] using hnew
        | false => simpa [scan, hs, hc] using ih hfront (i + 1) (some c) hbest

section Scan

variable {orders : Side → List Entry} {rs : List RestingRefOrder}

/-- With an eligible order at the head of the contra list, the scan finds it. -/
theorem Mirrors.scan_head (h : Mirrors orders rs) (hl : type = .limit → limitPrice.isSome)
    {e : Entry} {es : List Entry} (hes : orders side.contra = e :: es)
    (he : OrderBook.crosses side type limitPrice e.1) :
    ∃ i o, scan side type limitPrice 0 rs none = some (i, o) ∧ rs[i]? = some o ∧ o.entry = e := by
  have harr := h.arranges side.contra
  rw [hes] at harr
  obtain ⟨front, back, hs, hfront, hback⟩ := harr.head
  rw [onSide, List.map_eq_append_iff] at hs
  obtain ⟨ls, ms, hs, rfl, hms⟩ := hs
  obtain ⟨o, ms, rfl, rfl, rfl⟩ := List.map_eq_cons_iff.mp hms
  obtain ⟨rs₁, rs₂, rfl, rfl, h₂⟩ := List.filter_eq_append_iff.mp hs
  obtain ⟨rs₃, rs₄, rfl, h₃, ho, rfl⟩ := List.filter_eq_cons_iff.mp h₂
  have hside : o.side = side.contra := by simpa using ho
  have hbefore : ∀ x ∈ rs₁ ++ rs₃, skips side type limitPrice x = false → better side o x := by
    intro x hx hskip
    have hxs := ((skips_eq_false hl).mp hskip).1
    rcases List.mem_append.mp hx with hx | hx
    · have hb := hfront x.entry (List.mem_map_of_mem (List.mem_filter.mpr ⟨hx, by simpa using hxs⟩))
      exact better_iff.mpr (.inl hb)
    · exact absurd (by simpa using hxs) (h₃ x hx)
  have hafter : ∀ x ∈ rs₄, skips side type limitPrice x = false → better side x o = false := by
    intro x hx hskip
    have hxs := ((skips_eq_false hl).mp hskip).1
    have hb := hback x.entry (List.mem_map_of_mem (List.mem_filter.mpr ⟨hx, by simpa using hxs⟩))
    have hseq : o.sequence.value ≤ x.sequence.value := by
      have hp := h.sequences
      rw [List.pairwise_append, List.pairwise_append] at hp
      exact (List.pairwise_cons.mp hp.2.1.2.1).1 x hx
    refine Bool.eq_false_iff.mpr fun hbetter => ?_
    rcases better_iff.mp hbetter with hlt | ⟨_, hlt⟩
    · exact hb hlt
    · omega
  have hscan := scan_finds ((skips_eq_false hl).mpr ⟨hside, he⟩) hbefore hafter 0 none (by simp)
  exact ⟨(rs₁ ++ rs₃).length, o, by simpa using hscan, by simp, rfl⟩

/-- With no eligible order at the head of the contra list, the scan finds nothing. -/
theorem Mirrors.scan_stop (h : Mirrors orders rs) (hl : type = .limit → limitPrice.isSome)
    (hes : ∀ e ∈ (orders side.contra).head?, OrderBook.crosses side type limitPrice e.1 = false) :
    scan side type limitPrice 0 rs none = none := by
  refine scan_none (fun x hx => ?_) 0
  by_contra hskip
  obtain ⟨hside, hcross⟩ := (skips_eq_false hl).mp (Bool.eq_false_iff.mpr hskip)
  have hmem : x.entry ∈ orders side.contra := h.mem_iff.mpr ⟨x, hx, hside, rfl⟩
  have hsorted := (h.arranges side.contra).pairwise
  cases hc : orders side.contra with
  | nil => simp [hc] at hmem
  | cons e es =>
    rw [hc] at hmem hsorted
    have hhead : OrderBook.crosses side type limitPrice e.1 := by
      rcases List.mem_cons.mp hmem with heq | hmem
      · exact heq ▸ hcross
      · exact PriorityBook.crosses_mono ((List.pairwise_cons.mp hsorted).1 _ hmem) hcross
    have := hes e (by simp [hc])
    simp [this] at hhead

end Scan

/-! ## The loop -/

/-- Id and sequence number: what executing against an order does not change. -/
def stamp (o : RestingRefOrder) : OrderId × SequenceNumber := (o.orderId, o.sequence)

section Loop

variable {orders : Side → List Entry} {rs : List RestingRefOrder} {e : Entry} {es : List Entry}

/-- Erasing the order at the head of a list. -/
theorem Mirrors.erase_head (h : Mirrors orders rs) (hes : orders side = e :: es) {i : Nat}
    {o : RestingRefOrder} (hi : rs[i]? = some o) (ho : o.entry = e) :
    Mirrors (Function.update orders side es) (rs.eraseIdx i) := by
  have hid : o.orderId = e.id := ho ▸ rfl
  have hids := h.ids_side side
  rw [hes, List.map_cons] at hids
  have horders : (fun s => (orders s).filter (fun x => x.id ≠ e.id)) =
      Function.update orders side es := by
    funext s
    rcases Side.eq_or_eq_contra s side with rfl | rfl
    · rw [Function.update_self, hes, List.filter_cons_of_neg (by simp)]
      exact UniqueKeys.filter_of_notMem (List.nodup_cons.mp hids).1
    · rw [Function.update_of_ne (by cases side <;> simp [Side.contra])]
      refine List.filter_eq_self.mpr fun x hx => ?_
      simpa using h.notMem_contra (hes ▸ List.mem_cons_self) hx
  rw [UniqueKeys.eraseIdx_eq_filter h.ids hi, hid, ← horders]
  exact h.filter e.id

/-- Writing what is left of the order at the head of a list. -/
theorem Mirrors.cut_head (h : Mirrors orders rs) (hes : orders side = e :: es) {i : Nat}
    {o : RestingRefOrder} (hi : rs[i]? = some o) (ho : o.entry = e) (quantity : Quantity) :
    Mirrors (Function.update orders side (PriorityBook.setQuantity e.id quantity e :: es))
      (rs.set i { o with remainingQuantity := quantity }) := by
  have hid : o.orderId = e.id := ho ▸ rfl
  have hids := h.ids_side side
  rw [hes, List.map_cons] at hids
  have horders : (fun s => (orders s).map (PriorityBook.setQuantity e.id quantity)) =
      Function.update orders side (PriorityBook.setQuantity e.id quantity e :: es) := by
    funext s
    rcases Side.eq_or_eq_contra s side with rfl | rfl
    · rw [Function.update_self, hes, List.map_cons,
        PriorityBook.map_setQuantity_of_notMem (List.nodup_cons.mp hids).1]
    · rw [Function.update_of_ne (by cases side <;> simp [Side.contra])]
      refine PriorityBook.map_setQuantity_of_notMem (fun hm => ?_) quantity
      obtain ⟨x, hx, hxid⟩ := List.mem_map.mp hm
      exact h.notMem_contra (hes ▸ List.mem_cons_self) hx hxid
  rw [set_eq_map h.ids hi, hid, ← horders]
  exact h.map e.id quantity

/-- A round that finds nothing ends the loop. -/
theorem matchLoop_stop (incoming : OrderId) {q : Nat}
    (h : 0 < q → scan side type limitPrice 0 rs none = none) (executions : List Execution) :
    matchLoop incoming side type limitPrice rs q executions = (rs, q, executions) := by
  rw [matchLoop]
  split_ifs with hq
  · simp [h hq]
  · rfl

/-- A round that executes the whole order it finds. -/
theorem matchLoop_full (incoming : OrderId) {q i : Nat} {o : RestingRefOrder} (hq : 0 < q)
    (hscan : scan side type limitPrice 0 rs none = some (i, o)) (hu : o.entry.units ≤ q)
    (executions : List Execution) :
    matchLoop incoming side type limitPrice rs q executions =
      matchLoop incoming side type limitPrice (rs.eraseIdx i) (q - o.entry.units)
        (executions ++ [PriorityBook.executionOf incoming (o.entry, o.entry.units)]) := by
  have hmin : min q o.remainingQuantity.units = o.remainingQuantity.units := Nat.min_eq_right hu
  have hexec : PriorityBook.executionOf incoming (o.entry, o.entry.units) =
      ⟨o.orderId, incoming, o.price, o.remainingQuantity⟩ := by
    rw [PriorityBook.executionOf, show o.entry.units = o.remainingQuantity.units from rfl,
      Quantity.fromUnits_units]
    rfl
  rw [matchLoop, dif_pos hq, hexec]
  simp only [hscan, hmin, Nat.sub_self, dif_pos]
  rfl

/-- The last round, which executes only a part of the order it finds. -/
theorem matchLoop_cut (incoming : OrderId) {q i : Nat} {o : RestingRefOrder} (hq : 0 < q)
    (hscan : scan side type limitPrice 0 rs none = some (i, o)) (hu : q < o.entry.units)
    (executions : List Execution) :
    ∃ quantity, PriorityBook.setQuantity o.entry.id quantity o.entry = o.entry.cut q ∧
      matchLoop incoming side type limitPrice rs q executions =
        (rs.set i { o with remainingQuantity := quantity }, 0,
          executions ++ [PriorityBook.executionOf incoming (o.entry, q)]) := by
  have hu' : q < o.remainingQuantity.units := hu
  have hmin : min q o.remainingQuantity.units = q := Nat.min_eq_left hu.le
  have hexec : PriorityBook.executionOf incoming (o.entry, q) =
      ⟨o.orderId, incoming, o.price, ⟨q, hq, hu'.trans o.remainingQuantity.lt⟩⟩ := by
    rw [PriorityBook.executionOf, Quantity.fromUnits,
      dif_pos ⟨hq, hu'.trans o.remainingQuantity.lt⟩]
    rfl
  refine ⟨⟨o.remainingQuantity.units - q, by omega, by have := o.remainingQuantity.lt; omega⟩, ?_, ?_⟩
  · simp [PriorityBook.setQuantity, Entry.cut, RestingOrder.cut, hu', RestingRefOrder.entry]
  · have hne : o.remainingQuantity.units - q ≠ 0 := by omega
    rw [matchLoop, dif_pos hq, hexec]
    simp only [hscan, hmin, hne, dif_neg, not_false_eq_true, Nat.sub_self]
    exact matchLoop_stop incoming (fun h => absurd h (lt_irrefl 0)) _

/-- The loop fills greedily along the contra list. -/
theorem matchLoop_spec (incoming : OrderId) (hl : type = .limit → limitPrice.isSome)
    (h : Mirrors orders rs) (q : Nat) (executions : List Execution) :
    let o := PriorityBook.fill (OrderBook.crosses side type limitPrice) (orders side.contra) q
    let r := matchLoop incoming side type limitPrice rs q executions
    Mirrors (Function.update orders side.contra o.left) r.1 ∧
      (r.1.map stamp).Sublist (rs.map stamp) ∧ r.2.1 = o.rest ∧
      r.2.2 = executions ++ (o.fills Entry.units).map (PriorityBook.executionOf incoming) := by
  generalize hes : orders side.contra = es
  induction es generalizing orders rs q executions with
  | nil =>
    have hhead : ∀ e ∈ (orders side.contra).head?,
        OrderBook.crosses side type limitPrice e.1 = false := by simp [hes]
    have hself : Function.update orders side.contra [] = orders := hes ▸ Function.update_eq_self _ _
    rw [matchLoop_stop incoming (fun _ => h.scan_stop hl hhead), PriorityBook.fill_nil]
    exact ⟨hself.symm ▸ h, List.Sublist.refl _, rfl, by simp [GreedyFill.Outcome.fills]⟩
  | cons e es ih =>
    by_cases hgo : 0 < q ∧ OrderBook.crosses side type limitPrice e.1
    · obtain ⟨hq, he⟩ := hgo
      obtain ⟨i, o, hscan, hi, rfl⟩ := h.scan_head hl hes he
      rcases le_or_gt o.entry.units q with hu | hu
      · obtain ⟨hmirror, hsub, hrest, hexec⟩ := ih (h.erase_head hes hi rfl) (q - o.entry.units)
          (executions ++ [PriorityBook.executionOf incoming (o.entry, o.entry.units)])
          (Function.update_self _ _ _)
        rw [matchLoop_full incoming hq hscan hu, PriorityBook.fill_cons_full hq he hu]
        refine ⟨by simpa using hmirror, hsub.trans ((List.eraseIdx_sublist _ _).map _), hrest, ?_⟩
        rw [hexec]
        simp [GreedyFill.Outcome.fills]
      · obtain ⟨quantity, hcut, heq⟩ := matchLoop_cut incoming hq hscan hu executions
        have hmirror := h.cut_head hes hi rfl quantity
        rw [heq, PriorityBook.fill_cons_cut hq he hu, ← hcut]
        refine ⟨hmirror, ?_, rfl, by simp [GreedyFill.Outcome.fills]⟩
        have hstamp : (rs.set i { o with remainingQuantity := quantity }).map stamp =
            rs.map stamp := by
          rw [set_eq_map h.ids hi, List.map_map]
          exact List.map_congr_left fun x _ => by simp [stamp]
        rw [hstamp]
    · have hstop : 0 < q → scan side type limitPrice 0 rs none = none := by
        intro hq
        refine h.scan_stop hl fun x hx => ?_
        rw [hes] at hx
        obtain rfl : e = x := by simpa using hx
        simpa [hq] using hgo
      have hself : Function.update orders side.contra (e :: es) = orders :=
        hes ▸ Function.update_eq_self _ _
      rw [matchLoop_stop incoming hstop, PriorityBook.fill_cons_stop hgo]
      exact ⟨hself.symm ▸ h, List.Sublist.refl _, rfl, by simp [GreedyFill.Outcome.fills]⟩

end Loop

end LowLatencyExchange.ReferenceOrderBook
