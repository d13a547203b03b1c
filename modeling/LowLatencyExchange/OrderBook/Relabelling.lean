import LowLatencyExchange.OrderBook.Simulation
import Mathlib.Tactic

/-!
# What the book looks at

Of a price only its order among the prices in use matters, of an id only which ids equal
it, and of a sequence number nothing at all. Here the prices of a run are moved by any map
that is strictly increasing on them, the ids renamed apart and the sequence numbers changed
freely; the run of the new commands is then the old run under the new names.
-/
namespace LowLatencyExchange

/-- New names for ids, and new values for prices and sequence numbers. -/
structure Relabelling where
  price : Price → Price
  orderId : OrderId → OrderId
  sequence : SequenceNumber → SequenceNumber
  apart : Function.Injective orderId

section

variable (ρ : Relabelling)

def NewOrder.relabel (order : NewOrder) : NewOrder :=
  { order with
    sequence := ρ.sequence order.sequence
    orderId := ρ.orderId order.orderId
    limitPrice := order.limitPrice.map ρ.price }

def Command.relabel : Command → Command
  | .submit order => .submit (order.relabel ρ)
  | .cancel command => .cancel ⟨ρ.sequence command.sequence, ρ.orderId command.orderId⟩
  | .replace command =>
    .replace { command with
      sequence := ρ.sequence command.sequence
      orderId := ρ.orderId command.orderId
      newPrice := ρ.price command.newPrice }

/-- The price a command names. -/
def Command.limit : Command → Option Price
  | .submit order => order.limitPrice
  | .cancel _ => none
  | .replace command => some command.newPrice

def Execution.relabel (x : Execution) : Execution :=
  { x with
    restingOrderId := ρ.orderId x.restingOrderId
    incomingOrderId := ρ.orderId x.incomingOrderId
    price := ρ.price x.price }

def Result.relabel : Result → Result
  | .submit result =>
    .submit { result with executions := result.executions.map (Execution.relabel ρ) }
  | .cancel result => .cancel { result with orderId := ρ.orderId result.orderId }
  | .replace result =>
    .replace { result with
      orderId := ρ.orderId result.orderId
      executions := result.executions.map (Execution.relabel ρ) }

def RestingOrder.relabel (order : RestingOrder) : RestingOrder :=
  { order with
    orderId := ρ.orderId order.orderId
    sequence := ρ.sequence order.sequence }

def Entry.relabel (e : Entry) : Entry := (ρ.price e.1, e.2.relabel ρ)

@[simp] theorem Entry.relabel_fst (e : Entry) : (e.relabel ρ).1 = ρ.price e.1 := rfl
@[simp] theorem Entry.relabel_id (e : Entry) : (e.relabel ρ).id = ρ.orderId e.id := rfl
@[simp] theorem Entry.relabel_units (e : Entry) : (e.relabel ρ).units = e.units := rfl

@[simp] theorem Entry.relabel_cut (e : Entry) (n : Nat) :
    (e.relabel ρ).cut n = (e.cut n).relabel ρ := by
  by_cases h : n < e.2.remainingQuantity.units <;>
    simp [Entry.cut, Entry.relabel, RestingOrder.cut, RestingOrder.relabel, h]

theorem validate_relabel (order : NewOrder) : validate (order.relabel ρ) = validate order := by
  simp [validate, NewOrder.relabel]

end

variable {ρ : Relabelling} {S : Set Price}

theorem Side.before_relabel (h : StrictMonoOn ρ.price S) {side : Side} {p q : Price} (hp : p ∈ S)
    (hq : q ∈ S) : side.before (ρ.price p) (ρ.price q) ↔ side.before p q := by
  cases side
  · exact h.lt_iff_lt hq hp
  · exact h.lt_iff_lt hp hq

theorem OrderBook.crosses_relabel (h : StrictMonoOn ρ.price S) (side : Side) (type : OrderType)
    {limitPrice : Option Price} (hlimit : ∀ limit ∈ limitPrice, limit ∈ S) {p : Price} (hp : p ∈ S) :
    OrderBook.crosses side type (limitPrice.map ρ.price) (ρ.price p) =
      OrderBook.crosses side type limitPrice p := by
  cases limitPrice with
  | none => cases side <;> rfl
  | some limit =>
    have hlimit := hlimit limit rfl
    cases side <;> simp [OrderBook.crosses, h.le_iff_le hp hlimit, h.le_iff_le hlimit hp]

namespace PriorityBook

/-- Every order rests at a price of the set. -/
def PricedIn (S : Set Price) (b : PriorityBook) : Prop := ∀ side, ∀ e ∈ b.orders side, e.1 ∈ S

def relabel (ρ : Relabelling) (b : PriorityBook) : PriorityBook :=
  ⟨b.bids.map (Entry.relabel ρ), b.asks.map (Entry.relabel ρ), b.seen.image ρ.orderId⟩

section Operations

variable (b : PriorityBook)

@[simp] theorem orders_relabel (side : Side) :
    (b.relabel ρ).orders side = (b.orders side).map (Entry.relabel ρ) := by cases side <;> rfl

theorem relabel_setOrders (side : Side) (es : List Entry) :
    (b.setOrders side es).relabel ρ = (b.relabel ρ).setOrders side (es.map (Entry.relabel ρ)) := by
  cases side <;> rfl

theorem relabel_markSeen (id : OrderId) :
    (b.markSeen id).relabel ρ = (b.relabel ρ).markSeen (ρ.orderId id) := by
  simp [markSeen, relabel, Finset.image_insert]

theorem mem_relabel_seen (id : OrderId) : ρ.orderId id ∈ (b.relabel ρ).seen ↔ id ∈ b.seen :=
  ρ.apart.mem_finset_image

variable {b}

theorem PricedIn.setOrders (hb : b.PricedIn S) {side : Side} {es : List Entry}
    (h : ∀ e ∈ es, e.1 ∈ S) : (b.setOrders side es).PricedIn S := by
  intro s e he
  rcases Side.eq_or_eq_contra s side with rfl | rfl
  · rw [orders_setOrders] at he
    exact h e he
  · rw [orders_contra_setOrders] at he
    exact hb _ e he

theorem PricedIn.markSeen (hb : b.PricedIn S) (id : OrderId) : (b.markSeen id).PricedIn S := by
  intro side e he
  exact hb side e (by simpa using he)

theorem PricedIn.remove (hb : b.PricedIn S) (id : OrderId) : (b.remove id).PricedIn S := by
  intro side e he
  rw [orders_remove] at he
  exact hb side e (List.mem_of_mem_filter he)

theorem PricedIn.reduce (hb : b.PricedIn S) (id : OrderId) (quantity : Quantity) :
    (b.reduce id quantity).PricedIn S := by
  intro side e he
  rw [orders_reduce] at he
  obtain ⟨e, hmem, rfl⟩ := List.mem_map.mp he
  rw [setQuantity_fst]
  exact hb side e hmem

/-- What a fill leaves rests where it rested. -/
theorem PricedIn.take (hb : b.PricedIn S) (incoming : OrderId) (side : Side) (type : OrderType)
    (limitPrice : Option Price) (q : Nat) :
    (b.take incoming side type limitPrice q).book.PricedIn S := by
  refine hb.setOrders fun e he => ?_
  have hside := hb side.contra
  rcases GreedyFill.fill_split (fun e : Entry => OrderBook.crosses side type limitPrice e.1)
      Entry.units Entry.cut (b.orders side.contra) q with
    ⟨tail, -, hs, hl⟩ | ⟨a, n, tail, -, hs, hl, -⟩
  · rw [fill, hl] at he
    exact hside e (hs ▸ List.mem_append_right _ he)
  · rw [fill, hl] at he
    rcases List.mem_cons.mp he with rfl | he
    · exact hside a (hs ▸ List.mem_append_right _ List.mem_cons_self)
    · exact hside e (hs ▸ List.mem_append_right _ (List.mem_cons_of_mem _ he))

theorem PricedIn.post (hb : b.PricedIn S) (id : OrderId) (sequence : SequenceNumber) (side : Side)
    {price : Price} (hp : price ∈ S) (q : Nat) : (b.post id sequence side price q).PricedIn S := by
  unfold PriorityBook.post
  cases Quantity.fromUnits q with
  | none => exact hb
  | some quantity =>
    refine hb.setOrders fun e he => ?_
    rcases (List.mem_orderedInsert _).mp he with rfl | he
    · exact hp
    · exact hb side e he

/-! ## Operations under new names -/

theorem fill_relabel (hρ : StrictMonoOn ρ.price S) (side : Side) (type : OrderType)
    {limitPrice : Option Price} (hlimit : ∀ limit ∈ limitPrice, limit ∈ S) {es : List Entry}
    (hes : ∀ e ∈ es, e.1 ∈ S) (q : Nat) :
    fill (OrderBook.crosses side type (limitPrice.map ρ.price)) (es.map (Entry.relabel ρ)) q =
      let o := fill (OrderBook.crosses side type limitPrice) es q
      { gone := o.gone.map (Entry.relabel ρ)
        part := o.part.map (fun x => (x.1.relabel ρ, x.2))
        left := o.left.map (Entry.relabel ρ)
        rest := o.rest } :=
  GreedyFill.fill_map_of_mem (Entry.relabel ρ) (Entry.relabel_units ρ) (Entry.relabel_cut ρ) es
    (fun e he => OrderBook.crosses_relabel hρ side type hlimit (hes e he)) q

theorem take_relabel (hρ : StrictMonoOn ρ.price S) (hb : b.PricedIn S) (incoming : OrderId)
    (side : Side) (type : OrderType) {limitPrice : Option Price}
    (hlimit : ∀ limit ∈ limitPrice, limit ∈ S) (q : Nat) :
    (b.relabel ρ).take (ρ.orderId incoming) side type (limitPrice.map ρ.price) q =
      ⟨(b.take incoming side type limitPrice q).book.relabel ρ,
        (b.take incoming side type limitPrice q).rest,
        (b.take incoming side type limitPrice q).executions.map (Execution.relabel ρ)⟩ := by
  simp only [take, orders_relabel, fill_relabel hρ side type hlimit (hb side.contra),
    relabel_setOrders, Taken.mk.injEq, true_and, GreedyFill.Outcome.fills]
  rw [List.map_append, List.map_append, List.map_append, List.map_map, List.map_map, List.map_map,
    List.map_map, Option.toList_map, List.map_map, List.map_map]
  rfl

theorem post_relabel (hρ : StrictMonoOn ρ.price S) (hb : b.PricedIn S) (id : OrderId)
    (sequence : SequenceNumber) (side : Side) {price : Price} (hp : price ∈ S) (q : Nat) :
    (b.relabel ρ).post (ρ.orderId id) (ρ.sequence sequence) side (ρ.price price) q =
      (b.post id sequence side price q).relabel ρ := by
  unfold post
  cases Quantity.fromUnits q with
  | none => rfl
  | some quantity =>
    dsimp only
    rw [relabel_setOrders, orders_relabel, enqueue, enqueue]
    congr 1
    symm
    exact List.map_orderedInsert _ _ _ _ _
      (fun e he => (Side.before_relabel hρ (hb side e he) hp).symm)
      (fun e he => (Side.before_relabel hρ hp (hb side e he)).symm)

theorem remove_relabel (id : OrderId) :
    (b.relabel ρ).remove (ρ.orderId id) = (b.remove id).relabel ρ := by
  simp only [remove, relabel, List.filter_map, Function.comp_def, Entry.relabel_id, ne_eq,
    ρ.apart.eq_iff]

theorem reduce_relabel (id : OrderId) (quantity : Quantity) :
    (b.relabel ρ).reduce (ρ.orderId id) quantity = (b.reduce id quantity).relabel ρ := by
  have hcomm : setQuantity (ρ.orderId id) quantity ∘ Entry.relabel ρ =
      Entry.relabel ρ ∘ setQuantity id quantity := by
    funext e
    simp only [Function.comp_apply, setQuantity, Entry.relabel_id, ρ.apart.eq_iff]
    split_ifs <;> rfl
  simp only [reduce, relabel, List.map_map, hcomm]

theorem mem_of_find {id : OrderId} {side : Side} {e : Entry} (h : b.find id = some (side, e)) :
    e ∈ b.orders side := by
  unfold find at h
  cases hb : b.bids.find? (fun e => e.id = id) with
  | some x =>
    rw [hb] at h
    cases h
    exact List.mem_of_find?_eq_some hb
  | none =>
    rw [hb] at h
    obtain ⟨x, hx, h⟩ := Option.map_eq_some_iff.mp h
    cases h
    exact List.mem_of_find?_eq_some hx

theorem find_relabel (id : OrderId) :
    (b.relabel ρ).find (ρ.orderId id) = (b.find id).map fun x => (x.1, x.2.relabel ρ) := by
  have hfind : ∀ es : List Entry, (es.map (Entry.relabel ρ)).find? (fun e => e.id = ρ.orderId id) =
      (es.find? (fun e => e.id = id)).map (Entry.relabel ρ) := by
    intro es
    simp only [List.find?_map, Function.comp_def, Entry.relabel_id, ρ.apart.eq_iff]
  simp only [find, relabel, hfind]
  cases b.bids.find? (fun e => e.id = id) <;> simp [Function.comp_def]

end Operations

/-! ## Runs under new names -/

/-- The prices of the book and of the commands are all that a step compares. -/
theorem step_pricedIn {b : PriorityBook} (hb : b.PricedIn S) {c : Command}
    (hc : ∀ price ∈ c.limit, price ∈ S) : (b.step c).1.PricedIn S := by
  have htrans := b.step_transition c
  generalize b.step c = r at htrans
  cases htrans with
  | invalid | duplicate | cancelMissing | replaceMissing => exact hb
  | limit order price ht hp hs t h =>
    have htaken : t.book.PricedIn S := h ▸ (hb.markSeen order.orderId).take _ _ _ _ _
    exact htaken.post _ _ _ (hc price hp) _
  | market order ht hp hs t h =>
    have htaken : t.book.PricedIn S := h ▸ (hb.markSeen order.orderId).take _ _ _ _ _
    exact htaken
  | cancelled command side e hf => exact hb.remove command.orderId
  | reduced command side e hf hc => exact hb.reduce command.orderId command.newQuantity
  | requeued command side e hf hn t h =>
    have htaken : t.book.PricedIn S := h ▸ (hb.remove command.orderId).take _ _ _ _ _
    exact htaken.post _ _ _ (hc command.newPrice rfl) _

theorem step_relabel (hρ : StrictMonoOn ρ.price S) {b : PriorityBook} (hb : b.PricedIn S)
    {c : Command} (hc : ∀ price ∈ c.limit, price ∈ S) :
    (b.relabel ρ).step (c.relabel ρ) = ((b.step c).1.relabel ρ, (b.step c).2.relabel ρ) := by
  cases c with
  | submit order =>
    have hlimit : ∀ limit ∈ order.limitPrice, limit ∈ S := hc
    have hb' := hb.markSeen order.orderId
    have htake := take_relabel hρ hb' order.orderId order.side order.type hlimit order.quantity.units
    have hpriced := hb'.take order.orderId order.side order.type order.limitPrice order.quantity.units
    simp only [step, Command.relabel, submit, validate_relabel]
    simp only [NewOrder.relabel, mem_relabel_seen, ← relabel_markSeen, htake]
    split_ifs
    · rfl
    · rfl
    · cases ht : order.type <;> cases hp : order.limitPrice
      case limit.some price =>
        rw [ht, hp] at hpriced
        simp only [Option.map_some, post_relabel hρ hpriced _ _ _ (hlimit price hp)]
        rfl
      all_goals rfl
  | cancel command =>
    simp only [step, Command.relabel, cancel, find_relabel]
    cases b.find command.orderId with
    | none => rfl
    | some x =>
      simp only [Option.map_some, remove_relabel]
      rfl
  | replace command =>
    have hlimit : ∀ limit ∈ some command.newPrice, limit ∈ S := hc
    have hnew : command.newPrice ∈ S := hlimit command.newPrice rfl
    simp only [step, Command.relabel, replace, find_relabel]
    cases hf : b.find command.orderId with
    | none => rfl
    | some x =>
      have hx : x.2.1 ∈ S := by
        obtain ⟨side, e⟩ := x
        exact hb side e (mem_of_find hf)
      have hprice : ρ.price command.newPrice = ρ.price x.2.1 ↔ command.newPrice = x.2.1 :=
        hρ.injOn.eq_iff hnew hx
      have hb' := hb.remove command.orderId
      have htake := take_relabel hρ hb' command.orderId x.1 .limit hlimit command.newQuantity.units
      have hpriced := hb'.take command.orderId x.1 .limit (some command.newPrice)
        command.newQuantity.units
      rw [Option.map_some] at htake
      simp only [Option.map_some, Entry.relabel_units, Entry.relabel_fst, hprice, remove_relabel,
        htake, reduce_relabel, post_relabel hρ hpriced _ _ _ hnew]
      split_ifs <;> rfl

theorem run_relabel (hρ : StrictMonoOn ρ.price S) {commands : List Command}
    (hc : ∀ c ∈ commands, ∀ price ∈ c.limit, price ∈ S) :
    run (commands.map (Command.relabel ρ)) = (run commands).relabel ρ ∧
      results (commands.map (Command.relabel ρ)) = (results commands).map (Result.relabel ρ) ∧
      (run commands).PricedIn S := by
  induction commands using List.reverseRecOn with
  | nil => exact ⟨rfl, rfl, fun side e he => by cases side <;> cases he⟩
  | append_singleton commands c ih =>
    obtain ⟨hrun, hresults, hpriced⟩ := ih fun c hmem => hc c (List.mem_append_left _ hmem)
    have hlast : ∀ price ∈ c.limit, price ∈ S :=
      hc c (List.mem_append_right _ (List.mem_singleton_self c))
    have hstep := step_relabel hρ hpriced hlast
    have hkeep := step_pricedIn hpriced hlast
    rw [← hrun] at hstep
    rw [List.map_append, List.map_singleton]
    simp only [run, results, Transducer.run_concat, Transducer.outputs_concat, List.map_append,
      List.map_singleton] at hresults hstep hkeep ⊢
    rw [hstep, hresults]
    exact ⟨rfl, rfl, hkeep⟩

end PriorityBook

namespace OrderBook

/-- The prices the commands of a run name. -/
def namedPrices (commands : List Command) : Set Price := {p | ∃ c ∈ commands, p ∈ c.limit}

/-- The results under the new names are the results renamed, and so is the book after each
command. With prices and ids kept, sequence numbers alone change nothing. -/
theorem run_relabelled (ρ : Relabelling) (commands : List Command)
    (hρ : StrictMonoOn ρ.price (namedPrices commands)) :
    results (commands.map (Command.relabel ρ)) = (results commands).map (Result.relabel ρ) ∧
    ∀ n, (run ((commands.map (Command.relabel ρ)).take n)).view =
      (run (commands.take n)).view.relabel ρ := by
  have hnamed : ∀ c ∈ commands, ∀ price ∈ c.limit, price ∈ namedPrices commands :=
    fun c hc price hp => ⟨c, hc, hp⟩
  refine ⟨?_, fun n => ?_⟩
  · rw [(run_view _).2, (run_view _).2, (PriorityBook.run_relabel hρ hnamed).2.1]
  · rw [← List.map_take, (run_view _).1, (run_view _).1]
    exact (PriorityBook.run_relabel hρ fun c hc => hnamed c (List.mem_of_mem_take hc)).1

/-- Two crossing orders with their ids swapped, one sequence number for both, and the prices
100 and 105 moved to 1 and 2. -/
theorem run_relabelled_crossing :
    let order (id : OrderId) (side : Side) (price : Price) : Command :=
      .submit ⟨SequenceNumber.of 3, id, side, .limit, Quantity.of 5, some price⟩
    let ρ : Relabelling :=
      { price := fun p => if p = Price.of 100 then Price.of 1 else Price.of 2
        orderId := Equiv.swap (OrderId.of 1) (OrderId.of 2)
        sequence := fun _ => SequenceNumber.of 1
        apart := Equiv.injective _ }
    let commands := [order (OrderId.of 1) .sell (Price.of 100), order (OrderId.of 2) .buy (Price.of 105)]
    results (commands.map (Command.relabel ρ)) = (results commands).map (Result.relabel ρ) := by
  intro order ρ commands
  refine (run_relabelled ρ commands ?_).1
  rintro p ⟨c, hc, hp⟩ q ⟨d, hd, hq⟩ hlt
  have hprices : ∀ c ∈ commands, ∀ p ∈ c.limit, ∀ d ∈ commands, ∀ q ∈ d.limit, p < q →
      ρ.price p < ρ.price q := by
    decide +kernel
  exact hprices c hc p hp d hd q hq hlt

end OrderBook

end LowLatencyExchange
