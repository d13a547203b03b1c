import LowLatencyExchange.OrderBook.Depth
import Mathlib.Tactic

/-!
# Buying and selling are symmetric

Swap the sides and turn every price around, so that a high price becomes a low one. The two
sides of a book are written apart, with opposite comparators; here a run of the swapped
commands is shown to be the swapped run, with the same results at swapped prices. The
argument is made on the priority book, where both sides share their operations, and carried
over to the order book through its view.
-/
namespace LowLatencyExchange

/-- The price as far below the end of the range as this one is above its start. -/
def Price.reflect (p : Price) : Price :=
  ⟨2 ^ 63 - p.ticks, by have := p.lt; omega, by have := p.pos; omega⟩

@[simp] theorem Price.reflect_reflect (p : Price) : p.reflect.reflect = p := by
  apply Price.ticks_injective
  simp [Price.reflect]

theorem Price.reflect_injective : Function.Injective Price.reflect :=
  Function.LeftInverse.injective Price.reflect_reflect

theorem Price.reflect_lt {p q : Price} : p.reflect < q.reflect ↔ q < p := by
  simp only [Price.lt_def, Price.reflect]
  omega

theorem Price.reflect_le {p q : Price} : p.reflect ≤ q.reflect ↔ q ≤ p := by
  simp only [Price.le_def, Price.reflect]
  omega

theorem Side.before_reflect (side : Side) (p q : Price) :
    side.contra.before p.reflect q.reflect ↔ side.before p q := by
  cases side <;> exact Price.reflect_lt

theorem OrderBook.crosses_reflect (side : Side) (type : OrderType) (limitPrice : Option Price)
    (p : Price) :
    OrderBook.crosses side.contra type (limitPrice.map Price.reflect) p.reflect =
      OrderBook.crosses side type limitPrice p := by
  cases limitPrice with
  | none => cases side <;> rfl
  | some limit => cases side <;> simp [OrderBook.crosses, Side.contra, Price.reflect_le]

def Command.reflect : Command → Command
  | .submit order =>
    .submit { order with side := order.side.contra, limitPrice := order.limitPrice.map Price.reflect }
  | .cancel command => .cancel command
  | .replace command => .replace { command with newPrice := command.newPrice.reflect }

def Execution.reflect (x : Execution) : Execution := { x with price := x.price.reflect }

def Result.reflect : Result → Result
  | .submit result =>
    .submit { result with executions := result.executions.map Execution.reflect }
  | .cancel result => .cancel result
  | .replace result =>
    .replace { result with executions := result.executions.map Execution.reflect }

def Entry.reflect (e : Entry) : Entry := (e.1.reflect, e.2)

theorem validate_reflect (order : NewOrder) :
    validate { order with side := order.side.contra,
                          limitPrice := order.limitPrice.map Price.reflect } = validate order := by
  simp [validate]

namespace PriorityBook

def reflect (b : PriorityBook) : PriorityBook :=
  ⟨b.asks.map Entry.reflect, b.bids.map Entry.reflect, b.seen⟩

section Operations

variable (b : PriorityBook)

@[simp] theorem reflect_seen : b.reflect.seen = b.seen := rfl

@[simp] theorem orders_reflect (side : Side) :
    b.reflect.orders side = (b.orders side.contra).map Entry.reflect := by cases side <;> rfl

theorem reflect_setOrders (side : Side) (es : List Entry) :
    (b.setOrders side es).reflect = b.reflect.setOrders side.contra (es.map Entry.reflect) := by
  cases side <;> rfl

theorem reflect_markSeen (id : OrderId) : (b.markSeen id).reflect = b.reflect.markSeen id := rfl

theorem fill_reflect (side : Side) (type : OrderType) (limitPrice : Option Price)
    (es : List Entry) (q : Nat) :
    fill (OrderBook.crosses side.contra type (limitPrice.map Price.reflect))
        (es.map Entry.reflect) q =
      let o := fill (OrderBook.crosses side type limitPrice) es q
      { gone := o.gone.map Entry.reflect
        part := o.part.map (fun x => (x.1.reflect, x.2))
        left := o.left.map Entry.reflect
        rest := o.rest } :=
  GreedyFill.fill_map Entry.reflect (fun e => OrderBook.crosses_reflect side type limitPrice e.1)
    (fun _ => rfl) (fun _ _ => rfl) es q

theorem take_reflect (incoming : OrderId) (side : Side) (type : OrderType)
    (limitPrice : Option Price) (q : Nat) :
    b.reflect.take incoming side.contra type (limitPrice.map Price.reflect) q =
      ⟨(b.take incoming side type limitPrice q).book.reflect,
        (b.take incoming side type limitPrice q).rest,
        (b.take incoming side type limitPrice q).executions.map Execution.reflect⟩ := by
  simp only [take, orders_reflect, fill_reflect, reflect_setOrders, Side.contra_contra,
    Taken.mk.injEq, true_and, GreedyFill.Outcome.fills]
  rw [List.map_append, List.map_append, List.map_append, List.map_map, List.map_map, List.map_map,
    List.map_map, Option.toList_map, List.map_map, List.map_map]
  rfl

theorem post_reflect (id : OrderId) (sequence : SequenceNumber) (side : Side) (price : Price)
    (q : Nat) :
    b.reflect.post id sequence side.contra price.reflect q =
      (b.post id sequence side price q).reflect := by
  unfold post
  cases Quantity.fromUnits q with
  | none => rfl
  | some quantity =>
    dsimp only
    rw [reflect_setOrders, orders_reflect, Side.contra_contra, enqueue, enqueue]
    congr 1
    symm
    exact List.map_orderedInsert _ _ _ _ _ (fun _ _ => (side.before_reflect _ _).symm)
      (fun _ _ => (side.before_reflect _ _).symm)

theorem remove_reflect (id : OrderId) : b.reflect.remove id = (b.remove id).reflect := by
  simp only [remove, reflect, List.filter_map]
  rfl

theorem reduce_reflect (id : OrderId) (quantity : Quantity) :
    b.reflect.reduce id quantity = (b.reduce id quantity).reflect := by
  have hcomm : setQuantity id quantity ∘ Entry.reflect =
      Entry.reflect ∘ setQuantity id quantity := by
    funext e
    have hid : e.reflect.id = e.id := rfl
    simp only [Function.comp_apply, setQuantity, hid]
    split_ifs <;> rfl
  simp only [reduce, reflect, List.map_map, hcomm]

theorem ids_reflect (side : Side) :
    (b.reflect.orders side).map Entry.id = (b.orders side.contra).map Entry.id := by
  rw [orders_reflect, List.map_map]
  rfl

theorem UniqueIds.reflect {b : PriorityBook} (h : b.UniqueIds) : b.reflect.UniqueIds := by
  have hperm : ((b.reflect.bids ++ b.reflect.asks).map Entry.id).Perm
      ((b.bids ++ b.asks).map Entry.id) := by
    have hbids := b.ids_reflect .buy
    have hasks := b.ids_reflect .sell
    simp only [orders, Side.contra] at hbids hasks
    rw [List.map_append, List.map_append, hbids, hasks]
    exact List.perm_append_comm
  exact hperm.nodup_iff.mpr h

/-- An id is found on the other side. -/
theorem UniqueIds.find_reflect {b : PriorityBook} (h : b.UniqueIds) (id : OrderId) :
    b.reflect.find id = (b.find id).map fun x => (x.1.contra, x.2.reflect) := by
  cases hf : b.find id with
  | none =>
    refine find_eq_none.mpr fun side => ?_
    rw [ids_reflect]
    exact find_eq_none.mp hf side.contra
  | some x =>
    obtain ⟨he, hid⟩ := h.find_eq_some.mp hf
    refine h.reflect.find_eq_some.mpr ⟨?_, hid⟩
    rw [orders_reflect, Side.contra_contra]
    exact List.mem_map_of_mem he

end Operations

/-- Swapping the sides commutes with every step. -/
theorem step_reflect {b : PriorityBook} (valid : b.Valid) (c : Command) :
    b.reflect.step c.reflect = ((b.step c).1.reflect, (b.step c).2.reflect) := by
  cases c with
  | submit order =>
    simp only [step, Command.reflect, submit, validate_reflect, reflect_seen, ← reflect_markSeen,
      take_reflect]
    split_ifs
    · rfl
    · rfl
    · cases order.type <;> cases order.limitPrice
      case limit.some price =>
        simp only [Option.map_some, post_reflect]
        rfl
      all_goals rfl
  | cancel command =>
    simp only [step, Command.reflect, cancel, valid.ids.find_reflect]
    cases b.find command.orderId with
    | none => rfl
    | some x =>
      simp only [Option.map_some, remove_reflect]
      rfl
  | replace command =>
    simp only [step, Command.reflect, replace, valid.ids.find_reflect]
    cases b.find command.orderId with
    | none => rfl
    | some x =>
      have hunits : x.2.reflect.units = x.2.units := rfl
      have hprice : command.newPrice.reflect = x.2.reflect.1 ↔ command.newPrice = x.2.1 :=
        Price.reflect_injective.eq_iff
      have htake := (b.remove command.orderId).take_reflect command.orderId x.1 .limit
        (some command.newPrice) command.newQuantity.units
      rw [Option.map_some] at htake
      simp only [Option.map_some, hunits, hprice, remove_reflect, htake, reduce_reflect,
        post_reflect]
      split_ifs <;> rfl

theorem run_reflect (commands : List Command) :
    run (commands.map Command.reflect) = (run commands).reflect ∧
      results (commands.map Command.reflect) = (results commands).map Result.reflect := by
  induction commands using List.reverseRecOn with
  | nil => exact ⟨rfl, rfl⟩
  | append_singleton commands c ih =>
    have hstep := step_reflect (run_valid commands) c
    obtain ⟨hrun, hresults⟩ := ih
    rw [← hrun] at hstep
    rw [List.map_append, List.map_singleton]
    simp only [run, results, Transducer.run_concat, Transducer.outputs_concat, List.map_append,
      List.map_singleton] at hresults hstep ⊢
    rw [hstep, hresults]
    exact ⟨rfl, rfl⟩

end PriorityBook

/-! ## Depth -/

def LevelQuote.reflect (quote : LevelQuote) : LevelQuote :=
  { quote with price := quote.price.reflect }

theorem aggregate_reflect (side : Side) (es : List (Price × Quantity)) :
    aggregate side.contra (es.map (Prod.map Price.reflect id)) =
      (aggregate side es).map (Prod.map Price.reflect id) := by
  induction es using List.reverseRecOn with
  | nil => rfl
  | append_singleton es e ih =>
    simp only [aggregate, List.map_append, List.map_singleton, List.foldl_append, List.foldl_cons,
      List.foldl_nil] at ih ⊢
    rw [ih]
    exact OrderedMap.upsert_map_keys Price.reflect_injective side.before_reflect _ _ _ _

namespace OrderBook

/-- The quotes of a side, when the view is that of the other book with the sides swapped. -/
theorem quotes_reflect {b b' : OrderBook} (inv : b.Inv) (inv' : b'.Inv)
    (hview : b'.view = b.view.reflect) (side : Side) :
    (b'.levels side.contra).map quote = ((b.levels side).map quote).map LevelQuote.reflect := by
  have hpriced : (b'.view.orders side.contra).map Entry.priced =
      ((b.view.orders side).map Entry.priced).map (Prod.map Price.reflect id) := by
    rw [hview, PriorityBook.orders_reflect, Side.contra_contra, List.map_map, List.map_map]
    rfl
  rw [quotes_eq inv', quotes_eq inv, hpriced, aggregate_reflect, List.map_map, List.map_map]
  rfl

theorem depth_reflect (commands : List Command) (maxDepth : Nat) :
    (run (commands.map Command.reflect)).bidDepth maxDepth =
      ((run commands).askDepth maxDepth).map LevelQuote.reflect ∧
    (run (commands.map Command.reflect)).askDepth maxDepth =
      ((run commands).bidDepth maxDepth).map LevelQuote.reflect := by
  have hview : (run (commands.map Command.reflect)).view = (run commands).view.reflect := by
    rw [(run_view _).1, (run_view _).1, (PriorityBook.run_reflect commands).1]
  have hquotes := quotes_reflect (run_inv commands) (run_inv (commands.map Command.reflect)) hview
  have hsell := hquotes .sell
  have hbuy := hquotes .buy
  simp only [levels, Side.contra] at hsell hbuy
  refine ⟨?_, ?_⟩
  · rw [bidDepth, askDepth, List.map_take, hsell, List.map_take, List.map_take]
  · rw [bidDepth, askDepth, List.map_take, hbuy, List.map_take, List.map_take]

/-- The swapped commands return the swapped results, and after each of them the depth of each
side is that of the other side, with the prices swapped. -/
theorem run_reflected (commands : List Command) :
    results (commands.map Command.reflect) = (results commands).map Result.reflect ∧
    ∀ n maxDepth,
      (run ((commands.map Command.reflect).take n)).bidDepth maxDepth =
        ((run (commands.take n)).askDepth maxDepth).map LevelQuote.reflect ∧
      (run ((commands.map Command.reflect).take n)).askDepth maxDepth =
        ((run (commands.take n)).bidDepth maxDepth).map LevelQuote.reflect := by
  refine ⟨?_, fun n maxDepth => ?_⟩
  · rw [(run_view _).2, (run_view _).2, (PriorityBook.run_reflect commands).2]
  · rw [← List.map_take]
    exact depth_reflect (commands.take n) maxDepth

end OrderBook

end LowLatencyExchange
