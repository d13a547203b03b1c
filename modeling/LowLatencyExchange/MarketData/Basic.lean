import LowLatencyExchange.OrderBook.Queries
import LowLatencyExchange.Library.BoundedFifo
import LowLatencyExchange.Library.Transducer
import Mathlib.Tactic

/-!
# Market data

The producer and the consumer of `market_data.cpp`. `publish` makes an event from the depth
of the book and drops it when the bounded queue is full; the next event that is queued is
then a snapshot. A subscriber takes every snapshot, and an update only if its sequence number
is the next one.
-/
namespace LowLatencyExchange

def kMarketDataDepth : Nat := 5

/-- The level quantity is kept as its units, as in `LevelQuote`. -/
structure MarketDataLevel where
  price : Price
  units : UInt64
  orderCount : Nat
  deriving DecidableEq

/-- `kMarketDataDepth` slots. -/
abbrev MarketDataDepth := List (Option MarketDataLevel)

inductive MarketDataEventKind where
  | snapshot | depthUpdate
  deriving DecidableEq, Repr

structure MarketDataEvent where
  sequence : Option FeedSequence
  kind : MarketDataEventKind
  bids : MarketDataDepth
  asks : MarketDataDepth
  deriving DecidableEq

abbrev MarketDataQueue := BoundedFifo 1024 MarketDataEvent

def toMarketDataLevel (level : LevelQuote) : MarketDataLevel :=
  ⟨level.price, level.units, level.orderCount⟩

/-- `previous` is not the largest 64-bit number, and `current` is the next one. -/
def isNextSequence (previous current : FeedSequence) : Bool :=
  previous.value ≠ 2 ^ 64 - 1 && current.value = previous.value + 1

/-! ## The feed -/

structure MarketDataFeed where
  nextSequence : Nat
  snapshotInterval : Nat
  updatesSinceSnapshot : Nat
  publishedEvents : UInt64
  droppedEvents : UInt64
  maxQueueOccupancy : Nat
  snapshotPending : Bool
  deriving DecidableEq

namespace MarketDataFeed

def new (snapshotInterval : Nat) : MarketDataFeed :=
  ⟨1, max snapshotInterval 1, 0, 0, 0, 0, true⟩

def makeEvent (book : OrderBook) (kind : MarketDataEventKind) (sequence : FeedSequence) :
    MarketDataEvent :=
  let levels := book.copyDepth kMarketDataDepth kMarketDataDepth
  ⟨some sequence, kind, levels.1.map (Option.map toMarketDataLevel),
    levels.2.map (Option.map toMarketDataLevel)⟩

def recordQueueOccupancy (feed : MarketDataFeed) (queue : MarketDataQueue) : MarketDataFeed :=
  { feed with maxQueueOccupancy := max feed.maxQueueOccupancy queue.size }

def nextKind (feed : MarketDataFeed) : MarketDataEventKind :=
  if feed.snapshotPending then .snapshot else .depthUpdate

/-- The feed's counters after an event was queued. -/
def recordPublished (feed : MarketDataFeed) (kind : MarketDataEventKind) : MarketDataFeed :=
  match kind with
  | .snapshot => { feed with snapshotPending := false, updatesSinceSnapshot := 0 }
  | .depthUpdate =>
    let feed := { feed with updatesSinceSnapshot := feed.updatesSinceSnapshot + 1 }
    if feed.snapshotInterval ≤ feed.updatesSinceSnapshot then
      { feed with snapshotPending := true }
    else feed

/-- The new feed and queue, and the event if it was queued. -/
def publish (feed : MarketDataFeed) (queue : MarketDataQueue) (book : OrderBook) :
    MarketDataFeed × MarketDataQueue × Option MarketDataEvent :=
  match FeedSequence.fromValue feed.nextSequence with
  | none =>
    ({ feed with droppedEvents := feed.droppedEvents + 1, snapshotPending := true }, queue, none)
  | some sequence =>
    if feed.nextSequence = 2 ^ 64 - 1 then
      ({ feed with droppedEvents := feed.droppedEvents + 1, snapshotPending := true }, queue, none)
    else
      let feed := { feed with nextSequence := feed.nextSequence + 1 }
      let event := makeEvent book feed.nextKind sequence
      match queue.tryPush event with
      | none =>
        let feed :=
          { feed with droppedEvents := feed.droppedEvents + 1, snapshotPending := true }
        (feed.recordQueueOccupancy queue, queue, none)
      | some queue =>
        let feed := { feed with publishedEvents := feed.publishedEvents + 1 }
        ((feed.recordQueueOccupancy queue).recordPublished event.kind, queue, some event)

end MarketDataFeed

/-! ## A subscriber -/

structure MarketDataBook where
  bids : MarketDataDepth
  asks : MarketDataDepth
  lastSequence : Option FeedSequence
  synchronized : Bool
  deriving DecidableEq

namespace MarketDataBook

def empty : MarketDataBook :=
  ⟨List.replicate kMarketDataDepth none, List.replicate kMarketDataDepth none, none, false⟩

/-- An event is valid when it has a sequence number. -/
def apply (b : MarketDataBook) (event : MarketDataEvent) : MarketDataBook × Bool :=
  match event.sequence with
  | none => (b, false)
  | some sequence =>
    match event.kind with
    | .snapshot => (⟨event.bids, event.asks, event.sequence, true⟩, true)
    | .depthUpdate =>
      if b.synchronized && b.lastSequence.any (fun last => isNextSequence last sequence) then
        ({ b with bids := event.bids, asks := event.asks, lastSequence := event.sequence }, true)
      else ({ b with synchronized := false }, false)

/-- The book after a list of events. -/
def applyAll (events : List MarketDataEvent) : MarketDataBook :=
  Transducer.run apply empty events

end MarketDataBook

/-- One call of `MarketDataPublisher::publish_one`; `none` if the queue is empty. -/
def publishOne (queue : MarketDataQueue) (subscriber : MarketDataBook) :
    Option (MarketDataEvent × MarketDataQueue × MarketDataBook × Bool) :=
  queue.tryPop.map fun (event, queue) => (event, queue, subscriber.apply event)

end LowLatencyExchange
