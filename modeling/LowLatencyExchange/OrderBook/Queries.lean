import LowLatencyExchange.OrderBook.Basic
import Mathlib.Tactic

/-!
# Queries on a book

The read-only half of `order_book.cpp`: quotes, depth, the self-check and the digest.
-/
namespace LowLatencyExchange

/-- The source stores `*Quantity::from_units(units)`. Dereferencing it is undefined when the
units are zero, so a quote keeps the argument and `quantity` is the optional. -/
structure LevelQuote where
  price : Price
  units : UInt64
  orderCount : Nat
  deriving DecidableEq

def LevelQuote.quantity (quote : LevelQuote) : Option Quantity :=
  Quantity.fromUnits quote.units.toNat

structure BookDepth where
  bids : List LevelQuote
  asks : List LevelQuote
  deriving DecidableEq

namespace OrderBook

def bestBid (b : OrderBook) : Option Price := b.bids.head?.map Prod.fst
def bestAsk (b : OrderBook) : Option Price := b.asks.head?.map Prod.fst

def quote (e : Price × PriceLevel) : LevelQuote := ⟨e.1, e.2.totalUnits, e.2.orders.length⟩

def topBid (b : OrderBook) : Option LevelQuote := b.bids.head?.map quote
def topAsk (b : OrderBook) : Option LevelQuote := b.asks.head?.map quote

def bidDepth (b : OrderBook) (maxDepth : Nat) : List LevelQuote := (b.bids.take maxDepth).map quote
def askDepth (b : OrderBook) (maxDepth : Nat) : List LevelQuote := (b.asks.take maxDepth).map quote

def depth (b : OrderBook) (maxDepth : Nat) : BookDepth := ⟨b.bidDepth maxDepth, b.askDepth maxDepth⟩

/-- One loop of `copy_depth` into a span of `size` slots, which are all reset first. -/
def copyLevels (ls : Levels) (size : Nat) : List (Option LevelQuote) :=
  (ls.take size).map (fun e => some (quote e)) ++ List.replicate (size - ls.length) none

def copyDepth (b : OrderBook) (bidSize askSize : Nat) :
    List (Option LevelQuote) × List (Option LevelQuote) :=
  (copyLevels b.bids bidSize, copyLevels b.asks askSize)

def contains (b : OrderBook) (orderId : OrderId) : Bool := orderId ∈ b.restingOrders

/-! ## The self-check -/

def countedUnits (orders : List Node) : UInt64 :=
  orders.foldl (fun counted n => counted + UInt64.ofNat n.order.units) 0

/-- The index entry of a queued order is there, with its side and price, and its iterator
reads the same id. -/
def indexedAt (b : OrderBook) (side : Side) (price : Price) (n : Node) : Bool :=
  match b.restingOrders.lookup n.order.orderId with
  | none => false
  | some loc => loc.side = side && loc.price = price &&
      (b.deref loc.it).any (fun order => order.orderId = n.order.orderId)

def validateLevels (b : OrderBook) (side : Side) (ls : Levels) : Bool :=
  ls.all (fun e => !e.2.orders.isEmpty && e.2.totalUnits != 0 &&
    e.2.orders.all (b.indexedAt side e.1) && countedUnits e.2.orders == e.2.totalUnits)

def validateInvariants (b : OrderBook) : Bool :=
  let crossed : Bool :=
    match b.bestBid, b.bestAsk with
    | some bid, some ask => ask ≤ bid
    | _, _ => false
  let totalOrders := ((b.bids ++ b.asks).map (fun e => e.2.orders.length)).sum
  !crossed && b.validateLevels .buy b.bids && b.validateLevels .sell b.asks &&
    totalOrders == b.restingOrderCount && totalOrders == b.restingOrders.keys.card

/-! ## The digest -/

def fnvOffsetBasis : UInt64 := 14695981039346656037
def fnvPrime : UInt64 := 1099511628211

def hashU64 (value hash : UInt64) : UInt64 :=
  (List.range 8).foldl
    (fun hash byte => (hash ^^^ ((value >>> UInt64.ofNat (byte * 8)) &&& 0xFF)) * fnvPrime) hash

def sideWord : Side → UInt64
  | .buy => 0
  | .sell => 1

def orderWords (n : Node) : List UInt64 :=
  [UInt64.ofNat n.order.orderId.value, UInt64.ofNat n.order.sequence.value,
    UInt64.ofNat n.order.units]

def levelWords (e : Price × PriceLevel) : List UInt64 :=
  [UInt64.ofNat e.1.ticks.toNat, e.2.totalUnits, UInt64.ofNat e.2.orders.length] ++
    e.2.orders.flatMap orderWords

def sideWords (side : Side) (ls : Levels) : List UInt64 :=
  [sideWord side, UInt64.ofNat ls.length] ++ ls.flatMap levelWords

/-- The words `state_digest` feeds to `hash_u64`, in order. -/
def digestWords (b : OrderBook) : List UInt64 :=
  sideWords .buy b.bids ++ sideWords .sell b.asks ++ [UInt64.ofNat b.restingOrderCount]

def stateDigest (b : OrderBook) : UInt64 :=
  b.digestWords.foldl (fun hash word => hashU64 word hash) fnvOffsetBasis

end OrderBook

end LowLatencyExchange
