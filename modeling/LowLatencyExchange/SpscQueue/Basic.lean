import LowLatencyExchange.Library.RingIndex
import LowLatencyExchange.Library.Transducer
import Mathlib.Logic.Function.Basic
import Mathlib.Tactic

/-!
# The single-producer single-consumer queue

`BoundedSPSCQueue` of `spsc_queue.hpp`, with one producer and one consumer that take turns in
any order. A call of `try_push` or `try_pop` is a sequence of steps: each load of an index,
each comparison with a cached index, the access to the slot and the store of an index is a step
of its own, and the other thread may run between any two of them.
-/
namespace LowLatencyExchange

/-- `std::array<T, Capacity>` is a function on the slots. -/
structure BoundedSPSCQueue (c : RingCapacity) (T : Type*) where
  buffer : Fin c.value → T
  writeIndex : UInt64
  cachedReadIndex : UInt64
  readIndex : UInt64
  cachedWriteIndex : UInt64

def BoundedSPSCQueue.new (c : RingCapacity) (T : Type*) [Inhabited T] : BoundedSPSCQueue c T :=
  ⟨fun _ => default, 0, 0, 0, 0⟩

/-- What the producer does next in `try_push`. `held` is the number of elements in the queue when
the read index was loaded. -/
inductive Producer (T : Type*) where
  | idle
  | loadWrite (item : T)
  | check (item : T) (currentWrite : UInt64)
  | loadRead (item : T) (currentWrite : UInt64)
  | recheck (item : T) (currentWrite : UInt64) (held : Nat)
  | writeSlot (item : T) (currentWrite : UInt64)
  | storeWrite (item : T) (currentWrite : UInt64)

/-- What the consumer does next in `try_pop`. `held` is the number of elements in the queue when
the write index was loaded. -/
inductive Consumer (T : Type*) where
  | idle
  | loadRead
  | check (currentRead : UInt64)
  | loadWrite (currentRead : UInt64)
  | recheck (currentRead : UInt64) (held : Nat)
  | readSlot (currentRead : UInt64)
  | storeRead (currentRead : UInt64) (out : T)

/-- `left` is what is left in a slot whose element was moved out, which is not specified. -/
inductive SpscEvent (T : Type*) where
  | tryPush (item : T)
  | producer
  | tryPop
  | consumer (left : T)

/-- The queue, where its two threads are, and what has happened: the values of the pushes and
pops that returned true, the slots with an element that was stored and not yet read, and the
elements that the queue held at the deciding load of each call that returned false. -/
structure SpscRun (c : RingCapacity) (T : Type*) where
  queue : BoundedSPSCQueue c T
  producer : Producer T
  consumer : Consumer T
  pushed : List T
  popped : List T
  unread : Fin c.value → Bool
  refusedPushes : List Nat
  refusedPops : List Nat

namespace SpscRun

variable {c : RingCapacity} {T : Type*}

def start (c : RingCapacity) (T : Type*) [Inhabited T] : SpscRun c T :=
  ⟨BoundedSPSCQueue.new c T, .idle, .idle, [], [], fun _ => false, [], []⟩

/-- The elements in the queue: pushed and not popped. -/
def held (s : SpscRun c T) : Nat := s.pushed.length - s.popped.length

/-- `current_write - cached_read_index_ >= Capacity` -/
def full (s : SpscRun c T) (currentWrite : UInt64) : Bool :=
  UInt64.ofNat c.value ≤ currentWrite - s.queue.cachedReadIndex

def stepProducer (s : SpscRun c T) : SpscRun c T :=
  match s.producer with
  | .idle => s
  | .loadWrite item => { s with producer := .check item s.queue.writeIndex }
  | .check item currentWrite =>
    if s.full currentWrite then { s with producer := .loadRead item currentWrite }
    else { s with producer := .writeSlot item currentWrite }
  | .loadRead item currentWrite =>
    { s with
      queue := { s.queue with cachedReadIndex := s.queue.readIndex }
      producer := .recheck item currentWrite s.held }
  | .recheck item currentWrite held =>
    if s.full currentWrite then
      { s with producer := .idle, refusedPushes := s.refusedPushes ++ [held] }
    else { s with producer := .writeSlot item currentWrite }
  | .writeSlot item currentWrite =>
    { s with
      queue := { s.queue with
        buffer := Function.update s.queue.buffer (c.slot currentWrite) item }
      unread := Function.update s.unread (c.slot currentWrite) true
      producer := .storeWrite item currentWrite }
  | .storeWrite item currentWrite =>
    { s with
      queue := { s.queue with writeIndex := currentWrite + 1 }
      pushed := s.pushed ++ [item]
      producer := .idle }

def stepConsumer (s : SpscRun c T) (left : T) : SpscRun c T :=
  match s.consumer with
  | .idle => s
  | .loadRead => { s with consumer := .check s.queue.readIndex }
  | .check currentRead =>
    if currentRead = s.queue.cachedWriteIndex then { s with consumer := .loadWrite currentRead }
    else { s with consumer := .readSlot currentRead }
  | .loadWrite currentRead =>
    { s with
      queue := { s.queue with cachedWriteIndex := s.queue.writeIndex }
      consumer := .recheck currentRead s.held }
  | .recheck currentRead held =>
    if currentRead = s.queue.cachedWriteIndex then
      { s with consumer := .idle, refusedPops := s.refusedPops ++ [held] }
    else { s with consumer := .readSlot currentRead }
  | .readSlot currentRead =>
    { s with
      queue := { s.queue with
        buffer := Function.update s.queue.buffer (c.slot currentRead) left }
      unread := Function.update s.unread (c.slot currentRead) false
      consumer := .storeRead currentRead (s.queue.buffer (c.slot currentRead)) }
  | .storeRead currentRead out =>
    { s with
      queue := { s.queue with readIndex := currentRead + 1 }
      popped := s.popped ++ [out]
      consumer := .idle }

/-- A thread makes its next call when it has returned from the last one. -/
def step (s : SpscRun c T) : SpscEvent T → SpscRun c T
  | .tryPush item =>
    match s.producer with
    | .idle => { s with producer := .loadWrite item }
    | _ => s
  | .producer => s.stepProducer
  | .tryPop =>
    match s.consumer with
    | .idle => { s with consumer := .loadRead }
    | _ => s
  | .consumer left => s.stepConsumer left

def run (c : RingCapacity) [Inhabited T] (events : List (SpscEvent T)) : SpscRun c T :=
  Transducer.run (fun s event => (step s event, ())) (start c T) events

end SpscRun

end LowLatencyExchange
