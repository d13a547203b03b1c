import LowLatencyExchange.Benchmark.Workload
import LowLatencyExchange.Engine.Accounting
import LowLatencyExchange.Library.Shards
import LowLatencyExchange.Observability.Histogram
import Mathlib.Tactic

/-!
# The core benchmark

`run_core_benchmark`: a workload on one book for each symbol, with neither queue nor gateway. The
clock is a parameter, the nanoseconds that each command took; what is derived from the time of the
whole run is left out. An index that names no book is undefined behaviour, and a vector cannot hold
more than `max_size()` books. Neither gives a result.
-/
namespace LowLatencyExchange.Benchmark

open MatchingEngineService

structure BenchmarkResult where
  commands : UInt64 := 0
  acceptedCommands : UInt64 := 0
  rejectedCommands : UInt64 := 0
  acceptedCancels : UInt64 := 0
  rejectedCancels : UInt64 := 0
  executions : UInt64 := 0
  inboundBytes : UInt64 := 0
  outboundBytes : UInt64 := 0
  inboundQueueHighWater : UInt64 := 0
  outboundQueueHighWater : UInt64 := 0
  latency : LatencyHistogramSnapshot := ⟨Vector.replicate _ 0, 0, 0, 0⟩

def apply (book : OrderBook) (command : Command) (result : BenchmarkResult) :
    OrderBook × BenchmarkResult × Bool :=
  match command with
  | .submit order =>
    let (book, submission) := book.submit order
    (book,
      { result with executions := result.executions + UInt64.ofNat submission.executions.length },
      submission.rejection.isNone)
  | .cancel order =>
    let (book, cancellation) := book.cancel order
    (book,
      if cancellation.rejection.isNone then
        { result with acceptedCancels := result.acceptedCancels + 1 }
      else { result with rejectedCancels := result.rejectedCancels + 1 },
      cancellation.rejection.isNone)
  | .replace order =>
    let (book, replacement) := book.replace order
    (book,
      { result with executions := result.executions + UInt64.ofNat replacement.executions.length },
      replacement.rejection.isNone)

/-- `run_warmup`, with the books that it throws away. -/
def runWarmup (workload : List WorkloadCommand) (symbolCount count : Nat) :
    Option (List OrderBook) :=
  (workload.take (min count workload.length)).foldlM
    (fun books item => do
      let book ← books[item.symbolIndex.toNat]?
      some (books.set item.symbolIndex.toNat (apply book item.command {}).1))
    (List.replicate symbolCount OrderBook.empty)

/-- The variables of the measured loop. -/
structure Measured where
  books : List OrderBook
  histogram : LatencyHistogram := {}
  result : BenchmarkResult := {}

def measure (nanoseconds : UInt64) (m : Measured) (item : WorkloadCommand) : Option Measured := do
  let book ← m.books[item.symbolIndex.toNat]?
  let (book, result, accepted) := apply book item.command m.result
  some {
    books := m.books.set item.symbolIndex.toNat book
    histogram := m.histogram.observe nanoseconds
    result :=
      if accepted then { result with acceptedCommands := result.acceptedCommands + 1 }
      else { result with rejectedCommands := result.rejectedCommands + 1 } }

def measureAll (nanoseconds : Nat → UInt64) :
    Nat → List WorkloadCommand → Measured → Option Measured
  | _, [], m => some m
  | index, item :: items, m =>
    (measure (nanoseconds index) m item).bind (measureAll nanoseconds (index + 1) items)

/-- `maxBooks` is the `max_size()` of the vector of books, whose constructor throws above it. -/
def runCoreBenchmark (maxBooks : UInt64) (workload : List WorkloadCommand)
    (symbolCount warmupCommands : UInt64) (nanoseconds : Nat → UInt64) :
    Option BenchmarkResult :=
  if workload.isEmpty || symbolCount == 0 then some {}
  else if maxBooks < symbolCount then none
  else do
    let _ ← runWarmup workload symbolCount.toNat warmupCommands.toNat
    let m ← measureAll nanoseconds 0 workload
      { books := List.replicate symbolCount.toNat OrderBook.empty }
    some { m.result with
      commands := UInt64.ofNat workload.length
      latency := m.histogram.snapshot }

/-! ## One book for each symbol -/

/-- The commands with the books they are for. -/
def keyed (workload : List WorkloadCommand) : List (Nat × Command) :=
  workload.map fun item => (item.symbolIndex.toNat, item.command)

/-- The commands of one symbol. -/
def commandsAt (workload : List WorkloadCommand) (symbol : Nat) : List Command :=
  Transducer.inputsAt symbol (keyed workload)

/-- What is counted for each command and its result, over the books of all symbols. -/
def total (symbolCount : Nat) (w : Command → Result → Nat) (workload : List WorkloadCommand) : Nat :=
  ∑ symbol ∈ Finset.range symbolCount,
    ((OrderBook.trace (commandsAt workload symbol)).map fun x => w x.1 x.2).sum

def InRange (symbolCount : Nat) (workload : List WorkloadCommand) : Prop :=
  ∀ item ∈ workload, item.symbolIndex.toNat < symbolCount

/-- The books after some commands. -/
def booksAfter (symbolCount : Nat) (workload : List WorkloadCommand) : List OrderBook :=
  Transducer.run (Transducer.shardStep OrderBook.step) (List.replicate symbolCount OrderBook.empty)
    (keyed workload)

variable {symbolCount : Nat} {workload : List WorkloadCommand}

theorem booksAfter_get {symbol : Nat} (h : symbol < symbolCount) :
    (booksAfter symbolCount workload)[symbol]? =
      some (OrderBook.run (commandsAt workload symbol)) := by
  rw [booksAfter, Transducer.run_shards, List.getElem?_replicate, if_pos h]
  rfl

theorem booksAfter_concat (item : WorkloadCommand) (h : item.symbolIndex.toNat < symbolCount) :
    booksAfter symbolCount (workload ++ [item]) =
      (booksAfter symbolCount workload).set item.symbolIndex.toNat
        ((OrderBook.run (commandsAt workload item.symbolIndex.toNat)).step item.command).1 := by
  have hget := @booksAfter_get symbolCount workload _ h
  rw [booksAfter, keyed, List.map_append, List.map_singleton, Transducer.run_concat]
  change (Transducer.shardStep OrderBook.step (booksAfter symbolCount workload) _).1 = _
  simp only [Transducer.shardStep, hget]

/-- A command counts on its own book. -/
theorem total_concat (w : Command → Result → Nat) (item : WorkloadCommand)
    (h : item.symbolIndex.toNat < symbolCount) :
    total symbolCount w (workload ++ [item]) = total symbolCount w workload +
      w item.command
        ((OrderBook.run (commandsAt workload item.symbolIndex.toNat)).step item.command).2 := by
  have hsum := fun is => Transducer.sum_shards OrderBook.step w OrderBook.empty symbolCount is
  have hget := @booksAfter_get symbolCount workload _ h
  have htotal : ∀ workload, total symbolCount w workload = _ := fun workload =>
    (hsum (keyed workload)).symm
  rw [htotal, htotal, keyed, List.map_append, List.map_singleton, Transducer.trace_concat,
    List.map_append, List.sum_append]
  congr 1
  change (Transducer.shardStep OrderBook.step (booksAfter symbolCount workload) _).2.elim 0 _ + 0 = _
  simp only [Transducer.shardStep, hget]
  rfl

/-! ## The counters -/

def isAccepted (_ : Command) (r : Result) : Nat := r.accepted.toNat
def isRejected (_ : Command) (r : Result) : Nat := (!r.accepted).toNat
def isAcceptedCancel (c : Command) (r : Result) : Nat := (isCancel c && r.accepted).toNat
def isRejectedCancel (c : Command) (r : Result) : Nat := (isCancel c && !r.accepted).toNat
def executionsOf (_ : Command) (r : Result) : Nat := r.executions.length

theorem apply_eq (book : OrderBook) (command : Command) (result : BenchmarkResult) :
    apply book command result =
      ((book.step command).1,
        { result with
          acceptedCancels := increment result.acceptedCancels
            (isCancel command && (book.step command).2.accepted)
          rejectedCancels := increment result.rejectedCancels
            (isCancel command && !(book.step command).2.accepted)
          executions := result.executions + UInt64.ofNat (book.step command).2.executions.length },
        (book.step command).2.accepted) := by
  cases command with
  | submit order => rfl
  | replace order => rfl
  | cancel order =>
    have hnone : result.executions = result.executions + UInt64.ofNat 0 := by simp
    simp only [apply, OrderBook.step, Result.accepted, Result.executions, isCancel, Bool.true_and,
      List.length_nil, ← hnone]
    cases (book.cancel order).2.rejection.isNone <;> rfl

/-- The variables of the measured loop after some commands. -/
structure MeasuredInv (symbolCount : Nat) (nanoseconds : Nat → UInt64)
    (measured : List WorkloadCommand) (m : Measured) : Prop where
  books : m.books = booksAfter symbolCount measured
  histogram : m.histogram =
    LatencyHistogram.observeAll ((List.range measured.length).map nanoseconds)
  acceptedCommands : m.result.acceptedCommands = UInt64.ofNat (total symbolCount isAccepted measured)
  rejectedCommands : m.result.rejectedCommands = UInt64.ofNat (total symbolCount isRejected measured)
  acceptedCancels :
    m.result.acceptedCancels = UInt64.ofNat (total symbolCount isAcceptedCancel measured)
  rejectedCancels :
    m.result.rejectedCancels = UInt64.ofNat (total symbolCount isRejectedCancel measured)
  executions : m.result.executions = UInt64.ofNat (total symbolCount executionsOf measured)
  rest : m.result.inboundBytes = 0 ∧ m.result.outboundBytes = 0 ∧
    m.result.inboundQueueHighWater = 0 ∧ m.result.outboundQueueHighWater = 0

theorem measuredInv_start (symbolCount : Nat) (nanoseconds : Nat → UInt64) :
    MeasuredInv symbolCount nanoseconds []
      { books := List.replicate symbolCount OrderBook.empty } := by
  have hzero : ∀ w, total symbolCount w [] = 0 := fun w => by
    simp [total, commandsAt, keyed, Transducer.inputsAt, OrderBook.trace, Transducer.trace]
  refine ⟨rfl, rfl, ?_, ?_, ?_, ?_, ?_, rfl, rfl, rfl, rfl⟩ <;> rw [hzero] <;> rfl

theorem measure_eq {m : Measured} {item : WorkloadCommand} {book : OrderBook}
    (hbook : m.books[item.symbolIndex.toNat]? = some book) (nanoseconds : UInt64) :
    measure nanoseconds m item =
      some {
        books := m.books.set item.symbolIndex.toNat (book.step item.command).1
        histogram := m.histogram.observe nanoseconds
        result := { m.result with
          acceptedCommands :=
            increment m.result.acceptedCommands (book.step item.command).2.accepted
          rejectedCommands :=
            increment m.result.rejectedCommands (!(book.step item.command).2.accepted)
          acceptedCancels := increment m.result.acceptedCancels
            (isCancel item.command && (book.step item.command).2.accepted)
          rejectedCancels := increment m.result.rejectedCancels
            (isCancel item.command && !(book.step item.command).2.accepted)
          executions := m.result.executions +
            UInt64.ofNat (book.step item.command).2.executions.length } } := by
  simp only [measure, hbook, Option.bind_eq_bind, Option.bind_some, apply_eq]
  cases (book.step item.command).2.accepted <;> rfl

theorem MeasuredInv.measure {nanoseconds : Nat → UInt64} {measured : List WorkloadCommand}
    {m : Measured} (h : MeasuredInv symbolCount nanoseconds measured m) (item : WorkloadCommand)
    (hitem : item.symbolIndex.toNat < symbolCount) :
    ∃ m', measure (nanoseconds measured.length) m item = some m' ∧
      MeasuredInv symbolCount nanoseconds (measured ++ [item]) m' := by
  have hget := @booksAfter_get symbolCount measured _ hitem
  rw [← h.books] at hget
  refine ⟨_, measure_eq hget _, ?_, ?_, ?_, ?_, ?_, ?_, ?_, h.rest⟩
  · rw [booksAfter_concat item hitem, h.books]
  · rw [h.histogram, List.length_append, List.length_singleton, List.range_succ, List.map_append,
      LatencyHistogram.observeAll, LatencyHistogram.observeAll, List.foldl_append]
    rfl
  · rw [total_concat _ item hitem, isAccepted, ← increment_ofNat, ← h.acceptedCommands]
  · rw [total_concat _ item hitem, isRejected, ← increment_ofNat, ← h.rejectedCommands]
  · rw [total_concat _ item hitem, isAcceptedCancel, ← increment_ofNat, ← h.acceptedCancels]
  · rw [total_concat _ item hitem, isRejectedCancel, ← increment_ofNat, ← h.rejectedCancels]
  · rw [total_concat _ item hitem, executionsOf, UInt64.ofNat_add, ← h.executions]

theorem measureAll_inv {nanoseconds : Nat → UInt64} {measured : List WorkloadCommand}
    {m : Measured} (h : MeasuredInv symbolCount nanoseconds measured m)
    {items : List WorkloadCommand} (hrange : InRange symbolCount items) :
    ∃ m', measureAll nanoseconds measured.length items m = some m' ∧
      MeasuredInv symbolCount nanoseconds (measured ++ items) m' := by
  induction items generalizing measured m with
  | nil => exact ⟨m, rfl, by rwa [List.append_nil]⟩
  | cons item items ih =>
    obtain ⟨hitem, hitems⟩ := List.forall_mem_cons.mp hrange
    obtain ⟨mid, hmid, hinv⟩ := h.measure item hitem
    obtain ⟨m', hrun, hinv'⟩ := ih hinv hitems
    rw [List.length_append, List.length_singleton] at hrun
    rw [List.append_assoc, List.singleton_append] at hinv'
    exact ⟨m', by rw [measureAll, hmid, Option.bind_some, hrun], hinv'⟩

/-- The warm-up runs on books of its own. -/
theorem runWarmup_isSome (hrange : InRange symbolCount workload) (count : Nat) :
    ∃ books, runWarmup workload symbolCount count = some books := by
  have hwarm : ∀ (items : List WorkloadCommand) (books : List OrderBook),
      InRange symbolCount items → books.length = symbolCount →
      ∃ books', items.foldlM (fun books item => do
        let book ← books[item.symbolIndex.toNat]?
        some (books.set item.symbolIndex.toNat (apply book item.command {}).1)) books =
          some books' := by
    intro items
    induction items with
    | nil => exact fun books _ _ => ⟨books, rfl⟩
    | cons item items ih =>
      intro books hrange hlength
      obtain ⟨hitem, hitems⟩ := List.forall_mem_cons.mp hrange
      have hget := List.getElem?_eq_getElem (hlength ▸ hitem)
      obtain ⟨books', hrest⟩ := ih (books.set item.symbolIndex.toNat
        (apply books[item.symbolIndex.toNat] item.command {}).1) hitems
        (List.length_set.trans hlength)
      refine ⟨books', ?_⟩
      rw [List.foldlM_cons, hget]
      exact hrest
  exact hwarm _ _ (fun item hitem => hrange item (List.mem_of_mem_take hitem))
    List.length_replicate

theorem runCoreBenchmark_measured {maxBooks symbolCount : UInt64} (warmup : UInt64)
    (nanoseconds : Nat → UInt64) (hworkload : workload ≠ [])
    (hrange : InRange symbolCount.toNat workload) (hbooks : symbolCount ≤ maxBooks) :
    ∃ m, MeasuredInv symbolCount.toNat nanoseconds workload m ∧
      runCoreBenchmark maxBooks workload symbolCount warmup nanoseconds =
        some { m.result with
          commands := UInt64.ofNat workload.length
          latency := m.histogram.snapshot } := by
  obtain ⟨books, hwarm⟩ := runWarmup_isSome hrange warmup.toNat
  obtain ⟨m, hrun, hinv⟩ := measureAll_inv (measuredInv_start symbolCount.toNat nanoseconds) hrange
  rw [List.nil_append] at hinv
  have hcount : (symbolCount == 0) = false := by
    rw [beq_eq_false_iff_ne]
    rintro rfl
    obtain ⟨item, hitem⟩ := List.exists_mem_of_ne_nil workload hworkload
    exact absurd (hrange item hitem) (Nat.not_lt_zero _)
  refine ⟨m, hinv, ?_⟩
  rw [runCoreBenchmark, hcount, Bool.or_false, if_neg (by simpa using hworkload),
    if_neg (UInt64.not_lt.mpr hbooks)]
  rw [List.length_nil] at hrun
  simp only [hwarm, hrun, Option.bind_eq_bind, Option.bind_some]

/-- The core benchmark runs every symbol on its own, whatever the others do and whatever the
warm-up was: what it counts is the sum of what the commands of each symbol give on a book that
takes no other commands. -/
theorem core_benchmark_exact (maxBooks : UInt64) (workload : List WorkloadCommand)
    (symbolCount warmup : UInt64) (nanoseconds : Nat → UInt64) (hworkload : workload ≠ [])
    (hrange : InRange symbolCount.toNat workload) (hbooks : symbolCount ≤ maxBooks) :
    ∃ result, runCoreBenchmark maxBooks workload symbolCount warmup nanoseconds = some result ∧
      result.commands = UInt64.ofNat workload.length ∧
      result.acceptedCommands = UInt64.ofNat (total symbolCount.toNat isAccepted workload) ∧
      result.rejectedCommands = UInt64.ofNat (total symbolCount.toNat isRejected workload) ∧
      result.acceptedCancels = UInt64.ofNat (total symbolCount.toNat isAcceptedCancel workload) ∧
      result.rejectedCancels = UInt64.ofNat (total symbolCount.toNat isRejectedCancel workload) ∧
      result.executions = UInt64.ofNat (total symbolCount.toNat executionsOf workload) ∧
      result.latency = (LatencyHistogram.observeAll
        ((List.range workload.length).map nanoseconds)).snapshot := by
  obtain ⟨m, h, hresult⟩ := runCoreBenchmark_measured warmup nanoseconds hworkload hrange hbooks
  exact ⟨_, hresult, rfl, h.acceptedCommands, h.rejectedCommands, h.acceptedCancels,
    h.rejectedCancels, h.executions, congrArg LatencyHistogram.snapshot h.histogram⟩

/-- Two symbols use the same id, and trade apart. -/
def twoSymbols : List WorkloadCommand :=
  [⟨0, .submit ⟨SequenceNumber.of 1, OrderId.of 1, .sell, .limit, Quantity.of 5, some (Price.of 100)⟩⟩,
    ⟨1, .submit ⟨SequenceNumber.of 2, OrderId.of 1, .buy, .limit, Quantity.of 5, some (Price.of 100)⟩⟩,
    ⟨0, .cancel ⟨SequenceNumber.of 3, OrderId.of 1⟩⟩, ⟨1, .cancel ⟨SequenceNumber.of 4, OrderId.of 2⟩⟩]

theorem twoSymbols_exact : ∃ result,
    runCoreBenchmark 1000 twoSymbols 2 4 (fun _ => 7) = some result ∧
    result.acceptedCommands = 3 ∧ result.rejectedCancels = 1 ∧ result.executions = 0 := by
  obtain ⟨result, hresult, -, haccepted, -, -, hrejected, hexecutions, -⟩ :=
    core_benchmark_exact 1000 twoSymbols 2 4 (fun _ => 7) (by decide) (by unfold InRange; decide)
      (by decide)
  refine ⟨result, hresult, haccepted.trans ?_, hrejected.trans ?_, hexecutions.trans ?_⟩ <;>
    decide +kernel

end LowLatencyExchange.Benchmark
