import LowLatencyExchange.SpscQueue.Basic

/-!
# The invariant of the queue

The indices count the pushes and the pops modulo `2 ^ 64`, and the cached indices are counts of
the past. What the producer still has to publish and the consumer still has to release is read
off from where the two threads are.
-/
namespace LowLatencyExchange

namespace Producer

variable {T : Type*}

/-- The slots that the producer may write before its next look at an index. -/
def reserved : Producer T → Nat
  | .writeSlot _ _ => 1
  | .storeWrite _ _ => 1
  | _ => 0

/-- The element that is in its slot and not yet published. -/
def inFlight : Producer T → List T
  | .storeWrite item _ => [item]
  | _ => []

/-- The local variables of the producer, when `pushes` elements were published and the cached
read index stands for `pops` elements. -/
def Local (pushes pops : Nat) : Producer T → Prop
  | .idle => True
  | .loadWrite _ => True
  | .check _ currentWrite => currentWrite = UInt64.ofNat pushes
  | .loadRead _ currentWrite => currentWrite = UInt64.ofNat pushes
  | .recheck _ currentWrite held => currentWrite = UInt64.ofNat pushes ∧ held + pops = pushes
  | .writeSlot _ currentWrite => currentWrite = UInt64.ofNat pushes
  | .storeWrite _ currentWrite => currentWrite = UInt64.ofNat pushes

end Producer

namespace Consumer

variable {T : Type*}

/-- The slots that the consumer may read before its next look at an index. -/
def claimed : Consumer T → Nat
  | .readSlot _ => 1
  | .storeRead _ _ => 1
  | _ => 0

/-- The element that is out of its slot, which is not yet released. -/
def inFlight : Consumer T → List T
  | .storeRead _ out => [out]
  | _ => []

/-- The local variables of the consumer, when `pops` slots were released and the cached write
index stands for `pushes` elements. -/
def Local (pops pushes : Nat) : Consumer T → Prop
  | .idle => True
  | .loadRead => True
  | .check currentRead => currentRead = UInt64.ofNat pops
  | .loadWrite currentRead => currentRead = UInt64.ofNat pops
  | .recheck currentRead held => currentRead = UInt64.ofNat pops ∧ held + pops = pushes
  | .readSlot currentRead => currentRead = UInt64.ofNat pops
  | .storeRead currentRead _ => currentRead = UInt64.ofNat pops

end Consumer

variable {c : RingCapacity} {T : Type*}

namespace SpscRun

/-- The elements that were ever in a slot. -/
def stored (s : SpscRun c T) : List T := s.pushed ++ s.producer.inFlight

/-- The elements that were ever taken out of a slot. -/
def taken (s : SpscRun c T) : List T := s.popped ++ s.consumer.inFlight

end SpscRun

/-- The cached indices stand for `pops` and `pushes` elements. -/
structure SpscInv (s : SpscRun c T) (pops pushes : Nat) : Prop where
  writeIndex : s.queue.writeIndex = UInt64.ofNat s.pushed.length
  readIndex : s.queue.readIndex = UInt64.ofNat s.popped.length
  cachedReadIndex : s.queue.cachedReadIndex = UInt64.ofNat pops
  cachedWriteIndex : s.queue.cachedWriteIndex = UInt64.ofNat pushes
  pops_le : pops ≤ s.popped.length
  pushes_le : pushes ≤ s.pushed.length
  room : s.pushed.length + s.producer.reserved ≤ pops + c.value
  filled : s.popped.length + s.consumer.claimed ≤ pushes
  producer : s.producer.Local s.pushed.length pops
  consumer : s.consumer.Local s.popped.length pushes
  taken : s.taken <+: s.pushed
  cells : RingCells c s.queue.buffer s.unread s.taken.length s.stored
  refusedPushes : ∀ n ∈ s.refusedPushes, n = c.value
  refusedPops : ∀ n ∈ s.refusedPops, n = 0

namespace SpscInv

variable {s : SpscRun c T} {pops pushes : Nat}

theorem start [Inhabited T] : SpscInv (SpscRun.start c T) 0 0 where
  writeIndex := rfl
  readIndex := rfl
  cachedReadIndex := rfl
  cachedWriteIndex := rfl
  pops_le := Nat.le_refl 0
  pushes_le := Nat.le_refl 0
  room := Nat.zero_le _
  filled := Nat.le_refl 0
  producer := trivial
  consumer := trivial
  taken := List.prefix_refl []
  cells := RingCells.empty _
  refusedPushes := by simp [SpscRun.start]
  refusedPops := by simp [SpscRun.start]

/-- The comparison of the producer is the one of the counts. -/
theorem full_iff (h : SpscInv s pops pushes) :
    s.full (UInt64.ofNat s.pushed.length) = true ↔ s.pushed.length = pops + c.value := by
  have hroom := h.room
  have hpops := h.pops_le
  have hpushes := h.pushes_le
  have hfilled := h.filled
  have hlt := c.lt
  rw [SpscRun.full, decide_eq_true_iff, h.cachedReadIndex,
    RingIndex.le_sub_iff (by omega) (by omega) hlt]
  omega

/-- The comparison of the consumer is the one of the counts. -/
theorem empty_iff (h : SpscInv s pops pushes) :
    UInt64.ofNat s.popped.length = s.queue.cachedWriteIndex ↔ s.popped.length = pushes := by
  have hroom := h.room
  have hpops := h.pops_le
  have hpushes := h.pushes_le
  have hfilled := h.filled
  have hlt := c.lt
  rw [h.cachedWriteIndex]
  exact RingIndex.ofNat_eq_iff (by omega) (by omega)

/-- The producer moves on to a step that needs no slot, or has found one. -/
theorem moveProducer (h : SpscInv s pops pushes) {producer : Producer T}
    (hroom : s.pushed.length + producer.reserved ≤ pops + c.value)
    (hlocal : producer.Local s.pushed.length pops)
    (hflight : producer.inFlight = s.producer.inFlight) :
    SpscInv { s with producer := producer } pops pushes :=
  { h with
    room := hroom
    producer := hlocal
    cells := by
      have hcells := h.cells
      rw [SpscRun.stored, ← hflight] at hcells
      exact hcells }

theorem moveConsumer (h : SpscInv s pops pushes) {consumer : Consumer T}
    (hfilled : s.popped.length + consumer.claimed ≤ pushes)
    (hlocal : consumer.Local s.popped.length pushes)
    (hflight : consumer.inFlight = s.consumer.inFlight) :
    SpscInv { s with consumer := consumer } pops pushes :=
  { h with
    filled := hfilled
    consumer := hlocal
    taken := by
      have htaken := h.taken
      rw [SpscRun.taken, ← hflight] at htaken
      exact htaken
    cells := by
      have hcells := h.cells
      rw [SpscRun.taken, ← hflight] at hcells
      exact hcells }

/-- A producer that does not find the queue full has a slot to write. -/
theorem reserve (h : SpscInv s pops pushes) (hflight : s.producer.inFlight = []) (item : T)
    (hfull : ¬ s.full (UInt64.ofNat s.pushed.length)) :
    SpscInv { s with producer := .writeSlot item (UInt64.ofNat s.pushed.length) } pops pushes := by
  have hroom := h.room
  rw [h.full_iff] at hfull
  refine h.moveProducer ?_ rfl hflight.symm
  rw [Producer.reserved]
  omega

/-- A consumer that does not find the queue empty has a slot to read. -/
theorem claim (h : SpscInv s pops pushes) (hflight : s.consumer.inFlight = [])
    (hempty : ¬ UInt64.ofNat s.popped.length = s.queue.cachedWriteIndex) :
    SpscInv { s with consumer := .readSlot (UInt64.ofNat s.popped.length) } pops pushes := by
  have hfilled := h.filled
  rw [h.empty_iff] at hempty
  refine h.moveConsumer ?_ rfl hflight.symm
  rw [Consumer.claimed]
  omega

/-! ## The producer -/

/-- The cached read index is renewed. -/
theorem loadReadIndex (h : SpscInv s pops pushes) {item : T} {currentWrite : UInt64}
    (hproducer : s.producer = .loadRead item currentWrite) :
    SpscInv { s with
      queue := { s.queue with cachedReadIndex := s.queue.readIndex }
      producer := .recheck item currentWrite s.held } s.popped.length pushes := by
  have hroom := h.room
  have hlocal := h.producer
  have hcells := h.cells
  have hpops := h.pops_le
  have hpushes := h.pushes_le
  have hfilled := h.filled
  rw [SpscRun.stored] at hcells
  rw [hproducer] at hroom hlocal hcells
  have hheld : s.held + s.popped.length = s.pushed.length := by
    rw [SpscRun.held]
    omega
  refine { h with
    cachedReadIndex := h.readIndex
    pops_le := Nat.le_refl _
    room := ?_
    producer := ⟨hlocal, hheld⟩
    cells := hcells }
  simp only [Producer.reserved] at hroom ⊢
  omega

/-- A push is refused when `c.value` elements were held at the load of the read index. -/
theorem refusePush (h : SpscInv s pops pushes) {item : T} {currentWrite : UInt64} {held : Nat}
    (hproducer : s.producer = .recheck item currentWrite held) (hfull : s.full currentWrite) :
    SpscInv { s with producer := .idle, refusedPushes := s.refusedPushes ++ [held] }
      pops pushes := by
  have hroom := h.room
  have hlocal := h.producer
  have hcells := h.cells
  rw [SpscRun.stored] at hcells
  rw [hproducer] at hroom hlocal hcells
  obtain ⟨rfl, hheld⟩ := hlocal
  rw [h.full_iff] at hfull
  refine { h with room := hroom, producer := trivial, cells := hcells, refusedPushes := ?_ }
  intro n hn
  rcases List.mem_append.mp hn with hn | hn
  · exact h.refusedPushes n hn
  · rw [List.mem_singleton.mp hn]
    omega

/-- The slot that is written holds no element. -/
theorem writeSlot (h : SpscInv s pops pushes) {item : T} {currentWrite : UInt64}
    (hproducer : s.producer = .writeSlot item currentWrite) :
    SpscInv { s with
      queue := { s.queue with
        buffer := Function.update s.queue.buffer (c.slot currentWrite) item }
      unread := Function.update s.unread (c.slot currentWrite) true
      producer := .storeWrite item currentWrite } pops pushes := by
  have hroom := h.room
  have hlocal := h.producer
  have hcells := h.cells
  have hpops := h.pops_le
  rw [SpscRun.stored] at hcells
  rw [hproducer] at hroom hlocal hcells
  obtain rfl := hlocal
  simp only [Producer.reserved] at hroom
  simp only [Producer.inFlight, List.append_nil] at hcells
  have htaken : s.popped.length ≤ s.taken.length := by simp [SpscRun.taken]
  exact { h with
    room := hroom
    producer := rfl
    cells := hcells.put (by omega) item }

/-- The element is published. -/
theorem storeWrite (h : SpscInv s pops pushes) {item : T} {currentWrite : UInt64}
    (hproducer : s.producer = .storeWrite item currentWrite) :
    SpscInv { s with
      queue := { s.queue with writeIndex := currentWrite + 1 }
      pushed := s.pushed ++ [item]
      producer := .idle } pops pushes := by
  have hroom := h.room
  have hlocal := h.producer
  have hcells := h.cells
  have hpushes := h.pushes_le
  rw [SpscRun.stored] at hcells
  rw [hproducer] at hroom hlocal hcells
  obtain rfl := hlocal
  simp only [Producer.reserved] at hroom
  have hstored : RingCells c s.queue.buffer s.unread s.taken.length (s.pushed ++ [item] ++ []) := by
    rw [List.append_nil]
    exact hcells
  refine { h with
    writeIndex := ?_
    pushes_le := ?_
    room := ?_
    producer := trivial
    taken := h.taken.trans (List.prefix_append _ _)
    cells := hstored }
  · rw [List.length_append, List.length_singleton]
    exact RingIndex.ofNat_succ _
  · rw [List.length_append]
    omega
  · rw [List.length_append]
    exact hroom

/-- Each step of `try_push` keeps the invariant, for a cached read index that may be newer. -/
theorem stepProducer (h : SpscInv s pops pushes) :
    ∃ pops', SpscInv s.stepProducer pops' pushes := by
  have hroom := h.room
  have hlocal := h.producer
  rw [SpscRun.stepProducer]
  cases hproducer : s.producer with
  | idle => exact ⟨pops, h⟩
  | loadWrite item =>
    rw [hproducer] at hroom
    exact ⟨pops, h.moveProducer hroom h.writeIndex (by rw [hproducer]; rfl)⟩
  | check item currentWrite =>
    rw [hproducer] at hroom hlocal
    obtain rfl := hlocal
    refine ⟨pops, ?_⟩
    simp only
    split_ifs with hfull
    · exact h.moveProducer hroom rfl (by rw [hproducer]; rfl)
    · exact h.reserve (by rw [hproducer]; rfl) item hfull
  | loadRead item currentWrite => exact ⟨s.popped.length, h.loadReadIndex hproducer⟩
  | recheck item currentWrite held =>
    refine ⟨pops, ?_⟩
    simp only
    split_ifs with hfull
    · exact h.refusePush hproducer hfull
    · rw [hproducer] at hlocal
      obtain ⟨rfl, -⟩ := hlocal
      exact h.reserve (by rw [hproducer]; rfl) item hfull
  | writeSlot item currentWrite => exact ⟨pops, h.writeSlot hproducer⟩
  | storeWrite item currentWrite => exact ⟨pops, h.storeWrite hproducer⟩

/-! ## The consumer -/

/-- The cached write index is renewed. -/
theorem loadWriteIndex (h : SpscInv s pops pushes) {currentRead : UInt64}
    (hconsumer : s.consumer = .loadWrite currentRead) :
    SpscInv { s with
      queue := { s.queue with cachedWriteIndex := s.queue.writeIndex }
      consumer := .recheck currentRead s.held } pops s.pushed.length := by
  have hlocal := h.consumer
  have htaken := h.taken
  have hcells := h.cells
  have hpushes := h.pushes_le
  have hfilled := h.filled
  rw [SpscRun.taken] at htaken hcells
  rw [hconsumer] at hfilled hlocal htaken hcells
  have hheld : s.held + s.popped.length = s.pushed.length := by
    rw [SpscRun.held]
    omega
  refine { h with
    cachedWriteIndex := h.writeIndex
    pushes_le := Nat.le_refl _
    filled := ?_
    consumer := ⟨hlocal, hheld⟩
    taken := htaken
    cells := hcells }
  simp only [Consumer.claimed] at hfilled ⊢
  omega

/-- A pop is refused when no element was held at the load of the write index. -/
theorem refusePop (h : SpscInv s pops pushes) {currentRead : UInt64} {held : Nat}
    (hconsumer : s.consumer = .recheck currentRead held)
    (hempty : currentRead = s.queue.cachedWriteIndex) :
    SpscInv { s with consumer := .idle, refusedPops := s.refusedPops ++ [held] } pops pushes := by
  have hlocal := h.consumer
  have htaken := h.taken
  have hcells := h.cells
  have hfilled := h.filled
  rw [SpscRun.taken] at htaken hcells
  rw [hconsumer] at hfilled hlocal htaken hcells
  obtain ⟨rfl, hheld⟩ := hlocal
  rw [h.empty_iff] at hempty
  refine { h with
    filled := hfilled
    consumer := trivial
    taken := htaken
    cells := hcells
    refusedPops := ?_ }
  intro n hn
  rcases List.mem_append.mp hn with hn | hn
  · exact h.refusedPops n hn
  · rw [List.mem_singleton.mp hn]
    omega

/-- The slot that is read holds the first element that was pushed and not popped. -/
theorem readSlot (h : SpscInv s pops pushes) {currentRead : UInt64}
    (hconsumer : s.consumer = .readSlot currentRead) (left : T) :
    SpscInv { s with
      queue := { s.queue with
        buffer := Function.update s.queue.buffer (c.slot currentRead) left }
      unread := Function.update s.unread (c.slot currentRead) false
      consumer := .storeRead currentRead (s.queue.buffer (c.slot currentRead)) } pops pushes := by
  have hlocal := h.consumer
  have htaken := h.taken
  have hcells := h.cells
  have hpushes := h.pushes_le
  have hfilled := h.filled
  rw [SpscRun.taken] at htaken hcells
  rw [hconsumer] at hfilled hlocal htaken hcells
  obtain rfl := hlocal
  simp only [Consumer.claimed] at hfilled
  simp only [Consumer.inFlight, List.append_nil] at htaken hcells
  have hlt : s.popped.length < s.pushed.length := by omega
  have hout : s.queue.buffer (c.slot (UInt64.ofNat s.popped.length)) =
      s.pushed[s.popped.length] := by
    apply hcells.get (Nat.le_refl _)
    rw [SpscRun.stored, List.getElem?_append_left hlt, List.getElem?_eq_getElem hlt]
  have hstored : s.popped.length < s.stored.length := by
    rw [SpscRun.stored, List.length_append]
    omega
  have hconcat := List.concat_get_prefix htaken hlt
  rw [List.get_eq_getElem, ← hout] at hconcat
  have htake := hcells.take hstored left
  rw [← List.length_singleton, ← List.length_append] at htake
  exact { h with
    filled := hfilled
    consumer := rfl
    taken := hconcat
    cells := htake }

/-- The slot is released. -/
theorem storeRead (h : SpscInv s pops pushes) {currentRead : UInt64} {out : T}
    (hconsumer : s.consumer = .storeRead currentRead out) :
    SpscInv { s with
      queue := { s.queue with readIndex := currentRead + 1 }
      popped := s.popped ++ [out]
      consumer := .idle } pops pushes := by
  have hlocal := h.consumer
  have htaken := h.taken
  have hcells := h.cells
  have hfilled := h.filled
  rw [SpscRun.taken] at htaken hcells
  rw [hconsumer] at hfilled hlocal htaken hcells
  obtain rfl := hlocal
  simp only [Consumer.claimed] at hfilled
  simp only [Consumer.inFlight] at htaken hcells
  rw [← List.append_nil (s.popped ++ [out])] at htaken hcells
  refine { h with
    readIndex := ?_
    pops_le := ?_
    filled := ?_
    consumer := trivial
    taken := htaken
    cells := hcells }
  · rw [List.length_append, List.length_singleton]
    exact RingIndex.ofNat_succ _
  · rw [List.length_append]
    exact h.pops_le.trans (Nat.le_add_right _ _)
  · rw [List.length_append]
    exact hfilled

/-- Each step of `try_pop` keeps the invariant, for a cached write index that may be newer. -/
theorem stepConsumer (h : SpscInv s pops pushes) (left : T) :
    ∃ pushes', SpscInv (s.stepConsumer left) pops pushes' := by
  have hlocal := h.consumer
  have hfilled := h.filled
  rw [SpscRun.stepConsumer]
  cases hconsumer : s.consumer with
  | idle => exact ⟨pushes, h⟩
  | loadRead =>
    rw [hconsumer] at hfilled
    exact ⟨pushes, h.moveConsumer hfilled h.readIndex (by rw [hconsumer]; rfl)⟩
  | check currentRead =>
    rw [hconsumer] at hfilled hlocal
    obtain rfl := hlocal
    refine ⟨pushes, ?_⟩
    simp only
    split_ifs with hempty
    · exact h.moveConsumer hfilled rfl (by rw [hconsumer]; rfl)
    · exact h.claim (by rw [hconsumer]; rfl) hempty
  | loadWrite currentRead => exact ⟨s.pushed.length, h.loadWriteIndex hconsumer⟩
  | recheck currentRead held =>
    refine ⟨pushes, ?_⟩
    simp only
    split_ifs with hempty
    · exact h.refusePop hconsumer hempty
    · rw [hconsumer] at hlocal
      obtain ⟨rfl, -⟩ := hlocal
      exact h.claim (by rw [hconsumer]; rfl) hempty
  | readSlot currentRead => exact ⟨pushes, h.readSlot hconsumer left⟩
  | storeRead currentRead out => exact ⟨pushes, h.storeRead hconsumer⟩

/-! ## The two threads -/

theorem step (h : SpscInv s pops pushes) (event : SpscEvent T) :
    ∃ pops' pushes', SpscInv (s.step event) pops' pushes' := by
  cases event with
  | tryPush item =>
    have hroom := h.room
    refine ⟨pops, pushes, ?_⟩
    rw [SpscRun.step]
    split
    · next hproducer =>
      rw [hproducer] at hroom
      exact h.moveProducer hroom trivial (by rw [hproducer]; rfl)
    · exact h
  | producer =>
    obtain ⟨pops', hstep⟩ := h.stepProducer
    exact ⟨pops', pushes, hstep⟩
  | tryPop =>
    have hfilled := h.filled
    refine ⟨pops, pushes, ?_⟩
    rw [SpscRun.step]
    split
    · next hconsumer =>
      rw [hconsumer] at hfilled
      exact h.moveConsumer hfilled trivial (by rw [hconsumer]; rfl)
    · exact h
  | consumer left =>
    obtain ⟨pushes', hstep⟩ := h.stepConsumer left
    exact ⟨pops, pushes', hstep⟩

theorem run [Inhabited T] (events : List (SpscEvent T)) :
    ∃ pops pushes, SpscInv (SpscRun.run c events) pops pushes := by
  apply Transducer.run_invariant (fun s => ∃ pops pushes, SpscInv s pops pushes)
  · rintro s event ⟨pops, pushes, h⟩
    exact h.step event
  · exact ⟨0, 0, start⟩

end SpscInv

end LowLatencyExchange
