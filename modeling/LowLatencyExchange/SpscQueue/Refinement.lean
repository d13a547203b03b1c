import LowLatencyExchange.Library.BoundedFifo
import LowLatencyExchange.SpscQueue.Invariant

/-!
# The queue is a bounded first-in first-out queue

The store of the write index is a push on the bounded queue and the store of the read index is
a pop. All other steps of the two threads leave that queue alone, and none of them touches a
slot that is in use by the other thread.
-/
namespace LowLatencyExchange

variable {c : RingCapacity} {T : Type*}

/-- What a thread relies on when it is about to access a slot, and what a call that returns
false has seen. -/
structure SpscSafe (s : SpscRun c T) : Prop where
  popped_pushed : s.popped <+: s.pushed
  held_le : s.held ≤ c.value
  writeSlot : ∀ item currentWrite, s.producer = .writeSlot item currentWrite →
    s.unread (c.slot currentWrite) = false
  readSlot : ∀ currentRead, s.consumer = .readSlot currentRead →
    s.unread (c.slot currentRead) = true
  refusedPushes : ∀ n ∈ s.refusedPushes, n = c.value
  refusedPops : ∀ n ∈ s.refusedPops, n = 0

namespace SpscInv

variable {s : SpscRun c T} {pops pushes : Nat}

theorem popped_pushed (h : SpscInv s pops pushes) : s.popped <+: s.pushed :=
  (List.prefix_append _ _).trans h.taken

theorem safe (h : SpscInv s pops pushes) : SpscSafe s where
  popped_pushed := h.popped_pushed
  held_le := by
    have hroom := h.room
    have hpops := h.pops_le
    rw [SpscRun.held]
    omega
  writeSlot := by
    intro item currentWrite hproducer
    have hroom := h.room
    have hpops := h.pops_le
    have hlocal := h.producer
    have hcells := h.cells
    have htaken : s.popped.length ≤ s.taken.length := by simp [SpscRun.taken]
    simp only [hproducer, Producer.reserved] at hroom
    simp only [SpscRun.stored, hproducer, Producer.inFlight, List.append_nil] at hcells
    rw [hproducer] at hlocal
    obtain rfl := hlocal
    exact hcells.marked_next (by omega)
  readSlot := by
    intro currentRead hconsumer
    have hfilled := h.filled
    have hpushes := h.pushes_le
    have hlocal := h.consumer
    have hcells := h.cells
    simp only [hconsumer, Consumer.claimed] at hfilled
    simp only [SpscRun.taken, hconsumer, Consumer.inFlight, List.append_nil] at hcells
    rw [hconsumer] at hlocal
    obtain rfl := hlocal
    apply hcells.marked_low
    rw [SpscRun.stored, List.length_append]
    omega
  refusedPushes := h.refusedPushes
  refusedPops := h.refusedPops

end SpscInv

namespace SpscRun

/-- `q` holds what was pushed and not popped. -/
def Holds (s : SpscRun c T) (q : BoundedFifo c.value T) : Prop := s.popped ++ q.items = s.pushed

/-- What a step does to the bounded queue: the store of an index is the push or the pop, and
every other step leaves it alone. -/
def FifoStep (s : SpscRun c T) (q q' : BoundedFifo c.value T) : SpscEvent T → Prop
  | .tryPush _ => q' = q
  | .producer =>
    match s.producer with
    | .storeWrite item _ => q.tryPush item = some q'
    | _ => q' = q
  | .tryPop => q' = q
  | .consumer _ =>
    match s.consumer with
    | .storeRead _ out => q.tryPop = some (out, q')
    | _ => q' = q

variable {s s' : SpscRun c T} {q q' : BoundedFifo c.value T}

theorem Holds.unchanged (h : s.Holds q) (h' : s'.Holds q') (hpopped : s'.popped = s.popped)
    (hpushed : s'.pushed = s.pushed) : q' = q := by
  rw [Holds, hpopped, hpushed, ← h] at h'
  exact BoundedFifo.ext (List.append_cancel_left h')

theorem Holds.pushed (h : s.Holds q) (h' : s'.Holds q') (hpopped : s'.popped = s.popped)
    {item : T} (hpushed : s'.pushed = s.pushed ++ [item]) : q.tryPush item = some q' := by
  rw [Holds, hpopped, hpushed, ← h, List.append_assoc] at h'
  exact BoundedFifo.tryPush_of_items (List.append_cancel_left h')

theorem Holds.popped (h : s.Holds q) (h' : s'.Holds q') {out : T}
    (hpopped : s'.popped = s.popped ++ [out]) (hpushed : s'.pushed = s.pushed) :
    q.tryPop = some (out, q') := by
  rw [Holds, hpopped, hpushed, ← h, List.append_assoc] at h'
  exact BoundedFifo.tryPop_of_items (List.append_cancel_left h').symm

theorem stepProducer_popped (s : SpscRun c T) : s.stepProducer.popped = s.popped := by
  unfold stepProducer
  split <;> first | rfl | (split_ifs <;> rfl)

/-- The step after the slot is written publishes the element. -/
theorem stepProducer_pushed (s : SpscRun c T) :
    s.stepProducer.pushed = s.pushed ++ s.producer.inFlight := by
  unfold stepProducer
  split <;> simp only [*, Producer.inFlight, List.append_nil] <;> split_ifs <;> rfl

theorem stepConsumer_pushed (s : SpscRun c T) (left : T) :
    (s.stepConsumer left).pushed = s.pushed := by
  unfold stepConsumer
  split <;> first | rfl | (split_ifs <;> rfl)

/-- The step after the slot is read releases it. -/
theorem stepConsumer_popped (s : SpscRun c T) (left : T) :
    (s.stepConsumer left).popped = s.popped ++ s.consumer.inFlight := by
  unfold stepConsumer
  split <;> simp only [*, Consumer.inFlight, List.append_nil] <;> split_ifs <;> rfl

theorem Holds.step (h : s.Holds q) {event : SpscEvent T} (h' : (s.step event).Holds q') :
    s.FifoStep q q' event := by
  cases event with
  | tryPush item =>
    rw [SpscRun.step] at h'
    split at h'
    · exact h.unchanged h' rfl rfl
    · exact h.unchanged h' rfl rfl
  | producer =>
    have hpopped := s.stepProducer_popped
    have hpushed := s.stepProducer_pushed
    rw [FifoStep]
    split
    · next item currentWrite hproducer =>
      rw [hproducer] at hpushed
      exact h.pushed h' hpopped hpushed
    · next hother =>
      have hflight : s.producer.inFlight = [] := by
        unfold Producer.inFlight
        split
        · next item currentWrite hproducer => exact absurd hproducer (hother item currentWrite)
        · rfl
      rw [hflight, List.append_nil] at hpushed
      exact h.unchanged h' hpopped hpushed
  | tryPop =>
    rw [SpscRun.step] at h'
    split at h'
    · exact h.unchanged h' rfl rfl
    · exact h.unchanged h' rfl rfl
  | consumer left =>
    have hpopped := s.stepConsumer_popped left
    have hpushed := s.stepConsumer_pushed left
    rw [FifoStep]
    split
    · next currentRead out hconsumer =>
      rw [hconsumer] at hpopped
      exact h.popped h' hpopped hpushed
    · next hother =>
      have hflight : s.consumer.inFlight = [] := by
        unfold Consumer.inFlight
        split
        · next currentRead out hconsumer => exact absurd hconsumer (hother currentRead out)
        · rfl
      rw [hflight, List.append_nil] at hpopped
      exact h.unchanged h' hpopped hpushed

end SpscRun

theorem SpscInv.holds {s : SpscRun c T} {pops pushes : Nat} (h : SpscInv s pops pushes) :
    ∃ q, s.Holds q := by
  obtain ⟨items, hitems⟩ := h.popped_pushed
  have hheld := h.safe.held_le
  rw [SpscRun.held, ← hitems, List.length_append] at hheld
  exact ⟨⟨items, by omega⟩, hitems⟩

namespace SpscRun

/-- Whatever turns the two threads take, the queue is safe, and every step of theirs is one of
the bounded queue that holds what was pushed and not popped. -/
theorem run_refines (c : RingCapacity) [Inhabited T] (events : List (SpscEvent T)) :
    SpscSafe (run c events) ∧
      ∃ q, (run c events).Holds q ∧
        ∀ event, ∃ q', (run c (events ++ [event])).Holds q' ∧
          (run c events).FifoStep q q' event := by
  obtain ⟨pops, pushes, h⟩ := SpscInv.run (c := c) events
  obtain ⟨q, hq⟩ := h.holds
  refine ⟨h.safe, q, hq, fun event => ?_⟩
  obtain ⟨pops', pushes', h'⟩ := SpscInv.run (c := c) (events ++ [event])
  obtain ⟨q', hq'⟩ := h'.holds
  refine ⟨q', hq', hq.step ?_⟩
  rw [run, Transducer.run_concat] at hq'
  exact hq'

-- the consumer finds its cached index stale and loads the one that the producer stored
example : (run ⟨2, by decide, by decide, by decide⟩
    ([.tryPush 7, .producer, .producer, .tryPop, .consumer 0, .producer, .producer] ++
      List.replicate 5 (.consumer 0))).popped = [7] := by decide +kernel

end SpscRun

end LowLatencyExchange
