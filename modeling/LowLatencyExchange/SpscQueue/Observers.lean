import LowLatencyExchange.SpscQueue.Refinement
import Mathlib.Tactic

/-!
# The observers of the queue

`size`, `empty` and `full` load both indices, and the two threads may run between the loads. A call
by one of these threads sees the queue as it is when it loads the index of the other one. A call by
any other thread compares indices of different moments.
-/
namespace LowLatencyExchange

namespace BoundedSPSCQueue

/-- `w` is loaded before `r`. -/
def size (w r : UInt64) : UInt64 := if w ≥ r then w - r else 0

/-- The two loads are operands of one comparison, in either order. -/
def empty (w r : UInt64) : Bool := w = r

/-- `w` is loaded before `r`. -/
def full (c : RingCapacity) (w r : UInt64) : Bool := w - r ≥ UInt64.ofNat c.value

theorem size_of_le {pops pushes : Nat} (hle : pops ≤ pushes) (hlt : pushes - pops < 2 ^ 64) :
    (size (UInt64.ofNat pushes) (UInt64.ofNat pops)).toNat =
      if pops / 2 ^ 64 = pushes / 2 ^ 64 then pushes - pops else 0 := by
  have hge : UInt64.ofNat pushes ≥ UInt64.ofNat pops ↔ pops / 2 ^ 64 = pushes / 2 ^ 64 := by
    rw [ge_iff_le, UInt64.le_iff_toNat_le, UInt64.toNat_ofNat', UInt64.toNat_ofNat']
    omega
  rw [size]
  split_ifs with hindices hrounds hrounds
  · exact RingIndex.toNat_sub_ofNat hle hlt
  · exact absurd (hge.mp hindices) hrounds
  · exact absurd (hge.mpr hrounds) hindices
  · rfl

/-- The read index is ahead when both counts are in the same round. -/
theorem size_of_lt {pops pushes : Nat} (hlt : pushes < pops) (hpops : pops < 2 ^ 64) :
    (size (UInt64.ofNat pushes) (UInt64.ofNat pops)).toNat = 0 := by
  rw [size, if_neg]
  · rfl
  · rw [ge_iff_le, UInt64.le_iff_toNat_le, UInt64.toNat_ofNat_of_lt' hpops,
      UInt64.toNat_ofNat_of_lt' (by rw [UInt64.size]; omega)]
    omega

theorem empty_of_le {pops pushes : Nat} (hle : pops ≤ pushes) (hlt : pushes - pops < 2 ^ 64) :
    empty (UInt64.ofNat pushes) (UInt64.ofNat pops) = true ↔ pops = pushes := by
  rw [empty, decide_eq_true_iff, eq_comm, RingIndex.ofNat_eq_iff hle hlt]

theorem empty_of_lt {pops pushes : Nat} (hlt : pushes < pops) (hpops : pops - pushes < 2 ^ 64) :
    empty (UInt64.ofNat pushes) (UInt64.ofNat pops) = false := by
  rw [empty, decide_eq_false_iff_not, RingIndex.ofNat_eq_iff hlt.le hpops]
  exact hlt.ne

theorem full_of_le {c : RingCapacity} {pops pushes : Nat} (hle : pops ≤ pushes)
    (hlt : pushes - pops < 2 ^ 64) :
    full c (UInt64.ofNat pushes) (UInt64.ofNat pops) = true ↔ c.value ≤ pushes - pops := by
  rw [full, decide_eq_true_iff, ge_iff_le, RingIndex.le_sub_iff hle hlt c.lt]

theorem full_of_lt {c : RingCapacity} {pops pushes : Nat} (hlt : pushes < pops)
    (hpops : pops - pushes + c.value ≤ 2 ^ 64) :
    full c (UInt64.ofNat pushes) (UInt64.ofNat pops) = true := by
  have htwo := c.two_le
  rw [full, decide_eq_true_iff, ge_iff_le, UInt64.le_iff_toNat_le, UInt64.toNat_sub,
    UInt64.toNat_ofNat', UInt64.toNat_ofNat', UInt64.toNat_ofNat']
  omega

end BoundedSPSCQueue

/-- The turns of the producer. -/
def SpscEvent.byProducer {T : Type*} : SpscEvent T → Bool
  | .tryPush _ => true
  | .producer => true
  | .tryPop => false
  | .consumer _ => false

namespace SpscRun

variable {c : RingCapacity} {T : Type*}

theorem step_byProducer (s : SpscRun c T) {event : SpscEvent T} (h : event.byProducer = true) :
    (s.step event).popped = s.popped ∧ s.pushed <+: (s.step event).pushed := by
  cases event with
  | tryPush item =>
    rw [step]
    split <;> exact ⟨rfl, List.prefix_refl _⟩
  | producer =>
    rw [step, stepProducer_pushed]
    exact ⟨s.stepProducer_popped, List.prefix_append _ _⟩
  | tryPop => cases h
  | consumer left => cases h

theorem step_byConsumer (s : SpscRun c T) {event : SpscEvent T} (h : event.byProducer = false) :
    (s.step event).pushed = s.pushed ∧ s.popped <+: (s.step event).popped := by
  cases event with
  | tryPush item => cases h
  | producer => cases h
  | tryPop =>
    rw [step]
    split <;> exact ⟨rfl, List.prefix_refl _⟩
  | consumer left =>
    rw [step, stepConsumer_popped]
    exact ⟨s.stepConsumer_pushed left, List.prefix_append _ _⟩

variable [Inhabited T]

theorem run_concat (events : List (SpscEvent T)) (event : SpscEvent T) :
    run c (events ++ [event]) = (run c events).step event := Transducer.run_concat _ _ _ _

/-- Between the loads, the counts only grow, and a thread that makes no step adds nothing. -/
theorem run_grows (events between : List (SpscEvent T)) :
    (run c events).pushed <+: (run c (events ++ between)).pushed ∧
    (run c events).popped <+: (run c (events ++ between)).popped ∧
    ((∀ event ∈ between, event.byProducer = true) →
      (run c (events ++ between)).popped = (run c events).popped) ∧
    ((∀ event ∈ between, event.byProducer = false) →
      (run c (events ++ between)).pushed = (run c events).pushed) := by
  induction between using List.reverseRecOn with
  | nil =>
    rw [List.append_nil]
    exact ⟨List.prefix_refl _, List.prefix_refl _, fun _ => rfl, fun _ => rfl⟩
  | append_singleton between event ih =>
    obtain ⟨hpushed, hpopped, hproducer, hconsumer⟩ := ih
    rw [← List.append_assoc, run_concat]
    cases hby : event.byProducer with
    | true =>
      obtain ⟨hsame, hgrown⟩ := step_byProducer (run c (events ++ between)) hby
      refine ⟨hpushed.trans hgrown, hsame ▸ hpopped, fun hall => ?_, fun hall => ?_⟩
      · exact hsame.trans (hproducer fun e he => hall e (List.mem_append_left _ he))
      · rw [hall event (by simp)] at hby
        cases hby
    | false =>
      obtain ⟨hsame, hgrown⟩ := step_byConsumer (run c (events ++ between)) hby
      refine ⟨hsame ▸ hpushed, hpopped.trans hgrown, fun hall => ?_, fun hall => ?_⟩
      · rw [hall event (by simp)] at hby
        cases hby
      · exact hsame.trans (hconsumer fun e he => hall e (List.mem_append_left _ he))

/-- What the observers return tells how many elements the queue holds, except that `size` is 0
while the write index has wrapped and the read index has not. -/
structure Sees (w r : UInt64) (s : SpscRun c T) : Prop where
  size : (BoundedSPSCQueue.size w r).toNat =
    if s.popped.length / 2 ^ 64 = s.pushed.length / 2 ^ 64 then s.held else 0
  empty : BoundedSPSCQueue.empty w r = true ↔ s.held = 0
  full : BoundedSPSCQueue.full c w r = true ↔ s.held = c.value

omit [Inhabited T] in
theorem sees_of_inv {s : SpscRun c T} {pops pushes : Nat} (h : SpscInv s pops pushes) :
    Sees s.queue.writeIndex s.queue.readIndex s := by
  have hle := h.popped_pushed.length_le
  have hheld := h.safe.held_le
  have hlt := c.lt
  rw [held] at hheld
  rw [h.writeIndex, h.readIndex]
  refine ⟨BoundedSPSCQueue.size_of_le hle (by omega), ?_, ?_⟩
  · rw [BoundedSPSCQueue.empty_of_le hle (by omega), held]
    omega
  · rw [BoundedSPSCQueue.full_of_le hle (by omega), held]
    omega

/-- What a call returns to a thread that is neither of the two, from a load in `before` and one in
`after`. -/
structure SeesApart (before after : SpscRun c T) : Prop where
  size_before : (BoundedSPSCQueue.size before.queue.writeIndex after.queue.readIndex).toNat ≤
    before.held
  size_after : (BoundedSPSCQueue.size before.queue.writeIndex after.queue.readIndex).toNat ≤
    after.held
  full : BoundedSPSCQueue.full c before.queue.writeIndex after.queue.readIndex = true ↔
    before.pushed.length - after.popped.length = c.value ∨
      before.pushed.length < after.popped.length
  empty_writeFirst : BoundedSPSCQueue.empty before.queue.writeIndex after.queue.readIndex = true ↔
    before.pushed.length = after.popped.length
  empty_readFirst : BoundedSPSCQueue.empty after.queue.writeIndex before.queue.readIndex = true ↔
    before.held = 0 ∧ after.pushed.length = before.pushed.length

omit [Inhabited T] in
theorem seesApart_of_inv {before after : SpscRun c T} {pops pushes pops' pushes' : Nat}
    (hbefore : SpscInv before pops pushes) (hafter : SpscInv after pops' pushes')
    (hpushed : before.pushed <+: after.pushed) (hpopped : before.popped <+: after.popped)
    (hroom : after.pushed.length + c.value ≤ 2 ^ 64) : SeesApart before after := by
  have hpushes := hpushed.length_le
  have hpops := hpopped.length_le
  have hle := hafter.popped_pushed.length_le
  have hle' := hbefore.popped_pushed.length_le
  have hheld := hbefore.safe.held_le
  have htwo := c.two_le
  have hlt := c.lt
  rw [held] at hheld
  have hreadFirst : BoundedSPSCQueue.empty after.queue.writeIndex before.queue.readIndex = true ↔
      before.held = 0 ∧ after.pushed.length = before.pushed.length := by
    rw [hafter.writeIndex, hbefore.readIndex,
      BoundedSPSCQueue.empty_of_le (by omega) (by omega), held]
    omega
  rcases Nat.lt_or_ge before.pushed.length after.popped.length with hpassed | hge
  · -- more was popped at the second load than was pushed at the first
    have hsize := BoundedSPSCQueue.size_of_lt hpassed (by omega)
    have hfull := BoundedSPSCQueue.full_of_lt hpassed (c := c) (by omega)
    have hempty := BoundedSPSCQueue.empty_of_lt hpassed (by omega)
    rw [← hbefore.writeIndex, ← hafter.readIndex] at hsize hfull hempty
    exact ⟨hsize ▸ Nat.zero_le _, hsize ▸ Nat.zero_le _, by simp [hfull, hpassed],
      by simp [hempty, hpassed.ne], hreadFirst⟩
  · have hsize := BoundedSPSCQueue.size_of_le hge (by omega)
    have hfull := BoundedSPSCQueue.full_of_le hge (c := c) (by omega)
    have hempty := BoundedSPSCQueue.empty_of_le hge (by omega)
    rw [← hbefore.writeIndex, ← hafter.readIndex] at hsize hfull hempty
    refine ⟨?_, ?_, ?_, hempty.trans eq_comm, hreadFirst⟩
    · rw [hsize, held]
      split_ifs <;> omega
    · rw [hsize, held]
      split_ifs <;> omega
    · rw [hfull]
      omega

/-- In every interleaving a call of `size`, `empty` or `full` by the producer or the consumer is
exact when it loads the index of the other thread. In any other thread, as long as no index comes
near to wrapping, `size` returns no more than the queue holds at either load; but `full` returns
true also when more was popped at the second load than was pushed at the first. `empty` returns
true only for a queue that is empty at its first load when it loads the read index first, and for
as many pops at the second load as pushes at the first when it loads the write index first. -/
theorem observers_see (events between : List (SpscEvent T)) :
    let before := run c events
    let after := run c (events ++ between)
    ((∀ event ∈ between, event.byProducer = true) →
      Sees before.queue.writeIndex after.queue.readIndex before ∧
      (BoundedSPSCQueue.empty after.queue.writeIndex before.queue.readIndex = true ↔
        after.held = 0)) ∧
    ((∀ event ∈ between, event.byProducer = false) →
      Sees before.queue.writeIndex after.queue.readIndex after ∧
      (BoundedSPSCQueue.empty after.queue.writeIndex before.queue.readIndex = true ↔
        before.held = 0)) ∧
    (after.pushed.length + c.value ≤ 2 ^ 64 → SeesApart before after) := by
  obtain ⟨pops, pushes, hbefore⟩ := SpscInv.run (c := c) events
  obtain ⟨pops', pushes', hafter⟩ := SpscInv.run (c := c) (events ++ between)
  obtain ⟨hpushed, hpopped, hproducer, hconsumer⟩ := run_grows (c := c) events between
  have hsees := sees_of_inv hbefore
  have hsees' := sees_of_inv hafter
  dsimp only
  refine ⟨fun hall => ?_, fun hall => ?_,
    fun hroom => seesApart_of_inv hbefore hafter hpushed hpopped hroom⟩
  · have hread : (run c (events ++ between)).queue.readIndex = (run c events).queue.readIndex := by
      rw [hafter.readIndex, hproducer hall, ← hbefore.readIndex]
    exact ⟨hread ▸ hsees, hread ▸ hsees'.empty⟩
  · have hwrite :
        (run c (events ++ between)).queue.writeIndex = (run c events).queue.writeIndex := by
      rw [hafter.writeIndex, hconsumer hall, ← hbefore.writeIndex]
    exact ⟨hwrite ▸ hsees', hwrite ▸ hsees.empty⟩

/-- An element passes through between the loads. -/
def passing : List (SpscEvent Nat) :=
  .tryPush 7 :: List.replicate 4 .producer ++ .tryPop :: List.replicate 6 (.consumer 0)

theorem passing_full :
    let before : SpscRun ⟨2, by decide, by decide, by decide⟩ Nat := run _ []
    let after : SpscRun ⟨2, by decide, by decide, by decide⟩ Nat := run _ ([] ++ passing)
    before.held = 0 ∧ after.held = 0 ∧
    BoundedSPSCQueue.full ⟨2, by decide, by decide, by decide⟩ before.queue.writeIndex
      after.queue.readIndex = true := by
  have hlengths :
      (run ⟨2, by decide, by decide, by decide⟩ ([] ++ passing)).pushed.length = 1 ∧
      (run ⟨2, by decide, by decide, by decide⟩ ([] ++ passing)).popped.length = 1 := by
    decide +kernel
  obtain ⟨-, -, hany⟩ :=
    observers_see (c := ⟨2, by decide, by decide, by decide⟩) ([] : List (SpscEvent Nat)) passing
  refine ⟨rfl, ?_, (hany (by rw [hlengths.1]; decide)).full.mpr (.inr ?_)⟩
  · rw [held, hlengths.1, hlengths.2]
  · rw [hlengths.2]
    exact Nat.one_pos

end SpscRun

end LowLatencyExchange
