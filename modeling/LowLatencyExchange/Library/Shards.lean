import LowLatencyExchange.Library.Transducer
import Mathlib.Tactic

/-!
# Machines side by side

Copies of one transducer, and inputs that name the copy they are for. However the inputs are
mixed, each copy runs on its own inputs alone, and what is counted over all steps is the sum of
what is counted for each copy.
-/
namespace Transducer

variable {S I O : Type*}

/-- The named machine takes the input. There is no output if there is no such machine. -/
def shardStep (step : S → I → S × O) (ss : List S) (i : Nat × I) : List S × Option O :=
  match ss[i.1]? with
  | none => (ss, none)
  | some s => (ss.set i.1 (step s i.2).1, some (step s i.2).2)

/-- The inputs of one machine. -/
def inputsAt (k : Nat) (is : List (Nat × I)) : List I :=
  (is.filter fun i => i.1 = k).map Prod.snd

theorem inputsAt_append (k : Nat) (is js : List (Nat × I)) :
    inputsAt k (is ++ js) = inputsAt k is ++ inputsAt k js := by
  simp [inputsAt]

theorem inputsAt_singleton (k : Nat) (i : Nat × I) :
    inputsAt k [i] = if i.1 = k then [i.2] else [] := by
  unfold inputsAt
  split_ifs with h <;> simp [h]

theorem mem_inputsAt {k : Nat} {i : I} {is : List (Nat × I)} :
    i ∈ inputsAt k is ↔ (k, i) ∈ is := by
  simp [inputsAt]

variable (step : S → I → S × O)

theorem getElem?_shardStep (ss : List S) (i : Nat × I) (k : Nat) :
    (shardStep step ss i).1[k]? =
      ss[k]?.map fun s => if i.1 = k then (step s i.2).1 else s := by
  unfold shardStep
  cases hi : ss[i.1]? with
  | none =>
    by_cases hk : i.1 = k
    · rw [← hk, hi]
      rfl
    · simp [hk]
  | some s =>
    have hlt : i.1 < ss.length := (List.getElem?_eq_some_iff.mp hi).1
    rw [List.getElem?_set]
    by_cases hk : i.1 = k
    · subst hk
      rw [if_pos rfl, if_pos hlt, hi, Option.map_some, if_pos rfl]
    · simp [hk]

/-- Each machine runs on its own inputs. -/
theorem run_shards (ss : List S) (is : List (Nat × I)) (k : Nat) :
    (run (shardStep step) ss is)[k]? = ss[k]?.map fun s => run step s (inputsAt k is) := by
  induction is using List.reverseRecOn with
  | nil => simp [inputsAt]
  | append_singleton is i ih =>
    rw [run_concat, getElem?_shardStep, ih, Option.map_map, inputsAt_append, inputsAt_singleton]
    congr 1
    funext s
    by_cases hk : i.1 = k <;> simp [hk]

/-- What a weight of the steps gives over a run of the machines is the sum of what it gives over
the run of each. -/
theorem sum_shards (w : I → O → Nat) (s : S) (n : Nat) (is : List (Nat × I)) :
    ((trace (shardStep step) (List.replicate n s) is).map fun x => x.2.elim 0 (w x.1.2)).sum =
      ∑ k ∈ Finset.range n, ((trace step s (inputsAt k is)).map fun x => w x.1 x.2).sum := by
  induction is using List.reverseRecOn with
  | nil => simp [inputsAt, trace]
  | append_singleton is i ih =>
    have hone : ∀ k, ((trace step s (inputsAt k (is ++ [i]))).map fun x => w x.1 x.2).sum =
        ((trace step s (inputsAt k is)).map fun x => w x.1 x.2).sum +
          if i.1 = k then w i.2 (step (run step s (inputsAt k is)) i.2).2 else 0 := by
      intro k
      rw [inputsAt_append, inputsAt_singleton]
      split_ifs with hk
      · rw [trace_concat, List.map_append, List.sum_append, List.map_singleton, List.sum_singleton]
      · rw [List.append_nil, Nat.add_zero]
    rw [trace_concat, List.map_append, List.sum_append, ih, Finset.sum_congr rfl fun k _ => hone k,
      Finset.sum_add_distrib, List.map_singleton, List.sum_singleton, Finset.sum_ite_eq]
    congr 1
    have hrun := run_shards step (List.replicate n s) is i.1
    dsimp only [shardStep]
    rw [hrun, List.getElem?_replicate]
    by_cases hn : i.1 < n <;> simp [hn]

end Transducer
