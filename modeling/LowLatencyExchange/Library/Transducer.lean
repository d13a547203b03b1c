import Mathlib.Data.List.Basic
import Mathlib.Tactic

/-!
# Runs of a deterministic transducer

A step function takes a state and an input to a new state and an output. `run` is the state
after a list of inputs and `outputs` what the steps returned. An invariant of one step is
an invariant of the run, and a relation between two machines that every step keeps, with
related outputs, relates their whole runs.
-/
namespace Transducer

variable {S T I J O : Type*}

def run (step : S → I → S × O) (s : S) (is : List I) : S :=
  is.foldl (fun s i => (step s i).1) s

def outputs (step : S → I → S × O) : S → List I → List O
  | _, [] => []
  | s, i :: is => (step s i).2 :: outputs step (step s i).1 is

section Laws

variable (step : S → I → S × O)

@[simp] theorem run_nil (s : S) : run step s [] = s := rfl

@[simp] theorem run_cons (s : S) (i : I) (is : List I) :
    run step s (i :: is) = run step (step s i).1 is := rfl

@[simp] theorem run_append (s : S) (is js : List I) :
    run step s (is ++ js) = run step (run step s is) js := List.foldl_append

theorem run_concat (s : S) (is : List I) (i : I) :
    run step s (is ++ [i]) = (step (run step s is) i).1 := by simp

@[simp] theorem outputs_nil (s : S) : outputs step s [] = [] := rfl

@[simp] theorem outputs_cons (s : S) (i : I) (is : List I) :
    outputs step s (i :: is) = (step s i).2 :: outputs step (step s i).1 is := rfl

theorem outputs_append (s : S) (is js : List I) :
    outputs step s (is ++ js) = outputs step s is ++ outputs step (run step s is) js := by
  induction is generalizing s with
  | nil => rfl
  | cons i is ih => simp [ih]

theorem outputs_concat (s : S) (is : List I) (i : I) :
    outputs step s (is ++ [i]) = outputs step s is ++ [(step (run step s is) i).2] := by
  simp [outputs_append]

theorem outputs_length (s : S) (is : List I) : (outputs step s is).length = is.length := by
  induction is generalizing s with
  | nil => rfl
  | cons i is ih => simp [ih]

/-- The inputs of a run, each with the output it returned. -/
def trace (s : S) (is : List I) : List (I × O) := is.zip (outputs step s is)

theorem trace_concat (s : S) (is : List I) (i : I) :
    trace step s (is ++ [i]) = trace step s is ++ [(i, (step (run step s is) i).2)] := by
  rw [trace, outputs_concat, List.zip_append (outputs_length step s is).symm]
  rfl

end Laws

/-- The invariant rule. -/
theorem run_invariant {step : S → I → S × O} (inv : S → Prop)
    (hstep : ∀ s i, inv s → inv (step s i).1) {s : S} (h : inv s) (is : List I) :
    inv (run step s is) := by
  induction is generalizing s with
  | nil => exact h
  | cons i is ih => exact ih (hstep s i h)

/-- The rule of a decreasing measure: an input that is repeated until the measure has run out
reaches the goal, if it keeps the goal. -/
theorem run_replicate_of_measure {step : S → I → S × O} (inv goal : S → Prop) (μ : S → Nat) (i : I)
    (hstep : ∀ s, inv s → ¬ goal s → inv (step s i).1 ∧ μ (step s i).1 < μ s)
    (hgoal : ∀ s, goal s → goal (step s i).1) {s : S} {n : Nat} (h : goal s ∨ inv s ∧ μ s ≤ n) :
    goal (run step s (List.replicate n i)) := by
  induction n generalizing s with
  | zero =>
    rcases h with h | ⟨h, hzero⟩
    · exact h
    · by_contra hnot
      have hlt := (hstep s h hnot).2
      omega
  | succ n ih =>
    rw [List.replicate_succ, run_cons]
    by_cases hs : goal s
    · exact ih (.inl (hgoal s hs))
    · obtain ⟨hinv, hle⟩ := h.resolve_left hs
      obtain ⟨hnext, hlt⟩ := hstep s hinv hs
      exact ih (.inr ⟨hnext, by omega⟩)

/-- A property that one step keeps exactly under a guard holds in every state of a run
exactly when every step of the run passed its guard. -/
theorem forall_prefix_iff {step : S → I → S × O} (inv good : S → Prop) (guard : S → I → Prop)
    (hinv : ∀ s i, inv s → inv (step s i).1)
    (hstep : ∀ s i, inv s → good s → (good (step s i).1 ↔ guard s i))
    {s : S} (h : inv s) (hgood : good s) (is : List I) :
    (∀ js, js <+: is → good (run step s js)) ↔
      ∀ js i, js ++ [i] <+: is → guard (run step s js) i := by
  induction is using List.reverseRecOn with
  | nil => simp [hgood]
  | append_singleton is i ih =>
    have hrun : inv (run step s is) := run_invariant inv hinv h is
    constructor
    · intro hall js j hjs
      have hbefore := hall js ((List.prefix_append js [j]).trans hjs)
      have hafter := hall (js ++ [j]) hjs
      rw [run_concat] at hafter
      exact (hstep _ j (run_invariant inv hinv h js) hbefore).mp hafter
    · intro hall js hjs
      have hprev := ih.mpr fun ks k hks => hall ks k (hks.trans (List.prefix_append is [i]))
      rcases List.prefix_concat_iff.mp hjs with rfl | hjs
      · rw [run_concat]
        exact (hstep _ i hrun (hprev is (List.prefix_refl is))).mpr
          (hall is i (List.prefix_refl _))
      · exact hprev js hjs

/-- The simulation rule, for a machine whose inputs and outputs are those of the other one,
translated. -/
theorem simulation_translate {P : Type*} {step : S → I → S × O} {step' : T → J → T × P}
    (rel : S → T → Prop) (f : I → J) (g : O → P) (hstep : ∀ s t i, rel s t →
      rel (step s i).1 (step' t (f i)).1 ∧ (step' t (f i)).2 = g (step s i).2)
    {s : S} {t : T} (h : rel s t) (is : List I) :
    rel (run step s is) (run step' t (is.map f)) ∧
      outputs step' t (is.map f) = (outputs step s is).map g := by
  induction is generalizing s t with
  | nil => exact ⟨h, rfl⟩
  | cons i is ih =>
    obtain ⟨hrel, hout⟩ := hstep s t i h
    obtain ⟨hrun, houts⟩ := ih hrel
    refine ⟨hrun, ?_⟩
    rw [outputs_cons, List.map_cons, outputs_cons, List.map_cons, hout, houts]

/-- The simulation rule, for a machine whose inputs are those of the other one, translated. -/
theorem simulation_map {step : S → I → S × O} {step' : T → J → T × O} (rel : S → T → Prop)
    (f : I → J) (hstep : ∀ s t i, rel s t →
      rel (step s i).1 (step' t (f i)).1 ∧ (step s i).2 = (step' t (f i)).2)
    {s : S} {t : T} (h : rel s t) (is : List I) :
    rel (run step s is) (run step' t (is.map f)) ∧
      outputs step s is = outputs step' t (is.map f) := by
  have hsame := fun s t i hrel => (hstep s t i hrel).imp_right Eq.symm
  obtain ⟨hrun, houts⟩ := simulation_translate rel f id hsame h is
  exact ⟨hrun, by rw [houts, List.map_id]⟩

/-- The simulation rule, for machines on the same inputs with the same outputs. -/
theorem simulation {step : S → I → S × O} {step' : T → I → T × O} (rel : S → T → Prop)
    (hstep : ∀ s t i, rel s t → rel (step s i).1 (step' t i).1 ∧ (step s i).2 = (step' t i).2)
    {s : S} {t : T} (h : rel s t) (is : List I) :
    rel (run step s is) (run step' t is) ∧ outputs step s is = outputs step' t is := by
  have := simulation_map rel id hstep h is
  rwa [List.map_id] at this

end Transducer
