import LowLatencyExchange.Library.Transducer
import Mathlib.Data.Set.Basic
import Mathlib.Tactic

/-!
# Fair schedules

Every input of a transducer is a turn of some thread. A schedule is cut into rounds in each of
which every thread has a turn, in any order and with any number of other turns. The goal is
reached when a measure never grows and each state that is short of the goal names a thread whose
turn lowers it, and which stays named until then.
-/
namespace Transducer

variable {S I O T : Type*} {step : S → I → S × O}

/-- What the threads have to keep and to lower. -/
structure Progress (step : S → I → S × O) (thread : I → T) (threads : Set T) (inv goal : S → Prop)
    (μ : S → Nat) (helpful : S → T) : Prop where
  mem : ∀ s, inv s → ¬ goal s → helpful s ∈ threads
  turn : ∀ s i, inv s → ¬ goal s → goal (step s i).1 ∨ inv (step s i).1 ∧
    (μ (step s i).1 < μ s ∨
      μ (step s i).1 = μ s ∧ helpful (step s i).1 = helpful s ∧ thread i ≠ helpful s)
  stays : ∀ s i, goal s → goal (step s i).1

/-- Every thread has a turn in the round. -/
def FairRound (thread : I → T) (threads : Set T) (round : List I) : Prop :=
  ∀ t ∈ threads, ∃ i ∈ round, thread i = t

variable {thread : I → T} {threads : Set T} {inv goal : S → Prop} {μ : S → Nat} {helpful : S → T}

namespace Progress

variable (h : Progress step thread threads inv goal μ helpful)
include h

theorem run_goal {s : S} (hs : goal s) (is : List I) : goal (run step s is) :=
  run_invariant goal (fun s i hs => h.stays s i hs) hs is

/-- Some turns in a row: as long as the measure stays, the named thread has had none of them. -/
theorem run_turns {s : S} (hs : inv s) (is : List I) :
    goal (run step s is) ∨ inv (run step s is) ∧ (μ (run step s is) < μ s ∨
      μ (run step s is) = μ s ∧ helpful (run step s is) = helpful s ∧
        ∀ i ∈ is, thread i ≠ helpful s) := by
  induction is generalizing s with
  | nil => exact .inr ⟨hs, .inr ⟨rfl, rfl, by simp⟩⟩
  | cons i is ih =>
    rw [run_cons]
    by_cases hgoal : goal s
    · exact .inl (h.run_goal (h.stays s i hgoal) is)
    obtain hnext | ⟨hinv, hlower⟩ := h.turn s i hs hgoal
    · exact .inl (h.run_goal hnext is)
    obtain hdone | ⟨hinv', hrest⟩ := ih hinv
    · exact .inl hdone
    refine .inr ⟨hinv', ?_⟩
    obtain hlt | ⟨heq, hsame, hother⟩ := hlower
    · obtain hlt' | ⟨heq', -⟩ := hrest <;> exact .inl (by omega)
    · obtain hlt' | ⟨heq', hsame', hothers⟩ := hrest
      · exact .inl (by omega)
      · refine .inr ⟨heq'.trans heq, hsame'.trans hsame, ?_⟩
        rw [hsame] at hothers
        exact List.forall_mem_cons.mpr ⟨hother, hothers⟩

theorem run_round {s : S} (hs : inv s) {round : List I} (hround : FairRound thread threads round) :
    goal (run step s round) ∨ inv (run step s round) ∧ μ (run step s round) < μ s := by
  by_cases hgoal : goal s
  · exact .inl (h.run_goal hgoal round)
  obtain hdone | ⟨hinv, hlt | ⟨-, -, hnone⟩⟩ := h.run_turns hs round
  · exact .inl hdone
  · exact .inr ⟨hinv, hlt⟩
  · obtain ⟨i, hi, hthread⟩ := hround _ (h.mem s hs hgoal)
    exact absurd hthread (hnone i hi)

/-- The rule: more fair rounds than the measure says reach the goal. -/
theorem run_fair {s : S} (hs : inv s) {rounds : List (List I)}
    (hfair : ∀ round ∈ rounds, FairRound thread threads round) (hμ : μ s < rounds.length) :
    goal (run step s rounds.flatten) := by
  induction rounds generalizing s with
  | nil => cases hμ
  | cons round rounds ih =>
    obtain ⟨hround, hrounds⟩ := List.forall_mem_cons.mp hfair
    rw [List.flatten_cons, run_append]
    obtain hdone | ⟨hinv, hlt⟩ := h.run_round hs hround
    · exact h.run_goal hdone _
    · rw [List.length_cons] at hμ
      exact ih hinv hrounds (by omega)

end Progress

end Transducer
