import Mathlib.Tactic

/-!
# Hashes that fold a step over their input

When the step is injective in the running hash and in the symbol, equal tails cancel and a
change of a single symbol changes the hash.
-/
namespace FoldHash

variable {H B : Type*} {step : H → B → H}

theorem foldl_injective (hstate : ∀ b, Function.Injective (step · b)) (bs : List B) :
    Function.Injective (fun h => bs.foldl step h) := by
  induction bs with
  | nil => exact fun _ _ h => h
  | cons b bs ih => exact fun _ _ h => hstate b (ih h)

/-- A single changed symbol changes the hash. -/
theorem foldl_set_ne (hstate : ∀ b, Function.Injective (step · b))
    (hsymbol : ∀ h, Function.Injective (step h)) {bs : List B} {i : Nat} {b : B}
    (hi : i < bs.length) (hb : bs[i] ≠ b) (h : H) :
    (bs.set i b).foldl step h ≠ bs.foldl step h := by
  induction bs generalizing h i with
  | nil => simp at hi
  | cons x bs ih =>
    cases i with
    | zero =>
      intro heq
      exact hb (hsymbol h (foldl_injective hstate bs heq)).symm
    | succ i => exact ih (by simpa using hi) (by simpa using hb) (step h x)

end FoldHash
