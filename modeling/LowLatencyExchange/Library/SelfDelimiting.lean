import Mathlib.Tactic

/-!
# Self-delimiting serialization

An encoder delimits what it encodes if, whatever follows two encodings, equal sequences hold
equal values and equal rests. Values are compared by an observation, so that parts that are
not written do not matter. Delimiting encoders are put in a row, and in a list behind its
length.
-/
namespace SelfDelimiting

variable {A B C : Type*}

/-- The encoding of a value that satisfies `P` can be cut off any sequence it starts. -/
def Delimits (P : A → Prop) (observe : A → C) (encode : A → List B) : Prop :=
  ∀ ⦃a a'⦄, P a → P a' → ∀ ⦃rest rest'⦄, encode a ++ rest = encode a' ++ rest' →
    observe a = observe a' ∧ rest = rest'

variable {P : A → Prop} {observe : A → C} {encode : A → List B}

/-- Encodings of one length that determine their value. -/
theorem delimits_of_length {n : Nat} (hlength : ∀ a, P a → (encode a).length = n)
    (hinj : ∀ a a', P a → P a' → encode a = encode a' → observe a = observe a') :
    Delimits P observe encode := by
  intro a a' ha ha' rest rest' h
  obtain ⟨hencode, hrest⟩ := List.append_inj h ((hlength a ha).trans (hlength a' ha').symm)
  exact ⟨hinj a a' ha ha' hencode, hrest⟩

/-- Lists of one length, element by element. -/
theorem Delimits.flatMap (h : Delimits P observe encode) {as as' : List A}
    (has : ∀ a ∈ as, P a) (has' : ∀ a ∈ as', P a) (hlength : as.length = as'.length)
    {rest rest' : List B} (heq : as.flatMap encode ++ rest = as'.flatMap encode ++ rest') :
    as.map observe = as'.map observe ∧ rest = rest' := by
  induction as generalizing as' with
  | nil =>
    obtain rfl := List.length_eq_zero_iff.mp hlength.symm
    exact ⟨rfl, heq⟩
  | cons a as ih =>
    obtain ⟨a', as', rfl⟩ := List.exists_cons_of_length_eq_add_one hlength.symm
    obtain ⟨ha, has⟩ := List.forall_mem_cons.mp has
    obtain ⟨ha', has'⟩ := List.forall_mem_cons.mp has'
    simp only [List.flatMap_cons, List.append_assoc] at heq
    obtain ⟨hfirst, heq⟩ := h ha ha' heq
    obtain ⟨hmap, hrest⟩ := ih has has' (by simpa using hlength) heq
    exact ⟨by rw [List.map_cons, List.map_cons, hfirst, hmap], hrest⟩

/-- A list behind a symbol that stands for its length. -/
theorem Delimits.counted (h : Delimits P observe encode) {count : Nat → B} {bound : Nat}
    (hcount : Set.InjOn count (Set.Iio bound)) :
    Delimits (fun as : List A => as.length < bound ∧ ∀ a ∈ as, P a) (List.map observe)
      (fun as => count as.length :: as.flatMap encode) := by
  intro as as' has has' rest rest' heq
  simp only [List.cons_append, List.cons.injEq] at heq
  exact h.flatMap has.2 has'.2 (hcount has.1 has'.1 heq.1) heq.2

end SelfDelimiting
