import LowLatencyExchange.Library.Transducer
import Mathlib.Tactic

/-!
# Streams of records

A reader takes the next record off a sequence of symbols, and always takes at least one
symbol. `consume` feeds record after record to a state until the input ends, a record cannot
be read or a record is refused. The records of an encoded list come back in order, and what
follows them is read as if it stood alone.
-/
namespace RecordStream

/-- What one attempt to read finds. -/
inductive Read (B R E : Type*) where
  | ended
  | error (e : E)
  | record (r : R) (rest : List B)

structure Reader (B R E : Type*) where
  read : List B → Read B R E
  shorter : ∀ {input r rest}, read input = .record r rest → rest.length < input.length

variable {B R E S : Type*}

/-- The state after the records that were accepted, and the error that stopped the loop. -/
def consume (reader : Reader B R E) (apply : S → R → S × Option E) (s : S) (input : List B) :
    S × Option E :=
  match _h : reader.read input with
  | .ended => (s, none)
  | .error e => (s, some e)
  | .record r rest =>
    match apply s r with
    | (s, some e) => (s, some e)
    | (s, none) => consume reader apply s rest
termination_by input.length
decreasing_by exact reader.shorter _h

section Equations

variable {reader : Reader B R E} (apply : S → R → S × Option E) (s : S) {input : List B}

theorem consume_ended (h : reader.read input = .ended) :
    consume reader apply s input = (s, none) := by
  rw [consume]
  split
  · rfl
  · simp_all
  · simp_all

theorem consume_error {e : E} (h : reader.read input = .error e) :
    consume reader apply s input = (s, some e) := by
  rw [consume]
  split
  · simp_all
  · simp_all
  · simp_all

theorem consume_record {r : R} {rest : List B} (h : reader.read input = .record r rest) :
    consume reader apply s input =
      match apply s r with
      | (s, some e) => (s, some e)
      | (s, none) => consume reader apply s rest := by
  rw [consume]
  split
  · simp_all
  · simp_all
  · next r' rest' h' =>
    rw [h] at h'
    cases h'
    rfl

end Equations

/-- Records that are read back and accepted one by one bring the loop to what follows them. -/
theorem consume_encoded {reader : Reader B R E} {encode : R → List B}
    {apply : S → R → S × Option E} {rs : List R}
    (hread : ∀ r ∈ rs, ∀ rest, reader.read (encode r ++ rest) = .record r rest) {s : S}
    (happly : ∀ refusal ∈ Transducer.outputs apply s rs, refusal = none) (rest : List B) :
    consume reader apply s (rs.flatMap encode ++ rest) =
      consume reader apply (Transducer.run apply s rs) rest := by
  induction rs generalizing s with
  | nil => rfl
  | cons r rs ih =>
    rw [Transducer.outputs_cons] at happly
    obtain ⟨hfirst, hrest⟩ := List.forall_mem_cons.mp happly
    rw [List.flatMap_cons, List.append_assoc,
      consume_record apply s (hread r List.mem_cons_self _), Transducer.run_cons]
    generalize apply s r = out at hfirst hrest ⊢
    obtain ⟨s', refusal⟩ := out
    obtain rfl : refusal = none := hfirst
    exact ih (fun r' hr' => hread r' (List.mem_cons_of_mem r hr')) hrest

/-! ## All records of an input -/

/-- The records read until the input ends or one cannot be read. -/
def records (reader : Reader B R E) (input : List B) : List R × Option E :=
  consume reader (fun rs r => (rs ++ [r], none)) [] input

theorem run_collect (front rs : List R) :
    Transducer.run (fun rs r => (rs ++ [r], (none : Option E))) front rs = front ++ rs ∧
    ∀ refusal ∈ Transducer.outputs (fun rs r => (rs ++ [r], (none : Option E))) front rs,
      refusal = none := by
  induction rs generalizing front with
  | nil => simp
  | cons r rs ih =>
    obtain ⟨hrun, houtputs⟩ := ih (front ++ [r])
    rw [Transducer.run_cons, Transducer.outputs_cons, hrun]
    exact ⟨by simp, List.forall_mem_cons.mpr ⟨rfl, houtputs⟩⟩

/-- A list of records comes back from its encoding. -/
theorem records_encoded {reader : Reader B R E} {encode : R → List B} {rs : List R}
    (hread : ∀ r ∈ rs, ∀ rest, reader.read (encode r ++ rest) = .record r rest)
    (hend : reader.read [] = .ended) : records reader (rs.flatMap encode) = (rs, none) := by
  obtain ⟨hrun, houtputs⟩ := run_collect (E := E) [] rs
  have hconsume := consume_encoded hread houtputs []
  rw [List.append_nil, hrun, consume_ended _ _ hend] at hconsume
  exact hconsume

/-- Where the reader takes off exactly the encoding of a record, an input that is read to its
end is the encoding of its records. -/
theorem records_sound {reader : Reader B R E} {encode : R → List B}
    (hread : ∀ {input r rest}, reader.read input = .record r rest → input = encode r ++ rest)
    (hend : ∀ {input}, reader.read input = .ended → input = []) {input : List B} {rs : List R}
    (h : records reader input = (rs, none)) : input = rs.flatMap encode := by
  have hfront : ∀ n front input, input.length = n →
      consume reader (fun rs r => (rs ++ [r], none)) front input = (rs, none) →
      ∃ back, rs = front ++ back ∧ input = back.flatMap encode := by
    intro n
    induction n using Nat.strong_induction_on with
    | _ n ih =>
      intro front input hn hconsume
      cases hr : reader.read input with
      | ended =>
        rw [consume_ended _ _ hr] at hconsume
        cases hconsume
        exact ⟨[], by simp, hend hr⟩
      | error e =>
        rw [consume_error _ _ hr] at hconsume
        cases hconsume
      | record r rest =>
        rw [consume_record _ _ hr] at hconsume
        obtain ⟨back, hrs, hrest⟩ := ih rest.length (hn ▸ reader.shorter hr) _ rest rfl hconsume
        refine ⟨r :: back, by simp [hrs], ?_⟩
        rw [hread hr, hrest, List.flatMap_cons]
  obtain ⟨back, hrs, hinput⟩ := hfront input.length [] input rfl h
  rw [hrs, List.nil_append]
  exact hinput

/-! ## Cut inputs -/

/-- A front part of an encoded list holds some records whole and, unless it ends with them,
a part of the next one. -/
theorem take_encoded (encode : R → List B) (rs : List R) (n : Nat)
    (hn : n ≤ (rs.flatMap encode).length) :
    ∃ whole after, rs = whole ++ after ∧ (whole.flatMap encode).length ≤ n ∧
      ((after = [] ∧ (rs.flatMap encode).take n = whole.flatMap encode) ∨
        ∃ r after', after = r :: after' ∧
          n - (whole.flatMap encode).length < (encode r).length ∧
          (rs.flatMap encode).take n =
            whole.flatMap encode ++ (encode r).take (n - (whole.flatMap encode).length)) := by
  induction rs generalizing n with
  | nil => exact ⟨[], [], rfl, Nat.zero_le n, .inl ⟨rfl, List.take_nil⟩⟩
  | cons r rs ih =>
    rw [List.flatMap_cons] at hn ⊢
    rcases Nat.lt_or_ge n (encode r).length with hlt | hge
    · refine ⟨[], r :: rs, rfl, Nat.zero_le n, .inr ⟨r, rs, rfl, hlt, ?_⟩⟩
      exact List.take_append_of_le_length hlt.le
    · rw [List.length_append] at hn
      obtain ⟨whole, after, hrs, hle, hcut⟩ := ih (n - (encode r).length) (by omega)
      have htake : (encode r ++ rs.flatMap encode).take n =
          encode r ++ (rs.flatMap encode).take (n - (encode r).length) := by
        rw [List.take_append, List.take_of_length_le hge]
      have hlength : ((r :: whole).flatMap encode).length =
          (encode r).length + (whole.flatMap encode).length := by
        rw [List.flatMap_cons, List.length_append]
      refine ⟨r :: whole, after, by rw [hrs, List.cons_append], by omega, ?_⟩
      rcases hcut with ⟨hnil, hwhole⟩ | ⟨r', after', hcons, hlt, hpart⟩
      · exact .inl ⟨hnil, by rw [htake, hwhole, List.flatMap_cons]⟩
      · have hsub : n - ((r :: whole).flatMap encode).length =
            n - (encode r).length - (whole.flatMap encode).length := by
          omega
        refine .inr ⟨r', after', hcons, by omega, ?_⟩
        rw [htake, hpart, hsub, List.flatMap_cons, List.append_assoc]

end RecordStream
