import Mathlib.Tactic

/-!
# Little-endian fields in byte buffers

A number is written as a fixed count of bytes, least significant first, and read back from
an offset. A buffer that is written field by field from its start holds the fields one after
another.
-/
namespace LittleEndian

/-- The low `width` bytes of a number, least significant first. -/
def bytes : Nat → Nat → List UInt8
  | 0, _ => []
  | width + 1, n => UInt8.ofNat n :: bytes width (n / 256)

/-- The number that bytes spell. -/
def value : List UInt8 → Nat
  | [] => 0
  | b :: bs => b.toNat + 256 * value bs

@[simp] theorem length_bytes (width n : Nat) : (bytes width n).length = width := by
  induction width generalizing n with
  | zero => rfl
  | succ width ih => simp [bytes, ih]

theorem value_bytes (width n : Nat) : value (bytes width n) = n % 256 ^ width := by
  induction width generalizing n with
  | zero => simp [bytes, value, Nat.mod_one]
  | succ width ih =>
    have hlow : (UInt8.ofNat n).toNat = n % 256 := UInt8.toNat_ofNat'
    rw [bytes, value, ih, hlow, Nat.pow_succ', Nat.mod_mul]

theorem value_bytes_of_lt {width n : Nat} (h : n < 256 ^ width) : value (bytes width n) = n := by
  rw [value_bytes, Nat.mod_eq_of_lt h]

theorem value_lt (bs : List UInt8) : value bs < 256 ^ bs.length := by
  induction bs with
  | nil => simp [value]
  | cons b bs ih =>
    have hb := b.toNat_lt
    rw [value, List.length_cons, Nat.pow_succ']
    omega

theorem bytes_value (bs : List UInt8) : bytes bs.length (value bs) = bs := by
  induction bs with
  | nil => rfl
  | cons b bs ih =>
    have hb := b.toNat_lt
    have hdiv : (b.toNat + 256 * value bs) / 256 = value bs := by omega
    have hlow : UInt8.ofNat (b.toNat + 256 * value bs) = b := by
      apply UInt8.toNat_inj.mp
      rw [UInt8.toNat_ofNat']
      omega
    rw [List.length_cons, value, bytes, hdiv, ih, hlow]

/-! ## Fields at an offset -/

/-- The number in `width` bytes from `offset` on. -/
def read (width offset : Nat) (buffer : List UInt8) : Nat :=
  value ((buffer.drop offset).take width)

/-- The buffer with a field stored at an offset. -/
def write (offset : Nat) (field buffer : List UInt8) : List UInt8 :=
  buffer.take offset ++ field ++ buffer.drop (offset + field.length)

theorem read_lt (width offset : Nat) (buffer : List UInt8) :
    read width offset buffer < 256 ^ width := by
  refine lt_of_lt_of_le (value_lt _) (Nat.pow_le_pow_right (by decide) ?_)
  exact List.length_take_le _ _

/-- What follows a field does not matter to it. -/
theorem read_append {width offset : Nat} {front : List UInt8} (h : offset + width ≤ front.length)
    (back : List UInt8) : read width offset (front ++ back) = read width offset front := by
  rw [read, read, List.drop_append_of_le_length (by omega),
    List.take_append_of_le_length (by rw [List.length_drop]; omega)]

/-- A byte outside of a field does not matter to it. -/
theorem read_set {width offset i : Nat} (h : i < offset ∨ offset + width ≤ i) (b : UInt8)
    (buffer : List UInt8) : read width offset (buffer.set i b) = read width offset buffer := by
  unfold read
  congr 1
  apply List.ext_getElem?
  intro j
  rcases Nat.lt_or_ge j width with hj | hj
  · rw [List.getElem?_take_of_lt hj, List.getElem?_take_of_lt hj, List.getElem?_drop,
      List.getElem?_drop, List.getElem?_set_ne (by omega)]
  · rw [List.getElem?_take_eq_none hj, List.getElem?_take_eq_none hj]

/-! ## Records -/

/-- Fields with their offsets, stored one by one. -/
def writeAll (fields : List (Nat × List UInt8)) (buffer : List UInt8) : List UInt8 :=
  fields.foldl (fun buffer field => write field.1 field.2 buffer) buffer

/-- The bytes of fields that lie one after another. -/
def record (fields : List (Nat × List UInt8)) : List UInt8 := fields.flatMap Prod.snd

/-- Every field starts where the one before it ends. -/
def Contiguous : Nat → List (Nat × List UInt8) → Prop
  | _, [] => True
  | start, field :: fields => field.1 = start ∧ Contiguous (start + field.2.length) fields

section Record

variable {fields : List (Nat × List UInt8)}

theorem writeAll_from {front : List UInt8} (h : Contiguous front.length fields)
    (buffer : List UInt8) :
    writeAll fields (front ++ buffer.drop front.length) =
      front ++ record fields ++ buffer.drop (front.length + (record fields).length) := by
  induction fields generalizing front with
  | nil => simp [writeAll, record]
  | cons field fields ih =>
    obtain ⟨hoffset, hrest⟩ := h
    have hwrite : write field.1 field.2 (front ++ buffer.drop front.length) =
        (front ++ field.2) ++ buffer.drop (front ++ field.2).length := by
      rw [hoffset, write, List.take_left, List.drop_append,
        List.drop_eq_nil_of_le (Nat.le_add_right _ _), List.nil_append, Nat.add_sub_cancel_left,
        List.drop_drop, List.length_append]
    rw [writeAll, List.foldl_cons, hwrite, ← writeAll, ih (by rwa [List.length_append])]
    simp [record, Nat.add_assoc]

/-- A buffer written field by field from its start holds the record in front. -/
theorem writeAll_eq (h : Contiguous 0 fields) (buffer : List UInt8) :
    writeAll fields buffer = record fields ++ buffer.drop (record fields).length := by
  have hnil : Contiguous ([] : List UInt8).length fields := h
  simpa using writeAll_from hnil buffer

/-- A record has the bytes of each field at the field's offset. -/
theorem record_getElem {start offset i : Nat} {field : List UInt8} (h : Contiguous start fields)
    (hm : (offset, field) ∈ fields) (hi : i < field.length) :
    start ≤ offset ∧ (record fields)[offset - start + i]? = field[i]? := by
  induction fields generalizing start with
  | nil => simp at hm
  | cons first fields ih =>
    obtain ⟨hoffset, hrest⟩ := h
    rcases List.mem_cons.mp hm with rfl | hm
    · have hoffset : offset = start := hoffset
      refine ⟨hoffset.ge, ?_⟩
      rw [hoffset, Nat.sub_self, Nat.zero_add, record, List.flatMap_cons,
        List.getElem?_append_left hi]
    · obtain ⟨hle, heq⟩ := ih hrest hm
      refine ⟨by omega, ?_⟩
      rw [record, List.flatMap_cons, List.getElem?_append_right (by omega), ← record, ← heq]
      congr 1
      omega

theorem read_record {offset : Nat} {field : List UInt8} (h : Contiguous 0 fields)
    (hm : (offset, field) ∈ fields) : read field.length offset (record fields) = value field := by
  rw [read]
  congr 1
  apply List.ext_getElem?
  intro i
  rcases Nat.lt_or_ge i field.length with hi | hi
  · have := (record_getElem h hm hi).2
    rw [Nat.sub_zero] at this
    rw [List.getElem?_take_of_lt hi, List.getElem?_drop, this]
  · rw [List.getElem?_eq_none hi, List.getElem?_take_eq_none hi]

theorem getD_record {offset i : Nat} {field : List UInt8} (h : Contiguous 0 fields)
    (hm : (offset, field) ∈ fields) (hi : i < field.length) :
    (record fields).getD (offset + i) 0 = field.getD i 0 := by
  have := (record_getElem h hm hi).2
  rw [Nat.sub_zero] at this
  rw [List.getD_eq_getElem?_getD, this, List.getD_eq_getElem?_getD]

/-- The field read from a buffer, written again, is the part of the buffer it was read from. -/
theorem bytes_read {width offset : Nat} {buffer : List UInt8}
    (h : offset + width ≤ buffer.length) :
    bytes width (read width offset buffer) = (buffer.drop offset).take width := by
  have hlen : ((buffer.drop offset).take width).length = width := by
    rw [List.length_take, List.length_drop]
    omega
  have hbytes := bytes_value ((buffer.drop offset).take width)
  rwa [hlen] at hbytes

theorem singleton_getD {offset : Nat} {buffer : List UInt8} (h : offset < buffer.length) :
    [buffer.getD offset 0] = (buffer.drop offset).take 1 := by
  rw [List.drop_eq_getElem_cons h, List.take_succ_cons, List.take_zero,
    List.getD_eq_getElem?_getD, List.getElem?_eq_getElem h, Option.getD_some]

/-- Fields that are parts of a buffer, one after another, spell that stretch of the buffer. -/
theorem record_eq_take {start : Nat} {buffer : List UInt8} (h : Contiguous start fields)
    (hparts : ∀ field ∈ fields, field.2 = (buffer.drop field.1).take field.2.length) :
    record fields = (buffer.drop start).take (record fields).length := by
  induction fields generalizing start with
  | nil => simp [record]
  | cons field fields ih =>
    obtain ⟨hoffset, hrest⟩ := h
    obtain ⟨hfirst, hparts⟩ := List.forall_mem_cons.mp hparts
    have hcons : record (field :: fields) = field.2 ++ record fields := rfl
    rw [hcons, List.length_append, List.take_add, List.drop_drop, ← ih hrest hparts, ← hoffset,
      ← hfirst]

/-- Fields that are the parts of a buffer spell it. -/
theorem record_eq {buffer : List UInt8} (h : Contiguous 0 fields)
    (hparts : ∀ field ∈ fields, field.2 = (buffer.drop field.1).take field.2.length)
    (hlen : (record fields).length = buffer.length) : record fields = buffer := by
  rw [record_eq_take h hparts, hlen, List.drop_zero, List.take_length]

end Record

end LittleEndian
