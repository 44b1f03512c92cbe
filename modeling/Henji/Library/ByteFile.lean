import Mathlib.Data.List.Basic

/-!
# Byte files

A file is a list of bytes. `slice` reads a range, `splice` writes bytes at an offset and `resize`
cuts or pads a file. A write leaves every range beside it as it was.
-/

namespace Henji

namespace ByteFile

variable {α : Type}

/-- The bytes of a range. -/
def slice (file : List α) (offset length : Nat) : List α := (file.drop offset).take length

/-- The file cut or padded to a length. -/
def resize (zero : α) (file : List α) (length : Nat) : List α :=
  file.take length ++ List.replicate (length - file.length) zero

/-- The file after bytes were written at an offset. -/
def splice (zero : α) (file : List α) (offset : Nat) (bytes : List α) : List α :=
  resize zero file offset ++ bytes ++ file.drop (offset + bytes.length)

variable {zero : α} {file bytes : List α} {offset length offset' length' : Nat}

theorem length_slice (h : offset + length ≤ file.length) :
    (slice file offset length).length = length := by
  rw [slice, List.length_take, List.length_drop]
  omega

theorem resize_of_le (h : length ≤ file.length) : resize zero file length = file.take length := by
  rw [resize, Nat.sub_eq_zero_of_le h, List.replicate_zero, List.append_nil]

theorem splice_of_le (h : offset ≤ file.length) :
    splice zero file offset bytes =
      file.take offset ++ (bytes ++ file.drop (offset + bytes.length)) := by
  rw [splice, resize_of_le h, List.append_assoc]

/-- A write at the end extends the file. -/
theorem splice_end : splice zero file file.length bytes = file ++ bytes := by
  rw [splice_of_le (Nat.le_refl _), List.take_length, List.drop_of_length_le (Nat.le_add_right _ _),
    List.append_nil]

theorem length_splice (h : offset + bytes.length ≤ file.length) :
    (splice zero file offset bytes).length = file.length := by
  rw [splice_of_le (by omega), List.length_append, List.length_append, List.length_take,
    List.length_drop]
  omega

theorem slice_append_left (h : offset + length ≤ file.length) :
    slice (file ++ bytes) offset length = slice file offset length := by
  unfold slice
  rw [List.drop_append_of_le_length (by omega), List.take_append_of_le_length]
  rw [List.length_drop]
  omega

theorem slice_append_right : slice (file ++ bytes) file.length bytes.length = bytes := by
  unfold slice
  rw [List.drop_append_of_le_length (Nat.le_refl _), List.drop_length, List.nil_append,
    List.take_length]

/-- What lies before a write stays. -/
theorem slice_splice_before (hin : offset ≤ file.length) (h : offset' + length' ≤ offset) :
    slice (splice zero file offset bytes) offset' length' = slice file offset' length' := by
  rw [splice_of_le hin, slice_append_left (by rw [List.length_take]; omega)]
  unfold slice
  rw [List.drop_take, List.take_take]
  congr 1
  omega

/-- What lies behind a write stays. -/
theorem slice_splice_after (hin : offset ≤ file.length) (h : offset + bytes.length ≤ offset') :
    slice (splice zero file offset bytes) offset' length' = slice file offset' length' := by
  rw [splice_of_le hin]
  unfold slice
  rw [List.drop_append, List.drop_append, List.drop_of_length_le (by rw [List.length_take]; omega),
    List.nil_append, List.length_take, Nat.min_eq_left hin,
    List.drop_of_length_le (by omega), List.nil_append, List.drop_drop]
  congr 2
  omega

/-- What was written is read back. -/
theorem slice_splice_self (hin : offset ≤ file.length) :
    slice (splice zero file offset bytes) offset bytes.length = bytes := by
  have hlength : (file.take offset).length = offset := by
    rw [List.length_take, Nat.min_eq_left hin]
  rw [splice_of_le hin]
  unfold slice
  rw [List.drop_append, hlength, Nat.sub_self, List.drop_zero,
    List.drop_of_length_le (Nat.le_of_eq hlength), List.nil_append,
    List.take_append_of_le_length (Nat.le_refl _), List.take_length]

theorem slice_take (h : offset + length ≤ length') :
    slice (file.take length') offset length = slice file offset length := by
  unfold slice
  rw [List.drop_take, List.take_take, Nat.min_eq_left (by omega)]

/-- A range of two parts. -/
theorem slice_append : slice (file ++ bytes) offset length =
    slice file offset length ++
      slice bytes (offset - file.length) (length - (file.length - offset)) := by
  unfold slice
  rw [List.drop_append, List.take_append, List.length_drop]

theorem slice_slice (h : offset' + length' ≤ length) :
    slice (slice file offset length) offset' length' = slice file (offset + offset') length' := by
  unfold slice
  rw [List.drop_take, List.take_take, List.drop_drop, Nat.min_eq_left (by omega)]

end ByteFile

end Henji
