import Mathlib.Tactic

/-!
# Little-endian fields and fixed-size blocks of bytes

Byte strings are lists of `UInt8`. Integer fields are written as
little-endian base-256 digits, records are assembled by overwriting ranges
of a zeroed buffer, and long strings are cut into zero-padded blocks. The
lemmas say that every field is read back from its own range, that ranges
which do not meet leave each other alone, and that the blocks of a string
joined again give the string.
-/

namespace TuwaiqOS.ByteFields

/-- The `width` low little-endian base-256 digits of a natural number. -/
def leBytes : ℕ → ℕ → List UInt8
  | 0,_ => []
  | width+1,value => UInt8.ofNat value::leBytes width (value/256)

/-- The natural number whose little-endian base-256 digits are given. -/
def leValue : List UInt8 → ℕ
  | [] => 0
  | byte::rest => byte.toNat+256*leValue rest

/-- A field occupies exactly its declared number of bytes. -/
@[simp] theorem length_leBytes (width value : ℕ) : (leBytes width value).length=width := by
  induction width generalizing value with
  | zero => rfl
  | succ width ih => simp only [leBytes,List.length_cons,ih]

/-- A value that fits its field is read back unchanged. -/
theorem leValue_leBytes {width value : ℕ} (hfit : value<256^width) :
    leValue (leBytes width value)=value := by
  induction width generalizing value with
  | zero =>
    simp only [pow_zero,Nat.lt_one_iff] at hfit
    simp only [leBytes,leValue,hfit]
  | succ width ih =>
    have hrest : value/256<256^width := by
      rw [pow_succ] at hfit
      exact Nat.div_lt_of_lt_mul (by rwa [mul_comm] at hfit)
    simp only [leBytes,leValue,ih hrest,UInt8.toNat_ofNat']
    have hsplit := Nat.mod_add_div value 256
    omega

/-- Every read field is bounded by the number of its digits. -/
theorem leValue_lt (bytes : List UInt8) : leValue bytes<256^bytes.length := by
  induction bytes with
  | nil => simp only [leValue,List.length_nil,pow_zero,Nat.zero_lt_one]
  | cons byte rest ih =>
    have hbyte : byte.toNat<256 := byte.toNat_lt
    simp only [leValue,List.length_cons,pow_succ]
    omega

/-- The digits of a read field are the bytes it was read from. -/
theorem leBytes_leValue (bytes : List UInt8) : leBytes bytes.length (leValue bytes)=bytes := by
  induction bytes with
  | nil => rfl
  | cons byte rest ih =>
    have hbyte : byte.toNat<256 := byte.toNat_lt
    have hlow : UInt8.ofNat (byte.toNat+256*leValue rest)=byte := by
      apply UInt8.toNat_inj.mp
      rw [UInt8.toNat_ofNat']
      omega
    have hhigh : (byte.toNat+256*leValue rest)/256=leValue rest := by omega
    rw [List.length_cons,leValue,leBytes,hlow,hhigh,ih]

/-- The range of `count` bytes that starts at `offset`. -/
def slice (bytes : List UInt8) (offset count : ℕ) : List UInt8 :=
  (bytes.drop offset).take count

/-- Overwrite the range that starts at `offset` by `patch`. -/
def splice (bytes : List UInt8) (offset : ℕ) (patch : List UInt8) : List UInt8 :=
  bytes.take offset++patch++bytes.drop (offset+patch.length)

variable {bytes patch : List UInt8} {offset count : ℕ}

/-- Overwriting inside a buffer keeps its length. -/
theorem length_splice (hfit : offset+patch.length≤bytes.length) :
    (splice bytes offset patch).length=bytes.length := by
  simp only [splice,List.length_append,List.length_take,List.length_drop]
  omega

/-- A slice taken inside a buffer has its full length. -/
theorem length_slice (hfit : offset+count≤bytes.length) :
    (slice bytes offset count).length=count := by
  simp only [slice,List.length_take,List.length_drop]
  omega

/-- The overwritten range reads back as the patch. -/
theorem slice_splice_same (hoffset : offset≤bytes.length) (hcount : count=patch.length) :
    slice (splice bytes offset patch) offset count=patch := by
  have htake : (bytes.take offset).length=offset := by
    rw [List.length_take]
    omega
  subst hcount
  rw [slice,splice,List.append_assoc,List.drop_left' htake,List.take_left' rfl]

/-- A range that ends before the patch is not touched by it. -/
theorem slice_splice_before {start : ℕ} (hbefore : start+count≤offset)
    (hoffset : offset≤bytes.length) :
    slice (splice bytes offset patch) start count=slice bytes start count := by
  apply List.ext_getElem?
  intro index
  simp only [slice,splice,List.getElem?_take,List.getElem?_drop,List.append_assoc,
    List.getElem?_append,List.length_take]
  by_cases hindex : index<count
  · rw [if_pos hindex,if_pos hindex,if_pos (by omega),if_pos (by omega)]
  · rw [if_neg hindex,if_neg hindex]

/-- A range that starts after the patch is not touched by it. -/
theorem slice_splice_after {start : ℕ} (hafter : offset+patch.length ≤ start)
    (hoffset : offset≤bytes.length) :
    slice (splice bytes offset patch) start count=slice bytes start count := by
  apply List.ext_getElem?
  intro index
  simp only [slice,splice,List.getElem?_take,List.getElem?_drop,List.append_assoc,
    List.getElem?_append,List.length_take]
  by_cases hindex : index<count
  · rw [if_pos hindex,if_pos hindex,if_neg (by omega),if_neg (by omega)]
    congr 1
    omega
  · rw [if_neg hindex,if_neg hindex]

section

variable (size : ℕ) (bytes : List UInt8)

/-- Block number `index` of a byte string, padded with zeros to `size`. -/
def chunk (index : ℕ) : List UInt8 :=
  splice (List.replicate size 0) 0 (slice bytes (index*size) (min (bytes.length-index*size) size))

/-- Every block has exactly the block size. -/
theorem length_chunk (index : ℕ) : (chunk size bytes index).length=size := by
  rw [chunk,length_splice]
  · exact List.length_replicate
  · simp only [slice,List.length_take,List.length_drop,List.length_replicate]
    omega

/-- The first block is the front of the string followed by its padding. -/
theorem chunk_zero : chunk size bytes 0=bytes.take size++List.replicate (size-bytes.length) 0 := by
  have hslice : slice bytes (0*size) (min (bytes.length-0*size) size)=bytes.take size := by
    simp only [slice,Nat.zero_mul,List.drop_zero,Nat.sub_zero]
    rw [Nat.min_comm,List.take_eq_take_min]
    simp
  rw [chunk,hslice,splice]
  simp only [List.take_zero,List.nil_append,Nat.zero_add,List.length_take,List.drop_replicate]
  congr 2
  omega

/-- Later blocks are the blocks of the rest of the string. -/
theorem chunk_succ (index : ℕ) : chunk size bytes (index+1)=chunk size (bytes.drop size) index := by
  have hoffset : (index+1)*size=size+index*size := by ring
  simp only [chunk,slice,List.length_drop,List.drop_drop,hoffset]
  congr 3
  omega

end

/-- Enough blocks joined again begin with the whole string. -/
theorem take_flatMap_chunk {size : ℕ} (hfit : bytes.length ≤ count*size) :
    ((List.range count).flatMap (chunk size bytes)).take bytes.length=bytes := by
  induction count generalizing bytes with
  | zero =>
    have hnil : bytes=[] := List.length_eq_zero_iff.mp (by omega)
    subst hnil
    rfl
  | succ count ih =>
    have hrest : ((List.range count).map Nat.succ).flatMap (chunk size bytes)=
        (List.range count).flatMap (chunk size (bytes.drop size)) := by
      rw [List.flatMap_map]
      congr 1
      funext index
      exact chunk_succ size bytes index
    rw [List.range_succ_eq_map,List.flatMap_cons,hrest,List.take_append,
      length_chunk,chunk_zero]
    by_cases hlong : bytes.length ≤ size
    · have hzero : bytes.length-size=0 := by omega
      rw [hzero,List.take_zero,List.append_nil,List.take_append,List.take_take,
        Nat.min_eq_left hlong,List.take_length,List.length_take,Nat.min_eq_right hlong,
        Nat.sub_self,List.take_zero,List.append_nil]
    · have hpad : size-bytes.length=0 := by omega
      have htail := @ih (bytes.drop size) (by
        rw [List.length_drop]
        have hexpand : (count+1)*size=count*size+size := by ring
        omega)
      rw [List.length_drop] at htail
      rw [hpad,List.replicate_zero,List.append_nil,List.take_take,
        Nat.min_eq_right (by omega),htail,List.take_append_drop]

end TuwaiqOS.ByteFields
