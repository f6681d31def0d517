/-!
# Bytes

Words as bytes, least significant byte first, and the replacement of a stretch of an array of bytes.

Writing a word and reading it back gives the word less what did not fit
(`ofLittleEndian_littleEndian`), and reading and writing back gives the same bytes
(`littleEndian_ofLittleEndian`).  An overwritten array holds the new bytes inside the stretch and
the old ones outside (`getElem?_overwrite`, `getElem?_overwrite_of_lt`, `getElem?_overwrite_of_le`).
-/

namespace UnboxedRecords

/-- The `count` low bytes of `value`, least significant byte first. -/
def littleEndian : (count value : Nat) → List UInt8
  | 0, _ => []
  | count + 1, value => UInt8.ofNat (value % 256) :: littleEndian count (value / 256)

/-- The number that a list of bytes stands for, least significant byte first. -/
def ofLittleEndian : List UInt8 → Nat
  | [] => 0
  | byte :: bytes => byte.toNat + 256 * ofLittleEndian bytes

@[simp] theorem length_littleEndian (count value : Nat) :
    (littleEndian count value).length = count := by
  induction count generalizing value with
  | zero => rfl
  | succ count ih => simp [littleEndian, ih]

/-- Reading back what was written gives the number less what did not fit. -/
theorem ofLittleEndian_littleEndian (count value : Nat) :
    ofLittleEndian (littleEndian count value) = value % 1 <<< (8 * count) := by
  rw [Nat.one_shiftLeft]
  induction count generalizing value with
  | zero => simp [littleEndian, ofLittleEndian, Nat.mod_one]
  | succ count ih =>
    have hbyte : (UInt8.ofNat (value % 256)).toNat = value % 256 := by simp
    rw [littleEndian, ofLittleEndian, ih, hbyte, Nat.mul_succ, Nat.pow_add, Nat.mul_comm (2 ^ _),
      show (2 : Nat) ^ 8 = 256 from rfl, Nat.mod_mul]

/-- Writing back what was read gives the same bytes. -/
theorem littleEndian_ofLittleEndian (bytes : List UInt8) :
    littleEndian bytes.length (ofLittleEndian bytes) = bytes := by
  induction bytes with
  | nil => rfl
  | cons byte bytes ih =>
    have hbyte : byte.toNat < 256 := byte.toNat_lt
    have hlow : (byte.toNat + 256 * ofLittleEndian bytes) % 256 = byte.toNat := by omega
    have hhigh : (byte.toNat + 256 * ofLittleEndian bytes) / 256 = ofLittleEndian bytes := by omega
    rw [List.length_cons, ofLittleEndian, littleEndian, hlow, hhigh, ih]
    simp

/-- The array with the elements from `start` on replaced by `bytes`; what would come to lie behind
the end of the array is dropped. -/
def overwrite (array : Array UInt8) (start : Nat) : List UInt8 → Array UInt8
  | [] => array
  | byte :: bytes => overwrite (array.setIfInBounds start byte) (start + 1) bytes

@[simp] theorem size_overwrite (array : Array UInt8) (start : Nat) (bytes : List UInt8) :
    (overwrite array start bytes).size = array.size := by
  induction bytes generalizing array start with
  | nil => rfl
  | cons byte bytes ih => simp [overwrite, ih]

/-- Elements before the stretch keep their value. -/
theorem getElem?_overwrite_of_lt {array : Array UInt8} {start : Nat} {bytes : List UInt8} {i : Nat}
    (h : i < start) : (overwrite array start bytes)[i]? = array[i]? := by
  induction bytes generalizing array start with
  | nil => rfl
  | cons byte bytes ih =>
    rw [overwrite, ih (Nat.lt_succ_of_lt h), Array.getElem?_setIfInBounds_ne (by omega)]

/-- Elements behind the stretch keep their value. -/
theorem getElem?_overwrite_of_le {array : Array UInt8} {start : Nat} {bytes : List UInt8} {i : Nat}
    (h : start + bytes.length ≤ i) : (overwrite array start bytes)[i]? = array[i]? := by
  induction bytes generalizing array start with
  | nil => rfl
  | cons byte bytes ih =>
    simp only [List.length_cons] at h
    rw [overwrite, ih (by omega), Array.getElem?_setIfInBounds_ne (by omega)]

/-- Inside the stretch the new bytes are found. -/
theorem getElem?_overwrite {array : Array UInt8} {start : Nat} {bytes : List UInt8} {i : Nat}
    (hfit : start + bytes.length ≤ array.size) (hi : i < bytes.length) :
    (overwrite array start bytes)[start + i]? = bytes[i]? := by
  induction bytes generalizing array start i with
  | nil => simp at hi
  | cons byte bytes ih =>
    simp only [List.length_cons] at hfit hi
    cases i with
    | zero =>
      have hstart : start < array.size := by omega
      have hbefore : start + 0 < start + 1 := by omega
      rw [overwrite, getElem?_overwrite_of_lt hbefore]
      simp [hstart]
    | succ i =>
      rw [overwrite, show start + (i + 1) = start + 1 + i by omega,
        ih (by simpa using (by omega)) (by omega)]
      simp

end UnboxedRecords
