/-!
# Alignment

Rounding an offset up to an alignment, in two ways.  `alignUp` is the arithmetic one: the least
multiple of any alignment that is not below the offset.  `alignUp?` is the one for powers of two
inside a 64-bit address range: it adds, clears the low bits, and gives nothing when the addition
leaves the range.

`alignUp` is pinned down by `dvd_alignUp`, `le_alignUp` and `alignUp_le_of_dvd`, and `alignUp?_eq`
says that on powers of two both agree as long as the result is an address.
-/

namespace UnboxedRecords

/-- One more than the largest offset or size: offsets and sizes are 64-bit numbers. -/
def addressLimit : Nat := 1 <<< 64

/-- Whether `n` is a power of two. -/
def isPowerOfTwo (n : Nat) : Bool := n == 1 <<< n.log2

theorem isPowerOfTwo_iff {n : Nat} : isPowerOfTwo n = true ↔ ∃ k, n = 1 <<< k := by
  constructor
  · intro h
    exact ⟨n.log2, by simpa [isPowerOfTwo] using h⟩
  · rintro ⟨k, rfl⟩
    simp [isPowerOfTwo, Nat.one_shiftLeft, Nat.log2_two_pow]

theorem isPowerOfTwo_one_shiftLeft (k : Nat) : isPowerOfTwo (1 <<< k) = true :=
  isPowerOfTwo_iff.2 ⟨k, rfl⟩

/-- A power of two is not zero. -/
theorem pos_of_isPowerOfTwo {n : Nat} (h : isPowerOfTwo n = true) : 0 < n := by
  obtain ⟨k, rfl⟩ := isPowerOfTwo_iff.1 h
  rw [Nat.one_shiftLeft]
  exact Nat.two_pow_pos k

/-- Of two powers of two, the larger is one as well. -/
theorem isPowerOfTwo_max {m n : Nat} (hm : isPowerOfTwo m = true) (hn : isPowerOfTwo n = true) :
    isPowerOfTwo (max m n) = true := by
  rcases Nat.le_total m n with h | h
  · rw [Nat.max_eq_right h]
    exact hn
  · rw [Nat.max_eq_left h]
    exact hm

/-- Of two powers of two, the smaller divides the larger. -/
theorem dvd_of_isPowerOfTwo {m n : Nat} (hm : isPowerOfTwo m = true) (hn : isPowerOfTwo n = true)
    (h : m ≤ n) : m ∣ n := by
  obtain ⟨j, rfl⟩ := isPowerOfTwo_iff.1 hm
  obtain ⟨k, rfl⟩ := isPowerOfTwo_iff.1 hn
  rw [Nat.one_shiftLeft, Nat.one_shiftLeft] at h ⊢
  exact Nat.pow_dvd_pow 2 ((Nat.pow_le_pow_iff_right (by decide)).1 h)

/-- The least multiple of `align` that is at least `value`. -/
def alignUp (value align : Nat) : Nat := (value + (align - 1)) / align * align

theorem dvd_alignUp (value align : Nat) : align ∣ alignUp value align :=
  Nat.dvd_mul_left align _

theorem le_alignUp {value align : Nat} (h : 0 < align) : value ≤ alignUp value align := by
  have := Nat.div_add_mod (value + (align - 1)) align
  have := Nat.mod_lt (value + (align - 1)) h
  have : align * ((value + (align - 1)) / align) = alignUp value align := Nat.mul_comm _ _
  omega

theorem alignUp_le_of_dvd {value align bound : Nat} (h : 0 < align) (hv : value ≤ bound)
    (hb : align ∣ bound) : alignUp value align ≤ bound := by
  obtain ⟨q, rfl⟩ := hb
  have : (value + (align - 1)) / align ≤ q := by
    rw [Nat.div_le_iff_le_mul_add_pred h]
    omega
  calc alignUp value align ≤ q * align := Nat.mul_le_mul_right align this
    _ = align * q := Nat.mul_comm _ _

/-- A multiple of the alignment stays what it is. -/
theorem alignUp_of_dvd {value align : Nat} (h : 0 < align) (hdvd : align ∣ value) :
    alignUp value align = value :=
  Nat.le_antisymm (alignUp_le_of_dvd h (Nat.le_refl value) hdvd) (le_alignUp h)

/-- `value` rounded up to the power of two `align` by clearing the low bits of a 64-bit sum, or
nothing when the sum does not fit. -/
def alignUp? (value align : Nat) : Option Nat :=
  let raised := value + (align - 1)
  if raised < addressLimit then some (raised &&& (addressLimit - align)) else none

/-- Clearing the `k` low bits of a 64-bit number rounds it down to a multiple of the
`k`-th power of two. -/
theorem and_addressLimit_sub_one_shiftLeft {n k : Nat} (hn : n < addressLimit) (hk : k ≤ 64) :
    n &&& (addressLimit - 1 <<< k) = n / 1 <<< k * 1 <<< k := by
  rw [Nat.one_shiftLeft]
  have hlt : n < 2 ^ 64 := hn
  have hmask : addressLimit - 2 ^ k = (2 ^ (64 - k) - 1) <<< k := by
    rw [Nat.shiftLeft_eq, Nat.sub_mul, ← Nat.pow_add, Nat.sub_add_cancel hk, Nat.one_mul]
    rfl
  have hdiv : n / 2 ^ k < 2 ^ (64 - k) := by
    rw [Nat.div_lt_iff_lt_mul (Nat.two_pow_pos k), ← Nat.pow_add, Nat.sub_add_cancel hk]
    exact hn
  apply Nat.eq_of_testBit_eq
  intro i
  rw [← Nat.shiftLeft_eq, hmask, Nat.testBit_and, Nat.testBit_shiftLeft, Nat.testBit_shiftLeft,
    Nat.testBit_div_two_pow, Nat.testBit_two_pow_sub_one]
  by_cases hi : k ≤ i
  · rw [Nat.sub_add_cancel hi]
    by_cases hl : i - k < 64 - k
    · simp [hi, hl]
    · have : n.testBit i = false := Nat.testBit_lt_two_pow
        (Nat.lt_of_lt_of_le hlt (Nat.pow_le_pow_right (by decide) (by omega)))
      simp [this]
  · simp [hi]

/-- Both ways of rounding agree on powers of two: the bounded one gives nothing exactly when the
least multiple lies outside the address range. -/
theorem alignUp?_eq {value align : Nat} (h : isPowerOfTwo align = true)
    (ha : align ≤ addressLimit) :
    alignUp? value align =
      if alignUp value align < addressLimit then some (alignUp value align) else none := by
  obtain ⟨k, rfl⟩ := isPowerOfTwo_iff.1 h
  have hpos : 0 < 1 <<< k := pos_of_isPowerOfTwo h
  have hk : k ≤ 64 := by
    rw [Nat.one_shiftLeft] at ha
    exact (Nat.pow_le_pow_iff_right (by decide)).1 ha
  have hdvd : 1 <<< k ∣ addressLimit := by
    rw [Nat.one_shiftLeft]
    exact Nat.pow_dvd_pow 2 hk
  unfold alignUp?
  by_cases hfit : value + (1 <<< k - 1) < addressLimit
  · have hle : alignUp value (1 <<< k) ≤ value + (1 <<< k - 1) := Nat.div_mul_le_self _ _
    have hlt : alignUp value (1 <<< k) < addressLimit := Nat.lt_of_le_of_lt hle hfit
    simp only [if_pos hfit, if_pos hlt, Option.some.injEq]
    exact and_addressLimit_sub_one_shiftLeft hfit hk
  · have hge : ¬ alignUp value (1 <<< k) < addressLimit := by
      intro hlt
      obtain ⟨q, hq⟩ := hdvd
      obtain ⟨r, hr⟩ := dvd_alignUp value (1 <<< k)
      have hrq : r < q := by
        rw [hq, hr] at hlt
        exact Nat.lt_of_mul_lt_mul_left hlt
      have hmul : 1 <<< k * (r + 1) ≤ 1 <<< k * q := Nat.mul_le_mul_left _ hrq
      have hv : value ≤ alignUp value (1 <<< k) := le_alignUp hpos
      rw [Nat.mul_add, Nat.mul_one, ← hr, ← hq] at hmul
      omega
    simp only [if_neg hfit, if_neg hge]

/-- The bounded rounding gives nothing for alignments beyond the address range. -/
theorem le_addressLimit_of_alignUp? {value align result : Nat}
    (hresult : alignUp? value align = some result) : align ≤ addressLimit := by
  refine Nat.le_of_not_lt fun hlt => ?_
  have hbig : ¬ value + (align - 1) < addressLimit := by omega
  rw [alignUp?, if_neg hbig] at hresult
  exact absurd hresult (by simp)

/-- What the bounded rounding gives is the least multiple, and an address. -/
theorem eq_alignUp_of_alignUp? {value align result : Nat} (h : isPowerOfTwo align = true)
    (hresult : alignUp? value align = some result) :
    result = alignUp value align ∧ alignUp value align < addressLimit := by
  rw [alignUp?_eq h (le_addressLimit_of_alignUp? hresult)] at hresult
  split at hresult
  · next hlt =>
    cases hresult
    exact ⟨rfl, hlt⟩
  · exact absurd hresult (by simp)

theorem le_of_alignUp? {value align result : Nat} (h : isPowerOfTwo align = true)
    (hresult : alignUp? value align = some result) : value ≤ result := by
  rw [(eq_alignUp_of_alignUp? h hresult).1]
  exact le_alignUp (pos_of_isPowerOfTwo h)

theorem dvd_of_alignUp? {value align result : Nat} (h : isPowerOfTwo align = true)
    (hresult : alignUp? value align = some result) : align ∣ result := by
  rw [(eq_alignUp_of_alignUp? h hresult).1]
  exact dvd_alignUp value align

end UnboxedRecords
