import Mathlib.Data.Nat.ModEq

/-! Addresses rounded up by a mask, as machine words do it. -/
namespace Flat

variable {w k a m : ℕ}

/-- The lower `k` bits masked away. -/
theorem toNat_and_allOnes_shiftLeft (x : BitVec w) (k : ℕ) :
    (x &&& BitVec.allOnes w <<< k).toNat = x.toNat / 2 ^ k * 2 ^ k := by
  have hshift : x &&& BitVec.allOnes w <<< k = (x >>> k) <<< k := by
    ext i hi
    simp only [BitVec.getElem_and, BitVec.getElem_shiftLeft, BitVec.getElem_allOnes,
      BitVec.getElem_ushiftRight]
    by_cases h : i < k
    · simp [h]
    · simp [h, BitVec.getLsbD_eq_getElem, hi, Nat.add_sub_cancel' (Nat.le_of_not_lt h)]
  rw [hshift, BitVec.toNat_shiftLeft, BitVec.toNat_ushiftRight, Nat.shiftLeft_eq,
    Nat.shiftRight_eq_div_pow]
  exact Nat.mod_eq_of_lt (Nat.lt_of_le_of_lt (Nat.div_mul_le_self _ _) x.isLt)

/-- `(a + m) & ~m` in words of `w` bits. -/
def maskUp (w a m : ℕ) : ℕ := (BitVec.ofNat w (a + m) &&& ~~~ BitVec.ofNat w m).toNat

/-- What the mask takes away, whether or not it is one less than a power of two. -/
theorem maskUp_add_and (h : a + m < 2 ^ w) : maskUp w a m + ((a + m) &&& m) = a + m := by
  have hzero : (BitVec.ofNat w (a + m) &&& ~~~ BitVec.ofNat w m) &&&
      (BitVec.ofNat w (a + m) &&& BitVec.ofNat w m) = 0#w := by
    apply BitVec.eq_of_getLsbD_eq
    intro i hi
    simp only [BitVec.getLsbD_and, BitVec.getLsbD_not, BitVec.getLsbD_zero]
    cases (BitVec.ofNat w m).getLsbD i <;> simp
  have hsum : (BitVec.ofNat w (a + m) &&& ~~~ BitVec.ofNat w m) +
      (BitVec.ofNat w (a + m) &&& BitVec.ofNat w m) = BitVec.ofNat w (a + m) := by
    rw [BitVec.add_eq_or_of_and_eq_zero _ _ hzero]
    apply BitVec.eq_of_getLsbD_eq
    intro i hi
    simp only [BitVec.getLsbD_or, BitVec.getLsbD_and, BitVec.getLsbD_not]
    cases (BitVec.ofNat w m).getLsbD i <;> simp [hi]
  have hand : (BitVec.ofNat w (a + m) &&& BitVec.ofNat w m).toNat = (a + m) &&& m := by
    rw [BitVec.toNat_and, BitVec.toNat_ofNat, BitVec.toNat_ofNat, Nat.mod_eq_of_lt h,
      Nat.mod_eq_of_lt (by omega)]
  have hnat := BitVec.toNat_add_of_and_eq_zero hzero
  rw [hsum, hand, BitVec.toNat_ofNat, Nat.mod_eq_of_lt h] at hnat
  exact hnat.symm

theorem le_maskUp (h : a + m < 2 ^ w) : a ≤ maskUp w a m := by
  have hand : (a + m) &&& m ≤ m := Nat.and_le_right
  have := maskUp_add_and h
  omega

/-- A mask of `k` bits leaves a multiple of `2 ^ k`, also where the sum wraps. -/
theorem maskUp_mod (hm : m = 2 ^ k - 1) : maskUp w a m % 2 ^ k = 0 := by
  apply Nat.eq_of_testBit_eq
  intro i
  unfold maskUp
  rw [Nat.testBit_mod_two_pow, Nat.zero_testBit, BitVec.testBit_toNat, BitVec.getLsbD_and,
    BitVec.getLsbD_not, BitVec.getLsbD_ofNat, BitVec.getLsbD_ofNat, hm, Nat.testBit_two_pow_sub_one]
  by_cases hi : i < k <;> simp [hi]

/-- A mask of `k` bits does not see a displacement by a multiple of `2 ^ k`, in either direction. -/
theorem maskUp_shift {b x y : ℕ} (hm : m < 2 ^ k) (hshift : b + x = a + y) (hxy : x % 2 ^ k = y % 2 ^ k)
    (ha : a + m < 2 ^ w) (hb : b + m < 2 ^ w) : maskUp w b m + x = maskUp w a m + y := by
  have hlow : ∀ z, z &&& m = z % 2 ^ k &&& m := by
    intro z
    have hlt : z &&& m < 2 ^ k := Nat.lt_of_le_of_lt Nat.and_le_right hm
    rw [← Nat.mod_eq_of_lt hlt, Nat.and_mod_two_pow, Nat.mod_eq_of_lt hm]
  have hab : b ≡ a [MOD 2 ^ k] := Nat.ModEq.add_right_cancel hxy (congrArg (· % 2 ^ k) hshift)
  have hmod : (b + m) % 2 ^ k = (a + m) % 2 ^ k := hab.add_right m
  have hadd := maskUp_add_and ha
  have hadd' := maskUp_add_and hb
  rw [hlow, hmod, ← hlow] at hadd'
  omega

end Flat
