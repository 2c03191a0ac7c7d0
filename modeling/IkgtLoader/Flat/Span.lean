import Mathlib.Algebra.Group.Nat.Defs
import Mathlib.Data.Nat.Basic

/-! Intervals of a modular address space. A span is given by its first address and
its length over the naturals; it may wrap round the top. -/
namespace Flat

variable {w : ℕ}

/-- `x` is one of the `n` addresses from `base` on. -/
def InSpan (base : BitVec w) (n : ℕ) (x : BitVec w) : Prop := (x - base).toNat < n

instance (base : BitVec w) (n : ℕ) (x : BitVec w) : Decidable (InSpan base n x) :=
  inferInstanceAs (Decidable ((x - base).toNat < n))

/-- No address lies in both spans. -/
def Apart (a : BitVec w) (m : ℕ) (b : BitVec w) (n : ℕ) : Prop :=
  ∀ x, InSpan a m x → ¬ InSpan b n x

theorem Apart.symm {a b : BitVec w} {m n : ℕ} (h : Apart a m b n) : Apart b n a m :=
  fun x hb ha => h x ha hb

@[simp] theorem not_inSpan_zero (base x : BitVec w) : ¬ InSpan base 0 x := by
  simp [InSpan]

theorem InSpan.mono {base x : BitVec w} {m n : ℕ} (h : InSpan base m x) (hmn : m ≤ n) :
    InSpan base n x := lt_of_lt_of_le h hmn

theorem toNat_ofNat_of_lt {k : ℕ} (h : k < 2 ^ w) : (BitVec.ofNat w k).toNat = k := by
  rw [BitVec.toNat_ofNat, Nat.mod_eq_of_lt h]

@[simp] theorem inSpan_add_ofNat {base : BitVec w} {n k : ℕ} (hk : k < 2 ^ w) :
    InSpan base n (base + BitVec.ofNat w k) ↔ k < n := by
  unfold InSpan
  rw [BitVec.add_comm, BitVec.add_sub_cancel, toNat_ofNat_of_lt hk]

@[simp] theorem inSpan_self {a : BitVec w} {n : ℕ} : InSpan a n a ↔ 0 < n := by
  simp [InSpan]

theorem add_ofNat_ne_self (a : BitVec w) {k : ℕ} (h0 : 0 < k) (hk : k < 2 ^ w) :
    a + BitVec.ofNat w k ≠ a := by
  intro h
  have h1 : ¬ InSpan a 1 (a + BitVec.ofNat w k) := by
    rw [inSpan_add_ofNat hk]; omega
  exact h1 (by rw [h]; simp [InSpan])

/-- An address of a span is its base plus an index below the length. -/
theorem InSpan.exists_index {base x : BitVec w} {n : ℕ} (h : InSpan base n x) :
    ∃ k, k < n ∧ k < 2 ^ w ∧ x = base + BitVec.ofNat w k := by
  refine ⟨(x - base).toNat, h, (x - base).isLt, ?_⟩
  rw [BitVec.ofNat_toNat, BitVec.setWidth_eq, BitVec.add_comm, BitVec.sub_add_cancel]

theorem toNat_sub_one {d : BitVec w} (h : d ≠ 0) : (d - 1).toNat = d.toNat - 1 := by
  have hd : 1 ≤ d.toNat := Nat.one_le_iff_ne_zero.mpr (fun hz => h (BitVec.eq_of_toNat_eq (by simpa using hz)))
  have h1 : (1 : BitVec w).toNat = 1 := by
    have : 1 < 2 ^ w := lt_of_le_of_lt hd d.isLt
    exact toNat_ofNat_of_lt this
  rw [BitVec.toNat_sub_of_le (by rw [BitVec.le_def, h1]; exact hd), h1]

/-- The first address split off: the shape of every byte loop over a span. -/
theorem inSpan_succ {base x : BitVec w} {n : ℕ} :
    InSpan base (n + 1) x ↔ x = base ∨ InSpan (base + 1) n x := by
  have hs : x - (base + 1) = x - base - 1 := by
    rw [← BitVec.sub_sub]
  unfold InSpan
  rw [hs]
  by_cases hx : x = base
  · subst hx
    simp
  · have hd : x - base ≠ 0 := fun h => hx (by
      rw [← BitVec.sub_add_cancel x base, h]; exact BitVec.zero_add base)
    have hp : (x - base).toNat ≠ 0 := fun hz => hd (BitVec.eq_of_toNat_eq (by simpa using hz))
    rw [toNat_sub_one hd]
    constructor
    · intro h; right; omega
    · rintro (h | h)
      · exact absurd h hx
      · omega

theorem not_inSpan_succ {base x : BitVec w} {n : ℕ} (h : ¬ InSpan base (n + 1) x) :
    x ≠ base ∧ ¬ InSpan (base + 1) n x := by
  rwa [inSpan_succ, not_or] at h

/-- A span that does not wrap is an interval of naturals. -/
theorem inSpan_iff {base x : BitVec w} {n : ℕ} (h : base.toNat + n ≤ 2 ^ w) :
    InSpan base n x ↔ base.toNat ≤ x.toNat ∧ x.toNat < base.toNat + n := by
  unfold InSpan
  rcases Nat.lt_or_ge x.toNat base.toNat with hlt | hge
  · have hs : (x - base).toNat = 2 ^ w - (base.toNat - x.toNat) :=
      BitVec.toNat_sub_of_lt (BitVec.lt_def.mpr hlt)
    rw [hs]
    have := base.isLt
    omega
  · rw [BitVec.toNat_sub_of_le (BitVec.le_def.mpr hge)]
    omega

theorem apart_of_le {a b : BitVec w} {m n : ℕ} (hab : a.toNat + m ≤ b.toNat)
    (hb : b.toNat + n ≤ 2 ^ w) : Apart a m b n := by
  intro x ha hx
  have hx := (inSpan_iff hb).mp hx
  have ha := (inSpan_iff (by omega)).mp ha
  omega

/-- Two spans apart from each other fit into the address space. -/
theorem InSpan.of_le {a b x : BitVec w} {m n : ℕ} (h : InSpan a m x) (hb : b.toNat ≤ a.toNat)
    (hn : a.toNat + m ≤ b.toNat + n) (hw : b.toNat + n ≤ 2 ^ w) : InSpan b n x := by
  rw [inSpan_iff (le_trans hn hw)] at h
  rw [inSpan_iff hw]
  omega

theorem Apart.add_le {a b : BitVec w} {m n : ℕ} (h : Apart a m b n) (hm : 0 < m) (hn : 0 < n) :
    m + n ≤ 2 ^ w := by
  have h1 : m ≤ (b - a).toNat := by
    by_contra hlt
    exact h b (Nat.lt_of_not_le hlt) (inSpan_self.mpr hn)
  have h2 : n ≤ (a - b).toNat := by
    by_contra hlt
    exact h a (inSpan_self.mpr hm) (Nat.lt_of_not_le hlt)
  have hneg : (a - b).toNat + (b - a).toNat ≤ 2 ^ w := by
    have ha := a.isLt
    have hb := b.isLt
    rw [BitVec.toNat_sub, BitVec.toNat_sub]
    rcases Nat.lt_trichotomy a.toNat b.toNat with hlt | heq | hgt
    · rw [Nat.mod_eq_of_lt (by omega), show 2 ^ w - a.toNat + b.toNat =
        b.toNat - a.toNat + 2 ^ w by omega, Nat.add_mod_right, Nat.mod_eq_of_lt (by omega)]
      omega
    · rw [heq, Nat.sub_add_cancel (Nat.le_of_lt hb), Nat.mod_self]
      omega
    · rw [show 2 ^ w - b.toNat + a.toNat = a.toNat - b.toNat + 2 ^ w by omega,
        Nat.add_mod_right, Nat.mod_eq_of_lt (by omega), Nat.mod_eq_of_lt (by omega)]
      omega
  omega

/-- A part of a span, given by its offset and length. -/
theorem InSpan.of_offset {base x : BitVec w} {k m n : ℕ} (h : InSpan (base + BitVec.ofNat w k) m x)
    (hk : k + m ≤ n) (hn : n ≤ 2 ^ w) : InSpan base n x := by
  obtain ⟨i, hi, _, rfl⟩ := h.exists_index
  rw [BitVec.add_assoc, ← BitVec.ofNat_add]
  exact (inSpan_add_ofNat (by omega)).mpr (by omega)

theorem Apart.of_offset {a b : BitVec w} {i m' m j n' n : ℕ} (h : Apart a m b n)
    (hi : i + m' ≤ m) (hm : m ≤ 2 ^ w) (hj : j + n' ≤ n) (hn : n ≤ 2 ^ w) :
    Apart (a + BitVec.ofNat w i) m' (b + BitVec.ofNat w j) n' :=
  fun x ha hb => h x (ha.of_offset hi hm) (hb.of_offset hj hn)

/-- A part of the second span, which may be longer than the address space. -/
theorem Apart.part {a b : BitVec w} {m n k l : ℕ} (h : Apart a m b n) (hk : k + l ≤ n) :
    Apart a m (b + BitVec.ofNat w k) l := by
  intro x ha hb
  apply h x ha
  by_cases hn : n ≤ 2 ^ w
  · exact hb.of_offset hk hn
  · exact lt_trans (x - b).isLt (Nat.lt_of_not_le hn)

theorem Apart.mono {a b : BitVec w} {m' m n' n : ℕ} (h : Apart a m b n)
    (hm : m' ≤ m) (hn : n' ≤ n) : Apart a m' b n' :=
  fun x ha hb => h x (ha.mono hm) (hb.mono hn)

/-- A span at an offset, seen from where the offsets count. -/
theorem inSpan_offset {d x : BitVec w} {o n : ℕ} (h : o + n ≤ 2 ^ w) :
    InSpan (d + BitVec.ofNat w o) n x ↔ o ≤ (x - d).toNat ∧ (x - d).toNat < o + n := by
  have hx := (x - d).isLt
  have hsub : x - (d + BitVec.ofNat w o) = (x - d) - BitVec.ofNat w o := by
    rw [BitVec.sub_sub]
  unfold InSpan
  rw [hsub, BitVec.toNat_sub, BitVec.toNat_ofNat]
  rcases Nat.eq_zero_or_pos n with rfl | hn
  · omega
  rw [Nat.mod_eq_of_lt (show o < 2 ^ w by omega)]
  rcases Nat.lt_or_ge (x - d).toNat o with hlt | hge
  · rw [Nat.mod_eq_of_lt (by omega)]
    omega
  · rw [show 2 ^ w - o + (x - d).toNat = ((x - d).toNat - o) + 2 ^ w by omega,
      Nat.add_mod_right, Nat.mod_eq_of_lt (by omega)]
    omega

theorem add_ofNat_ofNat (a : BitVec w) (i j : ℕ) :
    a + BitVec.ofNat w i + BitVec.ofNat w j = a + BitVec.ofNat w (i + j) := by
  rw [BitVec.ofNat_add, BitVec.add_assoc]

theorem toNat_add_ofNat_sub (a : BitVec w) {k : ℕ} (hk : k < 2 ^ w) :
    (a + BitVec.ofNat w k - a).toNat = k := by
  rw [BitVec.add_comm, BitVec.add_sub_cancel, toNat_ofNat_of_lt hk]

theorem apart_offset {d : BitVec w} {i m j n : ℕ} (h : i + m ≤ j ∨ j + n ≤ i) (hi : i + m ≤ 2 ^ w)
    (hj : j + n ≤ 2 ^ w) : Apart (d + BitVec.ofNat w i) m (d + BitVec.ofNat w j) n := by
  intro x hx hy
  rw [inSpan_offset hi] at hx
  rw [inSpan_offset hj] at hy
  omega

end Flat
