import IkgtLoader.Flat.Span
import Mathlib.Logic.Function.Basic

/-! Byte-addressed memory over a modular address space: byte loops that fill and copy,
little-endian words, and what each of them leaves unchanged. -/
namespace Flat

variable {w : ℕ}

abbrev Memory (w : ℕ) := BitVec w → BitVec 8

namespace Memory

def set (m : Memory w) (a : BitVec w) (v : BitVec 8) : Memory w :=
  fun x => if x = a then v else m x

/-- `count` bytes from `a` on become `v`, in ascending order. -/
def fill (m : Memory w) (a : BitVec w) (v : BitVec 8) : ℕ → Memory w
  | 0 => m
  | count + 1 => fill (m.set a v) (a + 1) v count

/-- `count` bytes are copied one by one in ascending order, as `rep movsb` does. -/
def copy (m : Memory w) (dest src : BitVec w) : ℕ → Memory w
  | 0 => m
  | count + 1 => copy (m.set dest (m src)) (dest + 1) (src + 1) count

/-- Little-endian value of the `n` bytes from `a` on. -/
def load (m : Memory w) (a : BitVec w) : ℕ → ℕ
  | 0 => 0
  | n + 1 => (m a).toNat + 256 * load m (a + 1) n

def store (m : Memory w) (a : BitVec w) : ℕ → ℕ → Memory w
  | 0, _ => m
  | n + 1, v => store (m.set a (BitVec.ofNat 8 v)) (a + 1) n (v / 256)

@[simp] theorem set_same (m : Memory w) (a : BitVec w) (v : BitVec 8) : m.set a v a = v := by
  simp [set]

theorem set_of_ne (m : Memory w) {a x : BitVec w} (v : BitVec 8) (h : x ≠ a) :
    m.set a v x = m x := by
  simp [set, h]

theorem fill_apply (m : Memory w) (a x : BitVec w) (v : BitVec 8) {n : ℕ} (hn : n ≤ 2 ^ w) :
    m.fill a v n x = if InSpan a n x then v else m x := by
  induction n generalizing m a with
  | zero => simp [fill]
  | succ n ih =>
    rw [fill, ih _ _ (by omega)]
    by_cases hx : x = a
    · subst hx
      simp [set]
    · simp [set, inSpan_succ, hx]

theorem fill_of_not_inSpan (m : Memory w) {a x : BitVec w} (v : BitVec 8) {n : ℕ}
    (h : ¬ InSpan a n x) : m.fill a v n x = m x := by
  induction n generalizing m a with
  | zero => rfl
  | succ n ih =>
    obtain ⟨hx, hr⟩ := not_inSpan_succ h
    rw [fill, ih _ hr, set_of_ne m v hx]

theorem copy_of_not_inSpan (m : Memory w) {dest x : BitVec w} (src : BitVec w) {n : ℕ}
    (h : ¬ InSpan dest n x) : m.copy dest src n x = m x := by
  induction n generalizing m dest src with
  | zero => rfl
  | succ n ih =>
    obtain ⟨hx, hr⟩ := not_inSpan_succ h
    rw [copy, ih _ _ hr, set_of_ne m _ hx]

theorem store_of_not_inSpan (m : Memory w) {a x : BitVec w} {n : ℕ} (v : ℕ)
    (h : ¬ InSpan a n x) : m.store a n v x = m x := by
  induction n generalizing m a v with
  | zero => rfl
  | succ n ih =>
    obtain ⟨hx, hr⟩ := not_inSpan_succ h
    rw [store, ih _ _ hr, set_of_ne m _ hx]

theorem add_ofNat_succ (a : BitVec w) (k : ℕ) :
    a + BitVec.ofNat w (k + 1) = a + 1 + BitVec.ofNat w k := by
  rw [Nat.add_comm, BitVec.ofNat_add, ← BitVec.add_assoc]; rfl

/-- The address in front of a span that does not go all the way round. -/
theorem not_inSpan_next (a : BitVec w) {n : ℕ} (hn : n + 1 ≤ 2 ^ w) : ¬ InSpan (a + 1) n a := by
  intro h
  obtain ⟨i, hi, _, he⟩ := h.exists_index
  rw [← add_ofNat_succ] at he
  exact add_ofNat_ne_self a (by omega) (by omega) he.symm

/-- A forward copy to a distance `d` repeats the first `d` bytes of its source. -/
theorem copy_apply_mod (m : Memory w) {dest src : BitVec w} {n : ℕ} (hn : n ≤ 2 ^ w) {k : ℕ}
    (hk : k < n) : m.copy dest src n (dest + BitVec.ofNat w k) =
      m (src + BitVec.ofNat w (k % (dest - src).toNat)) := by
  induction n generalizing m dest src k with
  | zero => omega
  | succ n ih =>
    cases k with
    | zero =>
      rw [copy, Nat.zero_mod]
      simp only [BitVec.add_zero]
      rw [copy_of_not_inSpan _ _ (not_inSpan_next dest hn), set_same]
    | succ k =>
      have hd : dest + 1 - (src + 1) = dest - src := by
        rw [BitVec.add_comm src, ← BitVec.sub_sub, BitVec.add_sub_cancel]
      rw [copy, add_ofNat_succ, ih _ (by omega) (by omega), hd, ← add_ofNat_succ]
      have hdist : src + BitVec.ofNat w (dest - src).toNat = dest := by
        rw [BitVec.ofNat_toNat, BitVec.setWidth_eq, BitVec.add_comm, BitVec.sub_add_cancel]
      have hlt := (dest - src).isLt
      generalize (dest - src).toNat = d at hdist hlt ⊢
      by_cases hwrap : k % d + 1 = d
      · -- the byte that the first step has stored
        have h0 : (k + 1) % d = 0 := by
          have hdiv := Nat.div_add_mod k d
          rw [show k + 1 = d * (k / d) + d by omega, Nat.add_mod_right, Nat.mul_mod_right]
        rw [hwrap, hdist, set_same, h0]
        simp only [BitVec.add_zero]
      · have h1 : (k + 1) % d = k % d + 1 := by
          rcases Nat.eq_zero_or_pos d with rfl | hpos
          · rw [Nat.mod_zero, Nat.mod_zero]
          · have hdiv := Nat.div_add_mod k d
            have hmod := Nat.mod_lt k hpos
            rw [show k + 1 = d * (k / d) + (k % d + 1) by omega, Nat.mul_add_mod]
            exact Nat.mod_eq_of_lt (by omega)
        rw [h1]
        apply set_of_ne
        intro he
        have hle := Nat.mod_le k d
        rw [← hdist] at he
        have hnat := congrArg BitVec.toNat ((BitVec.add_right_inj _).mp he)
        rw [toNat_ofNat_of_lt (by omega), toNat_ofNat_of_lt hlt] at hnat
        exact hwrap hnat

/-- A forward copy delivers the old source bytes unless the destination starts inside
the source, after its first byte. -/
theorem copy_apply (m : Memory w) {dest src : BitVec w} {n : ℕ} (hn : n ≤ 2 ^ w)
    (hsafe : dest = src ∨ ¬ InSpan src n dest) {k : ℕ} (hk : k < n) :
    m.copy dest src n (dest + BitVec.ofNat w k) = m (src + BitVec.ofNat w k) := by
  rw [copy_apply_mod m hn hk]
  rcases hsafe with rfl | hout
  · rw [BitVec.sub_self, BitVec.toNat_zero, Nat.mod_zero]
  · have hle : n ≤ (dest - src).toNat := Nat.le_of_not_lt hout
    rw [Nat.mod_eq_of_lt (by omega)]

/-- The same `n` bytes at two places. -/
def Same (m : Memory w) (a : BitVec w) (m' : Memory w) (b : BitVec w) (n : ℕ) : Prop :=
  ∀ k < n, m (a + BitVec.ofNat w k) = m' (b + BitVec.ofNat w k)

instance (m : Memory w) (a : BitVec w) (m' : Memory w) (b : BitVec w) (n : ℕ) :
    Decidable (Same m a m' b n) := inferInstanceAs (Decidable (∀ k < n, _))

namespace Same
variable {m m' m'' : Memory w} {a b c : BitVec w} {n : ℕ}

theorem trans (h : Same m a m' b n) (h' : Same m' b m'' c n) : Same m a m'' c n :=
  fun k hk => (h k hk).trans (h' k hk)

theorem symm (h : Same m a m' b n) : Same m' b m a n := fun k hk => (h k hk).symm

theorem mono (h : Same m a m' b n) {k : ℕ} (hk : k ≤ n) : Same m a m' b k :=
  fun i hi => h i (by omega)

theorem offset (h : Same m a m' b n) {o k : ℕ} (hk : o + k ≤ n) :
    Same m (a + BitVec.ofNat w o) m' (b + BitVec.ofNat w o) k := fun i hi => by
  rw [add_ofNat_ofNat, add_ofNat_ofNat]
  exact h (o + i) (by omega)

/-- Two parts, one behind the other. -/
theorem append (h : Same m a m' b n) {k : ℕ}
    (h' : Same m (a + BitVec.ofNat w n) m' (b + BitVec.ofNat w n) k) : Same m a m' b (n + k) := by
  intro i hi
  rcases Nat.lt_or_ge i n with hlt | hge
  · exact h i hlt
  · have hbyte := h' (i - n) (by omega)
    rwa [add_ofNat_ofNat, add_ofNat_ofNat, Nat.add_sub_cancel' hge] at hbyte

theorem apply_inSpan (h : Same m a m' a n) {x : BitVec w} (hx : InSpan a n x) : m x = m' x := by
  obtain ⟨k, hk, -, rfl⟩ := hx.exists_index
  exact h k hk

theorem of_unchanged (h : ∀ x, InSpan a n x → m x = m' x) (hn : n ≤ 2 ^ w) : Same m a m' a n :=
  fun k hk => h _ ((inSpan_add_ofNat (by omega)).mpr hk)

theorem load_eq (h : Same m a m' b n) : m.load a n = m'.load b n := by
  induction n generalizing a b with
  | zero => rfl
  | succ n ih =>
    have h0 := h 0 (by omega)
    simp only [BitVec.add_zero] at h0
    have hr : Same m (a + 1) m' (b + 1) n := fun k hk => by
      rw [← add_ofNat_succ, ← add_ofNat_succ]
      exact h (k + 1) (by omega)
    rw [load, load, h0, ih hr]

end Same

theorem load_lt (m : Memory w) (a : BitVec w) (n : ℕ) : m.load a n < 256 ^ n := by
  induction n generalizing a with
  | zero => simp [load]
  | succ n ih =>
    have h := ih (a + 1)
    have hb := (m a).isLt
    rw [load, Nat.pow_succ]
    omega

theorem load_store (m : Memory w) (a : BitVec w) {n : ℕ} (v : ℕ) (hn : n ≤ 2 ^ w) :
    (m.store a n v).load a n = v % 256 ^ n := by
  induction n generalizing m a v with
  | zero => simp [load, Nat.mod_one]
  | succ n ih =>
    have hout := not_inSpan_next a hn
    have hb : (BitVec.ofNat 8 v).toNat = v % 256 := BitVec.toNat_ofNat v 8
    have hpow : 256 ^ (n + 1) = 256 * 256 ^ n := Nat.pow_succ'
    rw [store, load, store_of_not_inSpan _ _ hout, set_same, ih _ _ _ (by omega), hb, hpow,
      Nat.mod_mul]

/-- What a store leaves in its span depends on the value modulo the width only. -/
theorem store_congr (m m' : Memory w) {a x : BitVec w} {n v v' : ℕ} (hn : n ≤ 2 ^ w)
    (hv : v % 256 ^ n = v' % 256 ^ n) (hx : InSpan a n x) : m.store a n v x = m'.store a n v' x := by
  induction n generalizing m m' a v v' with
  | zero => exact absurd hx (not_inSpan_zero a x)
  | succ n ih =>
    have hpow : 256 ^ (n + 1) = 256 * 256 ^ n := Nat.pow_succ'
    rw [hpow] at hv
    have hlow : v % 256 = v' % 256 := by
      have h := congrArg (· % 256) hv
      simpa only [Nat.mod_mul_right_mod] using h
    have hhigh : v / 256 % 256 ^ n = v' / 256 % 256 ^ n := by
      rw [← Nat.mod_mul_right_div_self, ← Nat.mod_mul_right_div_self, hv]
    rw [store, store]
    by_cases hr : InSpan (a + 1) n x
    · exact ih _ _ (by omega) hhigh hr
    · have hxa : x = a := (inSpan_succ.mp hx).resolve_right hr
      subst hxa
      have hb : BitVec.ofNat 8 v = BitVec.ofNat 8 v' := by
        apply BitVec.eq_of_toNat_eq
        rw [BitVec.toNat_ofNat, BitVec.toNat_ofNat]
        exact hlow
      rw [store_of_not_inSpan _ _ hr, store_of_not_inSpan _ _ hr, set_same, set_same, hb]

/-- A byte of a word that has been stored. -/
theorem store_byte (m : Memory w) (a : BitVec w) {n k : ℕ} (v : ℕ) (hn : n ≤ 2 ^ w) (hk : k < n) :
    m.store a n v (a + BitVec.ofNat w k) = BitVec.ofNat 8 (v / 256 ^ k) := by
  induction n generalizing m a v k with
  | zero => omega
  | succ n ih =>
    cases k with
    | zero =>
      simp only [BitVec.add_zero, Nat.pow_zero, Nat.div_one]
      rw [store, store_of_not_inSpan _ _ (not_inSpan_next a hn), set_same]
    | succ k =>
      rw [store, add_ofNat_succ, ih _ _ _ (by omega) (by omega), Nat.div_div_eq_div_mul, Nat.pow_succ']

/-- A byte of a word that is read. -/
theorem load_byte (m : Memory w) (a : BitVec w) {n k : ℕ} (hk : k < n) :
    m (a + BitVec.ofNat w k) = BitVec.ofNat 8 (m.load a n / 256 ^ k) := by
  induction n generalizing a k with
  | zero => omega
  | succ n ih =>
    have hb := (m a).isLt
    rw [load]
    cases k with
    | zero =>
      simp only [BitVec.add_zero, Nat.pow_zero, Nat.div_one]
      apply BitVec.eq_of_toNat_eq
      rw [BitVec.toNat_ofNat]
      omega
    | succ k =>
      rw [add_ofNat_succ, ih _ (by omega), Nat.pow_succ', ← Nat.div_div_eq_div_mul,
        show ((m a).toNat + 256 * load m (a + 1) n) / 256 = load m (a + 1) n by omega]

/-- The bytes of a word are known from its value. -/
theorem same_of_load_eq {m m' : Memory w} {a b : BitVec w} {n : ℕ}
    (h : m.load a n = m'.load b n) : Same m a m' b n := by
  induction n generalizing a b with
  | zero => exact fun k hk => absurd hk (Nat.not_lt_zero k)
  | succ n ih =>
    have hm := (m a).isLt
    have hm' := (m' b).isLt
    rw [load, load] at h
    have hbyte : m a = m' b := BitVec.eq_of_toNat_eq (by omega)
    have hrest : m.load (a + 1) n = m'.load (b + 1) n := by omega
    intro k hk
    cases k with
    | zero =>
      simp only [BitVec.add_zero]
      exact hbyte
    | succ k =>
      rw [add_ofNat_succ, add_ofNat_succ]
      exact ih hrest k (by omega)

/-- Byte `k` of `v` is another after the addition of `d`. -/
def Carries (v d k : ℕ) : Prop := (v + d) / 256 ^ k % 256 ≠ v / 256 ^ k % 256

instance (v d k : ℕ) : Decidable (Carries v d k) := inferInstanceAs (Decidable (_ ≠ _))

/-- What the addition of `d` to a word changes in memory. -/
theorem store_add_keeps_iff (m : Memory w) (a : BitVec w) {n v : ℕ} (d : ℕ) (hn : n ≤ 2 ^ w)
    (hv : m.load a n = v) (P : BitVec w → Prop) :
    (∀ x, ¬ P x → m.store a n (v + d) x = m x) ↔
      ∀ k < n, Carries v d k → P (a + BitVec.ofNat w k) := by
  have hbyte : ∀ k < n, (m.store a n (v + d) (a + BitVec.ofNat w k) = m (a + BitVec.ofNat w k) ↔
      ¬ Carries v d k) := by
    intro k hk
    rw [store_byte m a _ hn hk, load_byte m a hk, hv, ← BitVec.toNat_inj, BitVec.toNat_ofNat,
      BitVec.toNat_ofNat]
    exact not_not.symm
  constructor
  · intro h k hk hc
    by_contra hp
    exact (hbyte k hk).mp (h _ hp) hc
  · intro h x hp
    by_cases hx : InSpan a n x
    · obtain ⟨k, hk, _, rfl⟩ := hx.exists_index
      exact (hbyte k hk).mpr fun hc => hp (h k hk hc)
    · exact store_of_not_inSpan m _ hx

end Memory
end Flat
