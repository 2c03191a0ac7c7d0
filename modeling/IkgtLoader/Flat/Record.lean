import Mathlib.Data.List.GetD
import IkgtLoader.Flat.Memory

/-! Fields of records in memory: unsigned words at an offset from the address of the record. -/
namespace Flat.Memory

variable {w : ℕ}

/-- The word of `bits` bits at an offset of the record at `p`. -/
@[irreducible] def field (m : Memory w) (bits : ℕ) (p : BitVec w) (offset : ℕ) : BitVec bits :=
  BitVec.ofNat bits (m.load (p + BitVec.ofNat w offset) (bits / 8))

def setField (m : Memory w) {bits : ℕ} (p : BitVec w) (offset : ℕ) (v : BitVec bits) : Memory w :=
  m.store (p + BitVec.ofNat w offset) (bits / 8) v.toNat

/-- Bytes at an address, zeros around them. -/
@[irreducible] def ofBytes (a : BitVec w) (bytes : List (BitVec 8)) : Memory w :=
  fun x => bytes.getD (x - a).toNat 0

/-- A byte of lists one behind another, found without going through the lists before its own. -/
def byteAt : List (List (BitVec 8)) → ℕ → BitVec 8
  | [], _ => 0
  | l :: ls, k => if k < l.length then l.getD k 0 else byteAt ls (k - l.length)

theorem getD_flatten (ls : List (List (BitVec 8))) (k : ℕ) : ls.flatten.getD k 0 = byteAt ls k := by
  induction ls generalizing k with
  | nil => rfl
  | cons l ls ih =>
    rw [List.flatten_cons, byteAt]
    split
    next h => rw [List.getD_append _ _ _ _ h]
    next h => rw [List.getD_append_right _ _ _ _ (Nat.le_of_not_lt h), ih]

theorem ofBytes_flatten (a : BitVec w) (ls : List (List (BitVec 8))) :
    ofBytes a ls.flatten = fun x => byteAt ls (x - a).toNat := by
  funext x
  unfold ofBytes
  exact getD_flatten _ _

/-- The `n` bytes of a value, the lowest first. -/
def littleEndian : ℕ → ℕ → List (BitVec 8)
  | 0, _ => []
  | n + 1, v => BitVec.ofNat 8 v :: littleEndian n (v / 256)

theorem littleEndian_length (n v : ℕ) : (littleEndian n v).length = n := by
  induction n generalizing v with
  | zero => rfl
  | succ n ih => rw [littleEndian, List.length_cons, ih]

theorem ofBytes_of_not_inSpan {a x : BitVec w} {bytes : List (BitVec 8)}
    (h : ¬ InSpan a bytes.length x) : ofBytes a bytes x = 0 := by
  unfold ofBytes
  exact List.getD_eq_default _ _ (Nat.le_of_not_lt h)

section field
variable {m m' : Memory w} {p p' : BitVec w} {bits o n : ℕ}

/-- A field depends on the bytes of its record only. -/
theorem field_congr (h : Same m p m' p' n) (ho : o + bits / 8 ≤ n) :
    m.field bits p o = m'.field bits p' o := by
  unfold field
  rw [(h.offset ho).load_eq]

/-- The same part of two records has the same fields. -/
theorem field_congr_at {i : ℕ} (h : Same m (p + BitVec.ofNat w i) m' (p' + BitVec.ofNat w i) n)
    (hi : i ≤ o) (ho : o + bits / 8 ≤ i + n) : m.field bits p o = m'.field bits p' o := by
  have hpart : Same m (p + BitVec.ofNat w i + BitVec.ofNat w (o - i)) m'
      (p' + BitVec.ofNat w i + BitVec.ofNat w (o - i)) (bits / 8) := h.offset (by omega)
  rw [add_ofNat_ofNat, add_ofNat_ofNat, Nat.add_sub_cancel' hi] at hpart
  unfold field
  rw [hpart.load_eq]

/-- Two fields are equal if their bytes are. -/
theorem field_eq_iff_same (hb : bits % 8 = 0) : m.field bits p o = m'.field bits p' o ↔
    Same m (p + BitVec.ofNat w o) m' (p' + BitVec.ofNat w o) (bits / 8) := by
  have hpow : 256 ^ (bits / 8) = 2 ^ bits := by
    rw [show 256 = 2 ^ 8 from rfl, ← Nat.pow_mul, Nat.mul_div_cancel' (Nat.dvd_of_mod_eq_zero hb)]
  unfold field
  constructor
  · intro h
    apply same_of_load_eq
    have hlt := load_lt m (p + BitVec.ofNat w o) (bits / 8)
    have hlt' := load_lt m' (p' + BitVec.ofNat w o) (bits / 8)
    rw [hpow] at hlt hlt'
    have hnat := congrArg BitVec.toNat h
    rwa [toNat_ofNat_of_lt hlt, toNat_ofNat_of_lt hlt'] at hnat
  · intro h
    rw [h.load_eq]

/-- A byte of a field. -/
theorem field_byte (m : Memory w) (p : BitVec w) (o : ℕ) {k : ℕ} (hb : bits % 8 = 0)
    (hk : k < bits / 8) : m (p + BitVec.ofNat w (o + k)) =
      BitVec.ofNat 8 ((m.field bits p o).toNat / 256 ^ k) := by
  have hpow : 256 ^ (bits / 8) = 2 ^ bits := by
    rw [show 256 = 2 ^ 8 from rfl, ← Nat.pow_mul, Nat.mul_div_cancel' (Nat.dvd_of_mod_eq_zero hb)]
  have hlt := load_lt m (p + BitVec.ofNat w o) (bits / 8)
  rw [hpow] at hlt
  unfold field
  rw [toNat_ofNat_of_lt hlt, ← load_byte m _ hk, add_ofNat_ofNat]

/-- A field depends on its own bytes only. -/
theorem field_of_unchanged (h : ∀ x, InSpan (p + BitVec.ofNat w o) (bits / 8) x → m x = m' x)
    (hw : bits / 8 ≤ 2 ^ w) : m.field bits p o = m'.field bits p o := by
  unfold field
  rw [(Same.of_unchanged h hw).load_eq]

theorem load_zero (a : BitVec w) (n : ℕ) : load (fun _ => 0) a n = 0 := by
  induction n generalizing a with
  | zero => rfl
  | succ n ih =>
    rw [load, ih]
    rfl

/-- A field of zeros. -/
theorem field_of_zero (h : ∀ x, InSpan (p + BitVec.ofNat w o) (bits / 8) x → m x = 0)
    (hw : bits / 8 ≤ 2 ^ w) : m.field bits p o = 0 := by
  have hzero : m.field bits p o = field (fun _ => 0) bits p o := field_of_unchanged h hw
  rw [hzero]
  unfold field
  rw [load_zero]
  rfl

theorem field_setField (m : Memory w) (p : BitVec w) (o : ℕ) (v : BitVec bits) (hb : bits % 8 = 0)
    (hw : bits / 8 ≤ 2 ^ w) : (m.setField p o v).field bits p o = v := by
  have hpow : 256 ^ (bits / 8) = 2 ^ bits := by
    rw [show 256 = 2 ^ 8 from rfl, ← Nat.pow_mul, Nat.mul_div_cancel' (Nat.dvd_of_mod_eq_zero hb)]
  unfold field setField
  rw [load_store _ _ _ hw, hpow, Nat.mod_eq_of_lt v.isLt, BitVec.ofNat_toNat, BitVec.setWidth_eq]

theorem setField_of_not_inSpan (m : Memory w) (v : BitVec bits) {x : BitVec w}
    (h : ¬ InSpan (p + BitVec.ofNat w o) (bits / 8) x) : m.setField p o v x = m x :=
  store_of_not_inSpan _ _ h

/-- A store into a record changes nothing outside the record. -/
theorem setField_of_outside (m : Memory w) (v : BitVec bits) {x : BitVec w} (h : ¬ InSpan p n x)
    (ho : o + bits / 8 ≤ n) (hn : n ≤ 2 ^ w) : m.setField p o v x = m x :=
  setField_of_not_inSpan m v fun hx => h (hx.of_offset ho hn)

/-- A store into a record beside the field. -/
theorem field_setField_of_ne (m : Memory w) {bits' o' : ℕ} (v : BitVec bits')
    (h : o + bits / 8 ≤ o' ∨ o' + bits' / 8 ≤ o) (hn : o + bits / 8 ≤ 2 ^ w)
    (hn' : o' + bits' / 8 ≤ 2 ^ w) : (m.setField p o' v).field bits p o = m.field bits p o := by
  have hs : Same (m.setField p o' v) (p + BitVec.ofNat w o) m (p + BitVec.ofNat w o) (bits / 8) := by
    apply Same.of_unchanged
    · intro x hx
      apply setField_of_not_inSpan
      exact fun hx' => apart_offset h hn hn' x hx hx'
    · omega
  unfold field
  rw [hs.load_eq]

/-- A record elsewhere reads as before. -/
theorem Same.setField (h : Same m p m' p' n) {q : BitVec w} {k : ℕ} (hap : Apart q k p n)
    (ho : o + bits / 8 ≤ k) (hk : k ≤ 2 ^ w) (hn : n ≤ 2 ^ w) (v : BitVec bits) :
    Same (m.setField q o v) p m' p' n := by
  apply Same.trans _ h
  apply Same.of_unchanged _ hn
  intro x hx
  exact setField_of_outside m v (hap.symm x hx) ho hk

end field

/-- Words of 32 bits one behind another, from an offset of a record on. -/
def putWords (m : Memory w) (p : BitVec w) (o : ℕ) : List (BitVec 32) → Memory w
  | [] => m
  | v :: vs => (putWords m p (o + 4) vs).setField p o v

theorem field_putWords (m : Memory w) (p : BitVec w) {o i : ℕ} {vs : List (BitVec 32)}
    (hi : i < vs.length) (ho : o + 4 * vs.length ≤ 2 ^ w) :
    (putWords m p o vs).field 32 p (o + 4 * i) = vs[i] := by
  induction vs generalizing o i with
  | nil => exact absurd hi (Nat.not_lt_zero i)
  | cons v vs ih =>
    rw [List.length_cons] at hi ho
    rw [putWords]
    cases i with
    | zero => exact field_setField _ _ _ _ rfl (by omega)
    | succ i =>
      rw [field_setField_of_ne _ _ (by omega) (by omega) (by omega), Nat.mul_succ,
        show o + (4 * i + 4) = o + 4 + 4 * i by omega, ih (by omega) (by omega)]
      rfl

theorem putWords_of_outside (m : Memory w) {p x : BitVec w} {n o : ℕ} {vs : List (BitVec 32)}
    (h : ¬ InSpan p n x) (ho : o + 4 * vs.length ≤ n) (hn : n ≤ 2 ^ w) : m.putWords p o vs x = m x := by
  induction vs generalizing o with
  | nil => rfl
  | cons v vs ih =>
    rw [List.length_cons] at ho
    rw [putWords, setField_of_outside _ _ h (by omega) hn, ih (by omega)]

end Flat.Memory
