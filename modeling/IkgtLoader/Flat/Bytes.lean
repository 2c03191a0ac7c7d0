import IkgtLoader.Flat.Record
import IkgtLoader.Flat.Scatter

/-! Byte strings in memory: a string that is written at an address, and one whose words are
patched afterwards. -/
namespace Flat

variable {w : ℕ}

/-- The elements from `o` on are replaced. -/
def patch {α : Type*} (l : List α) (o : ℕ) (new : List α) : List α :=
  l.take o ++ new ++ l.drop (o + new.length)

section patch
variable {α : Type*} {l new : List α} {o k : ℕ} {d : α}

theorem length_patch (h : o + new.length ≤ l.length) : (patch l o new).length = l.length := by
  unfold patch
  rw [List.length_append, List.length_append, List.length_take, List.length_drop]
  omega

theorem getD_patch (h : o + new.length ≤ l.length) : (patch l o new).getD k d =
    if o ≤ k ∧ k < o + new.length then new.getD (k - o) d else l.getD k d := by
  have htake : (l.take o).length = o := by rw [List.length_take]; omega
  unfold patch
  rcases Nat.lt_or_ge k o with hlt | hge
  · rw [if_neg (by omega), List.append_assoc, List.getD_append _ _ _ _ (by omega), List.getD_eq_getElem?_getD,
      List.getD_eq_getElem?_getD, List.getElem?_take_of_lt hlt]
  rw [List.append_assoc, List.getD_append_right _ _ _ _ (by omega), htake]
  rcases Nat.lt_or_ge k (o + new.length) with hlt | hge'
  · rw [if_pos ⟨hge, hlt⟩, List.getD_append _ _ _ _ (by omega)]
  · rw [if_neg (by omega), List.getD_append_right _ _ _ _ (by omega), List.getD_eq_getElem?_getD,
      List.getD_eq_getElem?_getD, List.getElem?_drop]
    congr 2
    omega

end patch

namespace Memory
variable {m m' : Memory w} {a : BitVec w} {l l' : List (BitVec 8)}

/-- The bytes are written one behind another. -/
def putBytes (m : Memory w) (a : BitVec w) : List (BitVec 8) → Memory w
  | [] => m
  | b :: bs => putBytes (m.set a b) (a + 1) bs

theorem putBytes_of_not_inSpan (m : Memory w) {a x : BitVec w} {l : List (BitVec 8)}
    (h : ¬ InSpan a l.length x) : m.putBytes a l x = m x := by
  induction l generalizing m a with
  | nil => rfl
  | cons b bs ih =>
    obtain ⟨hx, hr⟩ := not_inSpan_succ h
    rw [putBytes, ih _ hr, set_of_ne m _ hx]

/-- The bytes stand at the address. -/
def HasBytes (m : Memory w) (a : BitVec w) (l : List (BitVec 8)) : Prop :=
  ∀ k < l.length, m (a + BitVec.ofNat w k) = l.getD k 0

theorem hasBytes_putBytes (m : Memory w) (a : BitVec w) (hl : l.length ≤ 2 ^ w) :
    HasBytes (m.putBytes a l) a l := by
  induction l generalizing m a with
  | nil => exact fun k hk => absurd hk (Nat.not_lt_zero k)
  | cons b bs ih =>
    rw [List.length_cons] at hl
    intro k hk
    cases k with
    | zero =>
      rw [putBytes]
      simp only [BitVec.add_zero]
      rw [putBytes_of_not_inSpan _ (not_inSpan_next a hl), set_same]
      rfl
    | succ k =>
      rw [putBytes, add_ofNat_succ, ih _ _ (by omega) k (Nat.lt_of_succ_lt_succ hk)]
      rfl

namespace HasBytes

theorem left (h : HasBytes m a (l ++ l')) : HasBytes m a l := fun k hk => by
  rw [h k (by rw [List.length_append]; omega), List.getD_append _ _ _ _ hk]

theorem right (h : HasBytes m a (l ++ l')) : HasBytes m (a + BitVec.ofNat w l.length) l' :=
  fun k hk => by
    have hb := h (l.length + k) (by rw [List.length_append]; omega)
    rw [List.getD_append_right _ _ _ _ (Nat.le_add_right _ _), Nat.add_sub_cancel_left] at hb
    rw [add_ofNat_ofNat, hb]

theorem of_same (h : HasBytes m a l) {n : ℕ} (hs : Same m' a m a n) (hn : l.length ≤ n) :
    HasBytes m' a l := fun k hk => (hs k (by omega)).trans (h k hk)

theorem of_unchanged (h : HasBytes m a l) (hu : ∀ x, InSpan a l.length x → m' x = m x)
    (hl : l.length ≤ 2 ^ w) : HasBytes m' a l :=
  h.of_same (Same.of_unchanged hu hl) le_rfl

end HasBytes

theorem getD_littleEndian {n v k : ℕ} (hk : k < n) :
    (littleEndian n v).getD k 0 = BitVec.ofNat 8 (v / 256 ^ k) := by
  induction n generalizing v k with
  | zero => omega
  | succ n ih =>
    rw [littleEndian]
    cases k with
    | zero => rw [Nat.pow_zero, Nat.div_one]; rfl
    | succ k =>
      rw [List.getD_cons_succ, ih (by omega), Nat.div_div_eq_div_mul, Nat.pow_succ']

/-- A word stored into a string patches it. -/
theorem HasBytes.setField {bits o : ℕ} (h : HasBytes m a l) (v : BitVec bits)
    (ho : o + bits / 8 ≤ l.length) (hl : l.length ≤ 2 ^ w) :
    HasBytes (m.setField a o v) a (patch l o (littleEndian (bits / 8) v.toNat)) := by
  have hlen := littleEndian_length (bits / 8) v.toNat
  have hfit : o + (littleEndian (bits / 8) v.toNat).length ≤ l.length := by rw [hlen]; exact ho
  intro k hk
  rw [length_patch hfit] at hk
  rw [getD_patch hfit, hlen]
  split
  next hin =>
    obtain ⟨j, rfl⟩ := Nat.exists_eq_add_of_le hin.1
    rw [Nat.add_sub_cancel_left, getD_littleEndian (by omega), ← add_ofNat_ofNat]
    exact store_byte m _ _ (by omega) (by omega)
  next hout =>
    rw [setField_of_not_inSpan, h k hk]
    rw [inSpan_offset (by omega), toNat_add_ofNat_sub a (by omega)]
    exact hout

/-- The same, where only the length of the string is kept in view. -/
theorem HasBytes.setField_of_length {bits o n : ℕ} (h : HasBytes m a l ∧ l.length = n) (v : BitVec bits)
    (ho : o + bits / 8 ≤ n) (hn : n ≤ 2 ^ w) :
    HasBytes (m.setField a o v) a (patch l o (littleEndian (bits / 8) v.toNat)) ∧
      (patch l o (littleEndian (bits / 8) v.toNat)).length = n := by
  obtain ⟨hb, rfl⟩ := h
  exact ⟨hb.setField v ho hn, length_patch (by rw [littleEndian_length]; exact ho)⟩

/-- The low part of a field is a field. -/
theorem field_setWidth (m : Memory w) (p : BitVec w) (o : ℕ) {n bits : ℕ} (hn : n % 8 = 0)
    (hle : n ≤ bits) : m.field n p o = (m.field bits p o).setWidth n := by
  obtain ⟨j, hj⟩ := Nat.exists_eq_add_of_le (Nat.div_le_div_right hle : n / 8 ≤ bits / 8)
  have hpow : 256 ^ (n / 8) = 2 ^ n := by
    rw [show 256 = 2 ^ 8 from rfl, ← Nat.pow_mul, Nat.mul_div_cancel' (Nat.dvd_of_mod_eq_zero hn)]
  unfold field
  apply BitVec.eq_of_toNat_eq
  rw [BitVec.toNat_setWidth, BitVec.toNat_ofNat, BitVec.toNat_ofNat,
    Nat.mod_mod_of_dvd _ (Nat.pow_dvd_pow 2 hle), hj, load_add, hpow, Nat.add_mul_mod_self_left]

end Memory
end Flat
