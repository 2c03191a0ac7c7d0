import IkgtLoader.Flat.Record
import IkgtLoader.Flat.Scatter

/-! Bit fields of words: what an assignment to a field leaves in each bit, and assignments to the
fields of a word in memory. -/
namespace Flat

/-- The place of a bit field in a word. -/
structure BitField where
  offset : ℕ
  width : ℕ

namespace BitField
variable {w n : ℕ}

def mask (f : BitField) (w : ℕ) : BitVec w := (BitVec.allOnes f.width).setWidth w <<< f.offset

/-- The assignment of a value, which is cut to the width of the field. -/
def set (f : BitField) (x : BitVec w) (v : BitVec n) : BitVec w :=
  x &&& ~~~f.mask w ||| v.setWidth w <<< f.offset &&& f.mask w

/-- The value of a field, widened to the word. -/
def get (f : BitField) (x : BitVec w) : BitVec w := (x.extractLsb' f.offset f.width).setWidth w

theorem getLsbD_get (f : BitField) (x : BitVec w) {i : ℕ} (hi : i < w) :
    (f.get x).getLsbD i = (decide (i < f.width) && x.getLsbD (f.offset + i)) := by
  simp [get, hi]

theorem toNat_get (f : BitField) (x : BitVec w) (h : f.width ≤ w) :
    (f.get x).toNat = x.toNat / 2 ^ f.offset % 2 ^ f.width := by
  unfold get
  rw [BitVec.toNat_setWidth_of_le h, BitVec.extractLsb'_toNat, Nat.shiftRight_eq_div_pow]

theorem getLsbD_mask (f : BitField) (i : ℕ) : (f.mask w).getLsbD i =
    (decide (i < w) && decide (f.offset ≤ i) && decide (i < f.offset + f.width)) := by
  unfold mask
  by_cases hw : i < w <;> by_cases ho : f.offset ≤ i <;> simp [hw, ho]
  rw [Bool.eq_iff_iff]
  simp
  omega

/-- A bit of the field is that of the value, and any other is as before. -/
theorem getLsbD_set (f : BitField) (x : BitVec w) (v : BitVec n) {i : ℕ} (hi : i < w) :
    (f.set x v).getLsbD i = if f.offset ≤ i ∧ i < f.offset + f.width then v.getLsbD (i - f.offset)
      else x.getLsbD i := by
  unfold set
  rw [BitVec.getLsbD_or, BitVec.getLsbD_and, BitVec.getLsbD_and, BitVec.getLsbD_not, getLsbD_mask]
  by_cases ho : f.offset ≤ i <;> by_cases hf : i < f.offset + f.width <;> simp [hi, ho, hf]

/-- An assignment to a field keeps what lies above. -/
theorem getLsbD_set_of_le (f : BitField) (x : BitVec w) (v : BitVec n) {k i : ℕ} (hi : i < w)
    (hk : k ≤ i) (hf : f.offset + f.width ≤ k) : (f.set x v).getLsbD i = x.getLsbD i := by
  rw [getLsbD_set _ _ _ hi, if_neg]
  omega

end BitField

theorem toNat_append_add {m n : ℕ} (x : BitVec m) (y : BitVec n) :
    (x ++ y).toNat = x.toNat * 2 ^ n + y.toNat := by
  rw [BitVec.toNat_append, ← Nat.shiftLeft_add_eq_or_of_lt y.isLt, Nat.shiftLeft_eq]

namespace Memory
variable {w : ℕ} {m : Memory w} {p : BitVec w} {bits o : ℕ}

/-- A word of a record is read, changed and stored. -/
def modify (m : Memory w) (bits : ℕ) (p : BitVec w) (o : ℕ) (g : BitVec bits → BitVec bits) :
    Memory w :=
  m.setField p o (g (m.field bits p o))

theorem setField_setField (m : Memory w) (p : BitVec w) (o : ℕ) (v u : BitVec bits)
    (hw : bits / 8 ≤ 2 ^ w) : (m.setField p o v).setField p o u = m.setField p o u := by
  funext x
  by_cases hx : InSpan (p + BitVec.ofNat w o) (bits / 8) x
  · exact store_congr _ _ hw rfl hx
  · rw [setField_of_not_inSpan _ _ hx, setField_of_not_inSpan _ _ hx, setField_of_not_inSpan _ _ hx]

/-- A field of 64 bits is two of 32, the lower first. -/
theorem field_halves (m : Memory w) (p : BitVec w) (o : ℕ) :
    m.field 64 p o = m.field 32 p (o + 4) ++ m.field 32 p o := by
  have hlow := load_lt m (p + BitVec.ofNat w o) 4
  have hhigh := load_lt m (p + BitVec.ofNat w (o + 4)) 4
  apply BitVec.eq_of_toNat_eq
  rw [toNat_append_add]
  unfold field
  rw [BitVec.toNat_ofNat, BitVec.toNat_ofNat, BitVec.toNat_ofNat, show 64 / 8 = 4 + 4 from rfl,
    show 32 / 8 = 4 from rfl, load_add, add_ofNat_ofNat]
  omega

/-- Two changes of one word are one. -/
theorem modify_modify (g h : BitVec bits → BitVec bits) (hb : bits % 8 = 0) (hw : bits / 8 ≤ 2 ^ w) :
    (m.modify bits p o g).modify bits p o h = m.modify bits p o fun x => h (g x) := by
  unfold modify
  rw [field_setField _ _ _ _ hb hw, setField_setField _ _ _ _ _ hw]

end Memory
end Flat
