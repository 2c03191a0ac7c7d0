import IkgtLoader.Flat.BitField

/-! The four-level walk of x86-64 through page tables that lie in a memory of 32-bit addresses. -/
namespace Flat

/-- Where a linear address leads, through a page of `bytes` bytes. -/
structure Page where
  address : BitVec 52
  bytes : ℕ
  writable : Bool
  user : Bool
  deriving DecidableEq

/-- A table that lies above the memory is not looked into. -/
inductive Walk
  | absent
  | reserved
  | beyond
  | page (p : Page)
  deriving DecidableEq

namespace PageTable

def present (e : BitVec 64) : Bool := e.getLsbD 0

def writable (e : BitVec 64) : Bool := e.getLsbD 1

def user (e : BitVec 64) : Bool := e.getLsbD 2

/-- The entry is that of a page of 1 GB or 2 MB. -/
def large (e : BitVec 64) : Bool := e.getLsbD 7

/-- Bits 51 to 12. -/
def base (e : BitVec 64) : BitVec 52 := e.extractLsb' 12 40 ++ 0#12

/-- Nine bits of the linear address. -/
def index (a : BitVec 48) (shift : ℕ) : ℕ := (a.extractLsb' shift 9).toNat

theorem index_eq (a : BitVec 48) (shift : ℕ) : index a shift = a.toNat / 2 ^ shift % 512 := by
  unfold index
  rw [BitVec.extractLsb'_toNat, Nat.shiftRight_eq_div_pow]

/-- The walk goes on with an entry that is present. -/
def lookup (mem : Memory 32) (table : BitVec 52) (i : ℕ) (next : BitVec 64 → Walk) : Walk :=
  if table.toNat < 2 ^ 32 then
    let e := mem.field 64 (table.setWidth 32) (8 * i)
    if present e then next e else .absent
  else .beyond

/-- The page that the entries lead to: every one of them has to allow what it allows. -/
def leaf (entries : List (BitVec 64)) (address : BitVec 52) (bytes : ℕ) : Walk :=
  .page ⟨address, bytes, entries.all writable, entries.all user⟩

/-- The walk from the value of CR3. -/
def walk (mem : Memory 32) (cr3 : BitVec 32) (a : BitVec 48) : Walk :=
  lookup mem (base (cr3.setWidth 64)) (index a 39) fun e₄ =>
    if large e₄ then .reserved
    else lookup mem (base e₄) (index a 30) fun e₃ =>
      if large e₃ then
        if e₃.extractLsb' 13 17 ≠ 0 then .reserved
        else leaf [e₄, e₃] (e₃.extractLsb' 30 22 ++ a.extractLsb' 0 30) 0x40000000
      else lookup mem (base e₃) (index a 21) fun e₂ =>
        if large e₂ then
          if e₂.extractLsb' 13 8 ≠ 0 then .reserved
          else leaf [e₄, e₃, e₂] (e₂.extractLsb' 21 31 ++ a.extractLsb' 0 21) 0x200000
        else lookup mem (base e₂) (index a 12) fun e₁ =>
          leaf [e₄, e₃, e₂, e₁] (e₁.extractLsb' 12 40 ++ a.extractLsb' 0 12) 0x1000

/-- The bytes of a table. -/
def tableSize : ℕ := 4096

/-- A table whose entries are words of 32 bits with zeros above them. -/
structure Holds (m : Memory 32) (p : BitVec 32) (f : ℕ → BitVec 32) : Prop where
  low : ∀ i < 512, m.field 32 p (8 * i) = f i
  high : ∀ i < 512, m.field 32 p (8 * i + 4) = 0

namespace Holds
variable {m m' : Memory 32} {p : BitVec 32} {f f' : ℕ → BitVec 32} {i : ℕ}

theorem of_zero (h : ∀ x, InSpan p tableSize x → m x = 0) : Holds m p fun _ => 0 := by
  have hzero : ∀ o, o + 4 ≤ tableSize → m.field 32 p o = 0 := fun o ho =>
    Memory.field_of_zero (fun x hx => h x (hx.of_offset ho (by decide))) (by decide)
  unfold tableSize at hzero
  exact ⟨fun i hi => hzero _ (by omega), fun i hi => hzero _ (by omega)⟩

theorem congr (h : Holds m p f) (hf : ∀ i < 512, f i = f' i) : Holds m p f' :=
  ⟨fun i hi => (h.low i hi).trans (hf i hi), h.high⟩

theorem of_frame (h : Holds m p f) (hm : ∀ x, InSpan p tableSize x → m' x = m x) :
    Holds m' p f := by
  have hsame : Memory.Same m' p m p tableSize := Memory.Same.of_unchanged hm (by decide)
  constructor
  · intro i hi
    rw [Memory.field_congr hsame (by unfold tableSize; omega)]
    exact h.low i hi
  · intro i hi
    rw [Memory.field_congr hsame (by unfold tableSize; omega)]
    exact h.high i hi

/-- One entry is changed. -/
theorem modify (h : Holds m p f) (hi : i < 512) (g : BitVec 32 → BitVec 32) :
    Holds (m.modify 32 p (8 * i) g) p (Function.update f i (g (f i))) := by
  constructor
  · intro k hk
    unfold Memory.modify
    rcases eq_or_ne k i with rfl | hne
    · rw [Memory.field_setField _ _ _ _ rfl (by decide), h.low k hk, Function.update_self]
    · rw [Memory.field_setField_of_ne _ _ (by omega) (by omega) (by omega), h.low k hk,
        Function.update_of_ne hne]
  · intro k hk
    unfold Memory.modify
    rw [Memory.field_setField_of_ne _ _ (by omega) (by omega) (by omega)]
    exact h.high k hk

/-- What the walk finds in the table. -/
theorem lookup (h : Holds m p f) (hi : i < 512) (next : BitVec 64 → Walk) :
    lookup m (p.setWidth 52) i next =
      if (f i).getLsbD 0 then next ((f i).setWidth 64) else .absent := by
  have hlt : (p.setWidth 52).toNat < 2 ^ 32 := by
    rw [BitVec.toNat_setWidth]
    exact lt_of_le_of_lt (Nat.mod_le _ _) p.isLt
  have htable : (p.setWidth 52).setWidth 32 = p := by
    rw [BitVec.setWidth_setWidth_of_le _ (by decide), BitVec.setWidth_eq]
  have hentry : m.field 64 p (8 * i) = (f i).setWidth 64 := by
    have hlt := (f i).isLt
    apply BitVec.eq_of_toNat_eq
    rw [Memory.field_halves, h.low i hi, h.high i hi, toNat_append_add, BitVec.toNat_setWidth,
      Nat.mod_eq_of_lt (by omega)]
    simp
  unfold PageTable.lookup present
  rw [if_pos hlt, htable, hentry]
  simp

end Holds

end PageTable
end Flat
