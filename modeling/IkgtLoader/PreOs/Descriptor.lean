import Mathlib.Tactic.IntervalCases
import IkgtLoader.Flat.BitField

/-! The guest's segments, which `starter_main.c` reads back from the global descriptor table. -/
namespace IkgtLoader
open Flat

/-- `ia32_segment_descriptor_t`, two words. -/
structure SegmentDescriptor where
  lo : BitVec 32
  hi : BitVec 32
deriving DecidableEq

/-- `ia32_gdtr_t`. -/
structure Gdtr where
  limit : BitVec 16
  base : BitVec 32

/-- `mon_segment_struct_t`. -/
structure SegmentStruct where
  base : BitVec 64
  limit : BitVec 32
  attributes : BitVec 32
  selector : BitVec 16
deriving DecidableEq

/-! The fields of `gen.lo` and `gen.hi`, and those that the system and user segments rename. -/
namespace GenLo

def limit15_00 : BitField := ⟨0, 16⟩

def baseAddress15_00 : BitField := ⟨16, 16⟩

end GenLo

namespace GenHi

def baseAddress23_16 : BitField := ⟨0, 8⟩

def s : BitField := ⟨12, 1⟩

def present : BitField := ⟨15, 1⟩

def limit19_16 : BitField := ⟨16, 4⟩

def mbz21 : BitField := ⟨21, 1⟩

def granularity : BitField := ⟨23, 1⟩

def baseAddress31_24 : BitField := ⟨24, 8⟩

end GenHi

namespace TssHi

def mbo8 : BitField := ⟨8, 1⟩

def mbz10 : BitField := ⟨10, 1⟩

def mbo11 : BitField := ⟨11, 1⟩

def mbz12 : BitField := ⟨12, 1⟩

def mbz21 : BitField := ⟨21, 1⟩

def mbz22 : BitField := ⟨22, 1⟩

end TssHi

namespace CsHi

def mbo11 : BitField := ⟨11, 1⟩

def mbo12 : BitField := ⟨12, 1⟩

def defaultSize : BitField := ⟨22, 1⟩

end CsHi

namespace DsHi

def mbz11 : BitField := ⟨11, 1⟩

def mbo12 : BitField := ⟨12, 1⟩

def big : BitField := ⟨22, 1⟩

end DsHi

/-- `gen_attr.attributes`, in the upper word. -/
def genAttributes : BitField := ⟨8, 16⟩

/-- `bits.limit_19_16` of `ia32_segment_descriptor_attr_t`. -/
def attrLimit19_16 : BitField := ⟨8, 4⟩

/-! The fields of `ia32_selector_t`. -/
namespace Selector

def rpl : BitField := ⟨0, 2⟩

def ti : BitField := ⟨2, 1⟩

def index : BitField := ⟨3, 13⟩

end Selector

def sizeOfDescriptor : ℕ := 8

def validateDescriptor (d : SegmentDescriptor) : ℤ :=
  if GenHi.present.get d.hi = 0 ∨ GenHi.mbz21.get d.hi = 1 then -1
  else if GenHi.s.get d.hi = 0 then
    if TssHi.mbo8.get d.hi = 0 ∨ TssHi.mbz10.get d.hi = 1 ∨ TssHi.mbo11.get d.hi = 0 ∨
        TssHi.mbz12.get d.hi = 1 ∨ TssHi.mbz21.get d.hi = 1 ∨ TssHi.mbz22.get d.hi = 1 then -1
    else 0
  else if genAttributes.get d.hi &&& 0x0008 ≠ 0 then
    if CsHi.mbo11.get d.hi = 0 ∨ CsHi.mbo12.get d.hi = 0 ∨ CsHi.defaultSize.get d.hi = 0 then -1
    else 0
  else
    if DsHi.mbz11.get d.hi = 1 ∨ DsHi.mbo12.get d.hi = 0 ∨ DsHi.big.get d.hi = 0 then -1
    else 0

/-- The index of a selector, over the naturals. -/
def selectorIndex (sel16 : BitVec 16) : ℕ := (Selector.index.get sel16).toNat

/-- The descriptor that is looked at, if the tests on the selector let it through. -/
def selectDescriptor (gdtr : Gdtr) (sel16 : BitVec 16) : Option (BitVec 32) :=
  let max := gdtr.limit.toNat / sizeOfDescriptor
  if selectorIndex sel16 = 0 ∨ max < selectorIndex sel16 / sizeOfDescriptor ∨
      Selector.ti.get sel16 ≠ 0 then none
  else some (gdtr.base + BitVec.ofNat 32 (sizeOfDescriptor * selectorIndex sel16))

def descriptorAt (mem : Memory 32) (desc : BitVec 32) : SegmentDescriptor :=
  ⟨mem.field 32 desc 0, mem.field 32 desc 4⟩

/-- The base as the source puts it together: the fields are widened to `int`, so that the sum is
signed when it is widened again. -/
def segmentBase (d : SegmentDescriptor) : BitVec 64 :=
  (GenLo.baseAddress15_00.get d.lo ||| GenHi.baseAddress23_16.get d.hi <<< 16 |||
    GenHi.baseAddress31_24.get d.hi <<< 24).signExtend 64

def segmentLimit (d : SegmentDescriptor) : BitVec 32 :=
  let limit := GenLo.limit15_00.get d.lo ||| GenHi.limit19_16.get d.hi <<< 16
  if GenHi.granularity.get d.hi ≠ 0 then limit <<< 12 ||| 0xfff else limit

def segmentAttributes (d : SegmentDescriptor) : BitVec 32 :=
  let attr16 := (genAttributes.get d.hi).setWidth 16
  (attrLimit19_16.set attr16 (0 : BitVec 4)).setWidth 32

def saveSegmentData (mem : Memory 32) (gdtr : Gdtr) (sel16 : BitVec 16) (ss : SegmentStruct) :
    SegmentStruct :=
  match selectDescriptor gdtr sel16 with
  | none => ss
  | some desc =>
    let d := descriptorAt mem desc
    if validateDescriptor d ≠ 0 then ss
    else
      { base := segmentBase d
        limit := segmentLimit d
        attributes := segmentAttributes d
        selector := sel16 }

/-- The attribute bits of a descriptor but for the granularity. -/
structure SegmentAttributes where
  type : BitVec 4
  s : BitVec 1
  dpl : BitVec 2
  present : BitVec 1
  avl : BitVec 1
  mbz21 : BitVec 1
  big : BitVec 1

/-- The architectural encoding of a segment, the highest field of a word first. -/
def encodeDescriptor (base : BitVec 32) (limit : BitVec 20) (g : BitVec 1) (a : SegmentAttributes) :
    SegmentDescriptor where
  lo := base.extractLsb' 0 16 ++ limit.extractLsb' 0 16
  hi := base.extractLsb' 24 8 ++ (g ++ a.big ++ a.mbz21 ++ a.avl ++ limit.extractLsb' 16 4 ++
    a.present ++ a.dpl ++ a.s ++ a.type : BitVec 16) ++ base.extractLsb' 16 8

/-- The 16 attribute bits with the bits of the limit cleared. -/
def attributeBits (g : BitVec 1) (a : SegmentAttributes) : BitVec 16 :=
  g ++ a.big ++ a.mbz21 ++ a.avl ++ 0#4 ++ a.present ++ a.dpl ++ a.s ++ a.type

/-- The last byte of a segment, from the encoded limit. -/
def effectiveLimit (limit : BitVec 20) (g : BitVec 1) : ℕ :=
  if g = 1 then limit.toNat * 4096 + 4095 else limit.toNat

section roundTrip
variable (base : BitVec 32) (limit : BitVec 20) (g : BitVec 1) (a : SegmentAttributes)

theorem segmentBase_encode :
    segmentBase (encodeDescriptor base limit g a) = base.signExtend 64 := by
  unfold segmentBase
  congr 1
  apply BitVec.eq_of_getLsbD_eq
  intro i hi
  simp only [BitField.get, encodeDescriptor, GenLo.baseAddress15_00, GenHi.baseAddress23_16,
    GenHi.baseAddress31_24, BitVec.getLsbD_or, BitVec.getLsbD_shiftLeft, BitVec.getLsbD_setWidth,
    BitVec.getLsbD_extractLsb', BitVec.getLsbD_append]
  interval_cases i <;> simp

theorem granularity_encode :
    GenHi.granularity.get (encodeDescriptor base limit g a).hi = g.setWidth 32 := by
  apply BitVec.eq_of_getLsbD_eq
  intro i hi
  rw [BitField.getLsbD_get _ _ hi]
  simp only [encodeDescriptor, GenHi.granularity, BitVec.getLsbD_setWidth, BitVec.getLsbD_append]
  by_cases h0 : i = 0
  · simp [h0]
  · have hge : g.getLsbD i = false := BitVec.getLsbD_of_ge g i (by omega)
    simp [h0, hge]

theorem limit_encode : GenLo.limit15_00.get (encodeDescriptor base limit g a).lo |||
    GenHi.limit19_16.get (encodeDescriptor base limit g a).hi <<< 16 = limit.setWidth 32 := by
  apply BitVec.eq_of_getLsbD_eq
  intro i hi
  simp only [BitField.get, encodeDescriptor, GenLo.limit15_00, GenHi.limit19_16, BitVec.getLsbD_or,
    BitVec.getLsbD_shiftLeft, BitVec.getLsbD_setWidth, BitVec.getLsbD_extractLsb',
    BitVec.getLsbD_append]
  interval_cases i <;> simp

/-- The scaled limit is the limit followed by twelve ones. -/
theorem shiftLeft_or_eq_append :
    limit.setWidth 32 <<< 12 ||| 0xfff = (limit ++ BitVec.allOnes 12 : BitVec 32) := by
  apply BitVec.eq_of_getLsbD_eq
  intro i hi
  simp only [BitVec.getLsbD_or, BitVec.getLsbD_shiftLeft, BitVec.getLsbD_setWidth,
    BitVec.getLsbD_append, BitVec.getLsbD_allOnes]
  interval_cases i <;> simp

theorem segmentLimit_encode :
    (segmentLimit (encodeDescriptor base limit g a)).toNat = effectiveLimit limit g := by
  have hlt := limit.isLt
  unfold segmentLimit effectiveLimit
  dsimp only
  rw [limit_encode, granularity_encode, shiftLeft_or_eq_append]
  obtain rfl | rfl : g = 0 ∨ g = 1 := BitVec.eq_zero_or_eq_one g
  · rw [if_neg (by decide), if_neg (by decide), BitVec.toNat_setWidth]
    omega
  · rw [if_pos (by decide), if_pos rfl, toNat_append_add]
    rfl

theorem segmentAttributes_encode : segmentAttributes (encodeDescriptor base limit g a) =
    (attributeBits g a).setWidth 32 := by
  unfold segmentAttributes
  dsimp only
  congr 1
  apply BitVec.eq_of_getLsbD_eq
  intro i hi
  rw [BitField.getLsbD_set _ _ _ hi]
  simp only [BitField.get, encodeDescriptor, attributeBits, genAttributes, attrLimit19_16,
    BitVec.getLsbD_setWidth, BitVec.getLsbD_extractLsb', BitVec.getLsbD_append]
  interval_cases i <;> simp

end roundTrip

theorem signExtend_eq_setWidth_iff {n : ℕ} (x : BitVec 32) (hn : 32 < n) :
    x.signExtend n = x.setWidth n ↔ x.toNat < 2 ^ 31 := by
  constructor
  · intro h
    have hbit := congrArg (fun y => y.getLsbD 32) h
    simp only [BitVec.getLsbD_signExtend, BitVec.getLsbD_setWidth, hn, decide_true, Bool.true_and,
      if_neg (Nat.lt_irrefl 32), BitVec.getLsbD_of_ge x 32 (Nat.le_refl 32)] at hbit
    rw [BitVec.msb_eq_decide] at hbit
    exact Nat.lt_of_not_le (of_decide_eq_false hbit)
  · intro h
    refine BitVec.signExtend_eq_setWidth_of_msb_false ?_
    rw [BitVec.msb_eq_decide]
    exact decide_eq_false (Nat.not_le_of_lt h)

section save
variable {mem : Memory 32} {gdtr : Gdtr} {sel16 : BitVec 16} {ss : SegmentStruct}

/-- The selector names a descriptor of the table: not the null one, not of the LDT, and up to its
last byte below the limit. -/
structure InGdt (gdtr : Gdtr) (sel16 : BitVec 16) : Prop where
  index : selectorIndex sel16 ≠ 0
  ti : Selector.ti.get sel16 = 0
  limit : 8 * selectorIndex sel16 + 7 ≤ gdtr.limit.toNat

theorem selectDescriptor_eq_some_iff {desc : BitVec 32} : selectDescriptor gdtr sel16 = some desc ↔
    (selectorIndex sel16 ≠ 0 ∧ Selector.ti.get sel16 = 0 ∧
      selectorIndex sel16 / 8 ≤ gdtr.limit.toNat / 8) ∧
    desc = gdtr.base + BitVec.ofNat 32 (8 * selectorIndex sel16) := by
  unfold selectDescriptor
  dsimp only
  split
  next h =>
    refine iff_of_false (by simp) ?_
    rintro ⟨⟨hi, ht, hl⟩, -⟩
    rcases h with h | h | h
    · exact hi h
    · exact Nat.not_lt_of_le hl h
    · exact h ht
  next h =>
    simp only [not_or, not_lt, ne_eq, not_not] at h
    obtain ⟨hi, hl, ht⟩ := h
    rw [Option.some_inj, eq_comm]
    exact ⟨fun he => ⟨⟨hi, ht, hl⟩, he⟩, fun he => he.2⟩

theorem InGdt.select (h : InGdt gdtr sel16) : selectDescriptor gdtr sel16 =
    some (gdtr.base + BitVec.ofNat 32 (8 * selectorIndex sel16)) := by
  have hl := h.limit
  exact selectDescriptor_eq_some_iff.mpr ⟨⟨h.index, h.ti, by omega⟩, rfl⟩

theorem saveSegmentData_of_select {desc : BitVec 32} (h : selectDescriptor gdtr sel16 = some desc)
    (hv : validateDescriptor (descriptorAt mem desc) = 0) : saveSegmentData mem gdtr sel16 ss =
      { base := segmentBase (descriptorAt mem desc)
        limit := segmentLimit (descriptorAt mem desc)
        attributes := segmentAttributes (descriptorAt mem desc)
        selector := sel16 } := by
  unfold saveSegmentData
  rw [h]
  exact if_neg (not_not_intro hv)

def storeDescriptor (mem : Memory 32) (desc : BitVec 32) (d : SegmentDescriptor) : Memory 32 :=
  (mem.setField desc 0 d.lo).setField desc 4 d.hi

theorem descriptorAt_storeDescriptor (mem : Memory 32) (desc : BitVec 32) (d : SegmentDescriptor) :
    descriptorAt (storeDescriptor mem desc d) desc = d := by
  unfold descriptorAt storeDescriptor
  rw [Memory.field_setField_of_ne _ _ (by decide) (by decide) (by decide),
    Memory.field_setField _ _ _ _ (by decide) (by decide),
    Memory.field_setField _ _ _ _ (by decide) (by decide)]

/-- A flat code segment of 32 bits for ring 0. -/
def flatCode : SegmentAttributes := ⟨0xb, 1, 0, 1, 0, 0, 1⟩

/-- Memory with such a segment of 4 GB as the only descriptor. -/
def flatTable (base desc : BitVec 32) : Memory 32 :=
  storeDescriptor (fun _ => 0) desc (encodeDescriptor base 0xfffff 1 flatCode)

/-- A table of three descriptors. -/
def smallGdtr : Gdtr := ⟨0x17, 0x1000⟩

def noSegment : SegmentStruct := ⟨0, 0, 0, 0⟩

/-- A descriptor reads back as it was encoded exactly when its base lies in the lower half of the
address space; only the base is ever wrong. -/
theorem saveSegmentData_encode_iff (mem : Memory 32) (gdtr : Gdtr) (sel16 : BitVec 16)
    (ss : SegmentStruct) (base : BitVec 32) (limit : BitVec 20) (g : BitVec 1)
    (a : SegmentAttributes) (hv : validateDescriptor (encodeDescriptor base limit g a) = 0)
    (hsel : InGdt gdtr sel16) (hd : descriptorAt mem (gdtr.base +
      BitVec.ofNat 32 (8 * selectorIndex sel16)) = encodeDescriptor base limit g a) :
    ((saveSegmentData mem gdtr sel16 ss).base = base.setWidth 64 ∧
      (saveSegmentData mem gdtr sel16 ss).limit.toNat = effectiveLimit limit g ∧
      (saveSegmentData mem gdtr sel16 ss).attributes = (attributeBits g a).setWidth 32) ↔
    base.toNat < 2 ^ 31 := by
  have hr : saveSegmentData mem gdtr sel16 ss = _ :=
    saveSegmentData_of_select hsel.select (by rw [hd]; exact hv)
  rw [hd] at hr
  have hlimit := segmentLimit_encode base limit g a
  have hattr := segmentAttributes_encode base limit g a
  rw [hr, ← signExtend_eq_setWidth_iff base (by decide : 32 < 64), ← segmentBase_encode base limit g a]
  exact ⟨fun h => h.1, fun h => ⟨h, hlimit, hattr⟩⟩

theorem saveSegmentData_encode_low :
    (saveSegmentData (flatTable 0x7fffffff 0x1010) smallGdtr 0x10 noSegment).base =
        (0x7fffffff : BitVec 32).setWidth 64 ∧
      (saveSegmentData (flatTable 0x7fffffff 0x1010) smallGdtr 0x10 noSegment).limit.toNat =
        effectiveLimit 0xfffff 1 ∧
      (saveSegmentData (flatTable 0x7fffffff 0x1010) smallGdtr 0x10 noSegment).attributes =
        (attributeBits 1 flatCode).setWidth 32 :=
  (saveSegmentData_encode_iff (flatTable 0x7fffffff 0x1010) smallGdtr 0x10 noSegment 0x7fffffff 0xfffff 1
    flatCode (by decide) ⟨by decide, by decide, by decide⟩
    (descriptorAt_storeDescriptor _ 0x1010 _)).mpr (by decide)

/-- A base in the upper half comes back with its sign in the upper word. -/
theorem saveSegmentData_encode_high :
    validateDescriptor (encodeDescriptor 0x80000000 0xfffff 1 flatCode) = 0 ∧
      InGdt smallGdtr 0x10 ∧
      descriptorAt (flatTable 0x80000000 0x1010)
        (smallGdtr.base + BitVec.ofNat 32 (8 * selectorIndex 0x10)) =
          encodeDescriptor 0x80000000 0xfffff 1 flatCode ∧
      (saveSegmentData (flatTable 0x80000000 0x1010) smallGdtr 0x10 noSegment).base ≠
        (0x80000000 : BitVec 32).setWidth 64 := by
  have hv : validateDescriptor (encodeDescriptor 0x80000000 0xfffff 1 flatCode) = 0 := by decide
  have hin : InGdt smallGdtr 0x10 := ⟨by decide, by decide, by decide⟩
  have hd := descriptorAt_storeDescriptor (fun _ => 0) 0x1010
    (encodeDescriptor 0x80000000 0xfffff 1 flatCode)
  refine ⟨hv, hin, hd, ?_⟩
  rw [saveSegmentData_of_select hin.select (by rw [← hd] at hv; exact hv)]
  change segmentBase (descriptorAt (storeDescriptor _ 0x1010 _) 0x1010) ≠ _
  rw [hd, segmentBase_encode]
  decide

/-- A segment is stored. -/
def StoresSegment (mem : Memory 32) (gdtr : Gdtr) (sel16 : BitVec 16) : Prop :=
  ∃ desc, selectDescriptor gdtr sel16 = some desc ∧ validateDescriptor (descriptorAt mem desc) = 0

theorem saveSegmentData_of_not_stores (h : ¬ StoresSegment mem gdtr sel16) :
    saveSegmentData mem gdtr sel16 ss = ss := by
  unfold saveSegmentData
  split
  next => rfl
  next desc hsel => exact if_pos fun hv => h ⟨desc, hsel, hv⟩

/-- The descriptor that is read lies in the table exactly when the index, compared with the limit in
units of eight entries, is not let through beyond it. Where nothing is stored the caller's segment
is kept. -/
theorem saveSegmentData_inGdt_iff (mem : Memory 32) (gdtr : Gdtr) (sel16 : BitVec 16)
    (ss : SegmentStruct) :
    ((∀ desc, selectDescriptor gdtr sel16 = some desc → InGdt gdtr sel16) ∧
      (¬ StoresSegment mem gdtr sel16 → saveSegmentData mem gdtr sel16 ss = ss)) ↔
    selectorIndex sel16 = 0 ∨ Selector.ti.get sel16 ≠ 0 ∨
      gdtr.limit.toNat / 8 < selectorIndex sel16 / 8 ∨
      8 * selectorIndex sel16 + 7 ≤ gdtr.limit.toNat := by
  constructor
  · rintro ⟨hin, -⟩
    by_contra hno
    simp only [not_or, not_lt, ne_eq, not_not] at hno
    obtain ⟨hi, ht, hl, hlim⟩ := hno
    exact hlim (hin _ (selectDescriptor_eq_some_iff.mpr ⟨⟨hi, ht, hl⟩, rfl⟩)).limit
  · intro h
    refine ⟨fun desc hsel => ?_, saveSegmentData_of_not_stores⟩
    obtain ⟨⟨hi, ht, hl⟩, -⟩ := selectDescriptor_eq_some_iff.mp hsel
    rcases h with h | h | h | h
    · exact absurd h hi
    · exact absurd ht h
    · exact absurd hl (Nat.not_le_of_lt h)
    · exact ⟨hi, ht, h⟩

/-- The sixteenth descriptor of a table of three is read, and what lies there is stored. -/
theorem saveSegmentData_beyond : selectDescriptor smallGdtr 0x78 = some 0x1078 ∧
    ¬ InGdt smallGdtr 0x78 ∧
    (saveSegmentData (flatTable 0 0x1078) smallGdtr 0x78 noSegment).selector = 0x78 := by
  have hsel : selectDescriptor smallGdtr 0x78 = some 0x1078 := by decide
  have hd := descriptorAt_storeDescriptor (fun _ => 0) 0x1078 (encodeDescriptor 0 0xfffff 1 flatCode)
  have hv : validateDescriptor (descriptorAt (flatTable 0 0x1078) 0x1078) = 0 := by
    unfold flatTable
    rw [hd]
    decide
  refine ⟨hsel, fun h => absurd h.limit (by decide), ?_⟩
  rw [saveSegmentData_of_select hsel hv]

end save

end IkgtLoader
