import IkgtLoader.PreOs.Descriptor
import IkgtLoader.PreOs.Paging

/-! `x32_gdt64.c`: the descriptor table of the 32-bit mode, copied and extended for the 64-bit mode. -/
namespace IkgtLoader
open Flat

/-! The fields of the upper word of `em64t_code_segment_descriptor_t`. -/
namespace CodeHi

def accessed : BitField := ⟨8, 1⟩

def readable : BitField := ⟨9, 1⟩

def conforming : BitField := ⟨10, 1⟩

def mbo11 : BitField := ⟨11, 1⟩

def mbo12 : BitField := ⟨12, 1⟩

def dpl : BitField := ⟨13, 2⟩

def present : BitField := ⟨15, 1⟩

def longMode : BitField := ⟨21, 1⟩

def defaultSize : BitField := ⟨22, 1⟩

def granularity : BitField := ⟨23, 1⟩

end CodeHi

/-- An assignment to a field of `p_gdt_64[i].hi`. -/
def putHi (mem : Memory 32) (gdt64 : BitVec 32) (i : ℕ) (f : BitField) (v : BitVec 32) : Memory 32 :=
  mem.modify 32 gdt64 (8 * i + 4) fun hi => f.set hi v

/-- The assignments to a new entry. Those for the code segment and for the data segment differ in the
values of `conforming` and `mbo_11`. -/
def putSegment (mem : Memory 32) (gdt64 : BitVec 32) (i : ℕ) (conforming mbo11 : BitVec 32) :
    Memory 32 :=
  let mem := putHi mem gdt64 i CodeHi.accessed 0
  let mem := putHi mem gdt64 i CodeHi.readable 1
  let mem := putHi mem gdt64 i CodeHi.conforming conforming
  let mem := putHi mem gdt64 i CodeHi.mbo11 mbo11
  let mem := putHi mem gdt64 i CodeHi.mbo12 1
  let mem := putHi mem gdt64 i CodeHi.dpl 0
  let mem := putHi mem gdt64 i CodeHi.present 1
  let mem := putHi mem gdt64 i CodeHi.longMode 1
  let mem := putHi mem gdt64 i CodeHi.defaultSize 0
  putHi mem gdt64 i CodeHi.granularity 1

/-- The globals of the module but for `gdtr_32`. -/
structure Gdt64 where
  gdtr64 : Gdtr
  cs64 : BitVec 16

/-- Nothing where the assertion spins. The table of the 32-bit mode is given by its register. -/
def x32Gdt64Setup (s : Machine) (gdtr32 : Gdtr) : Option (Machine × Gdt64) :=
  match allocTable s with
  | none => none
  | some (s, gdt64) =>
    let mem := s.mem.copy gdt64 gdtr32.base (gdtr32.limit.toNat + 1)
    let last := gdtr32.limit.toNat / sizeOfDescriptor
    let lastIndex := if mem.field 64 gdt64 (8 * last) ≠ 0 then last + 1 else last
    -- the code segment of the monitor and the data segment of its stacks
    let mem := putSegment mem gdt64 lastIndex 1 1
    let mem := putSegment mem gdt64 (lastIndex + 1) 0 0
    some ({ s with mem := mem },
      { gdtr64 := ⟨gdtr32.limit + 16, gdt64⟩
        cs64 := BitVec.ofNat 16 (lastIndex * sizeOfDescriptor) })

def x32Gdt64GetCs (g : Gdt64) : BitVec 16 := g.cs64

def x32Gdt64GetGdtr (g : Gdt64) : Gdtr := g.gdtr64

section words
variable {mem : Memory 32} {gdt64 : BitVec 32} {i k : ℕ}

/-- The change of the upper word of an entry. -/
def segmentFields (conforming mbo11 hi : BitVec 32) : BitVec 32 :=
  let hi := CodeHi.accessed.set hi (0 : BitVec 32)
  let hi := CodeHi.readable.set hi (1 : BitVec 32)
  let hi := CodeHi.conforming.set hi conforming
  let hi := CodeHi.mbo11.set hi mbo11
  let hi := CodeHi.mbo12.set hi (1 : BitVec 32)
  let hi := CodeHi.dpl.set hi (0 : BitVec 32)
  let hi := CodeHi.present.set hi (1 : BitVec 32)
  let hi := CodeHi.longMode.set hi (1 : BitVec 32)
  let hi := CodeHi.defaultSize.set hi (0 : BitVec 32)
  CodeHi.granularity.set hi (1 : BitVec 32)

theorem putSegment_eq {conforming mbo11 : BitVec 32} : putSegment mem gdt64 i conforming mbo11 =
    mem.modify 32 gdt64 (8 * i + 4) (segmentFields conforming mbo11) := by
  unfold putSegment putHi
  dsimp only
  iterate 9 rw [Memory.modify_modify _ _ rfl (by decide)]
  rfl

/-- The upper words of the new entries, in slots that were zero. -/
def codeHi : BitVec 32 := 0x00a09e00

def dataHi : BitVec 32 := 0x00a09200

theorem segmentFields_code : segmentFields 1 1 0 = codeHi := by decide

theorem segmentFields_data : segmentFields 0 0 0 = dataHi := by decide

/-- A change of the upper word of one slot, in a table of a page. -/
theorem field_modifyHi (g : BitVec 32 → BitVec 32) (hi : i < 512) (hk : k < 512) :
    (mem.modify 32 gdt64 (8 * i + 4) g).field 64 gdt64 (8 * k) =
      if k = i then g (mem.field 32 gdt64 (8 * i + 4)) ++ mem.field 32 gdt64 (8 * i)
      else mem.field 64 gdt64 (8 * k) := by
  unfold Memory.modify
  split
  next h =>
    subst h
    rw [Memory.field_halves, Memory.field_setField _ _ _ _ rfl (by decide),
      Memory.field_setField_of_ne _ _ (by omega) (by omega) (by omega)]
  next h => exact Memory.field_setField_of_ne _ _ (by omega) (by omega) (by omega)

/-- The halves of a slot that is zero. -/
theorem halves_of_zero (h : mem.field 64 gdt64 (8 * i) = 0) :
    mem.field 32 gdt64 (8 * i + 4) = 0 ∧ mem.field 32 gdt64 (8 * i) = 0 := by
  rw [Memory.field_halves] at h
  have hnat := congrArg BitVec.toNat h
  rw [toNat_append_add] at hnat
  change _ = 0 at hnat
  constructor <;> apply BitVec.eq_of_toNat_eq <;> change _ = 0 <;> omega

theorem field_putSegment {conforming mbo11 v : BitVec 32}
    (hv : segmentFields conforming mbo11 0 = v) (h : mem.field 64 gdt64 (8 * i) = 0) (hi : i < 512)
    (hk : k < 512) : (putSegment mem gdt64 i conforming mbo11).field 64 gdt64 (8 * k) =
      if k = i then v ++ (0 : BitVec 32) else mem.field 64 gdt64 (8 * k) := by
  obtain ⟨hhigh, hlow⟩ := halves_of_zero h
  rw [putSegment_eq, field_modifyHi _ hi hk, hhigh, hlow, hv]

end words

section setup
variable {s t : Machine} {m : Memory 32} {n i : ℕ} {page : BitVec 32}

/-- The entries of the 32-bit table, and zeros behind them. -/
def clonedEntry (mem : Memory 32) (base : BitVec 32) (n i : ℕ) : BitVec 64 :=
  if i < n then mem.field 64 base (8 * i) else 0

/-- The copy of a table into a page of zeros. -/
theorem clone_entries {mem : Memory 32} {base : BitVec 32} (hpage : ∀ x, InSpan page 4096 x → m x = 0)
    (hframe : ∀ x, ¬ InSpan page 4096 x → m x = mem x) (hap : Apart base (8 * n) page 4096)
    (hn : 8 * n ≤ 4096) (hi : i < 512) :
    (m.copy page base (8 * n)).field 64 page (8 * i) = clonedEntry mem base n i := by
  unfold clonedEntry
  split
  next hin =>
    -- the bytes of the source are as they were, and the page does not begin in it
    have hsame : Memory.Same (m.copy page base (8 * n)) page mem base (8 * n) := by
      intro k hk
      rw [Memory.copy_apply m (by omega) (.inr fun hp => hap page hp (by simp)) hk]
      exact hframe _ (hap _ ((inSpan_add_ofNat (by omega)).mpr hk))
    exact Memory.field_congr hsame (by omega)
  next hout =>
    refine Memory.field_of_zero (fun x hx => ?_) (by decide)
    change InSpan (page + BitVec.ofNat 32 (8 * i)) 8 x at hx
    have hin : InSpan page 4096 x := hx.of_offset (by omega) (by decide)
    rw [Memory.copy_of_not_inSpan, hpage x hin]
    rw [inSpan_offset (by omega)] at hx
    exact fun hlow => hout (by unfold InSpan at hlow; omega)

/-- The copy of a table that lies in the page itself: the page has been cleared before. -/
theorem clone_self (hpage : ∀ x, InSpan page 4096 x → m x = 0) (hn : 8 * n ≤ 4096) (hi : i < 512) :
    (m.copy page page (8 * n)).field 64 page (8 * i) = 0 := by
  refine Memory.field_of_zero (fun x hx => ?_) (by decide)
  have hin : InSpan page 4096 x := hx.of_offset (by omega) (by decide)
  by_cases hlow : InSpan page (8 * n) x
  · obtain ⟨k, hk, -, rfl⟩ := hlow.exists_index
    rw [Memory.copy_apply m (by omega) (.inl rfl) hk]
    exact hpage _ hin
  · rw [Memory.copy_of_not_inSpan _ _ hlow]
    exact hpage x hin

/-- The place of the code segment: the last entry if it is zero, otherwise the one behind it. -/
def codeIndex (e : ℕ → BitVec 64) (n : ℕ) : ℕ := if e (n - 1) ≠ 0 then n else n - 1

/-- The entries of the new table, from those that have been copied. -/
def extendedEntry (e : ℕ → BitVec 64) (n i : ℕ) : BitVec 64 :=
  if i = codeIndex e n then codeHi ++ (0 : BitVec 32)
  else if i = codeIndex e n + 1 then dataHi ++ (0 : BitVec 32)
  else e i

/-- What the function leaves in a page with `n` entries copied to it. -/
theorem x32Gdt64Setup_of_clone (gdtr32 : Gdtr) {e : ℕ → BitVec 64} (halloc : allocTable s = some (t, page))
    (hclone : ∀ i < 512, (t.mem.copy page gdtr32.base (8 * n)).field 64 page (8 * i) = e i)
    (he : ∀ i, n ≤ i → e i = 0) (hn : 2 ≤ n) (hfit : 8 * n + 16 ≤ 4096)
    (hlimit : gdtr32.limit.toNat = 8 * n - 1) :
    ∃ u, x32Gdt64Setup s gdtr32 = some (u,
      { gdtr64 := ⟨gdtr32.limit + 16, page⟩, cs64 := BitVec.ofNat 16 (codeIndex e n * 8) }) ∧
      ∀ i < 512, u.mem.field 64 page (8 * i) = extendedEntry e n i := by
  obtain ⟨m, hm⟩ : ∃ m, t.mem.copy page gdtr32.base (8 * n) = m := ⟨_, rfl⟩
  rw [hm] at hclone
  obtain ⟨c, hc⟩ : ∃ c, codeIndex e n = c := ⟨_, rfl⟩
  have hlast : (if m.field 64 page (8 * (n - 1)) ≠ 0 then n - 1 + 1 else n - 1) = c := by
    rw [hclone _ (by omega), ← hc]
    unfold codeIndex
    rw [Nat.sub_add_cancel (by omega)]
  have hplace : c ≤ n ∧ e c = 0 ∧ e (c + 1) = 0 := by
    rw [← hc]
    unfold codeIndex
    split
    next => exact ⟨le_rfl, he n le_rfl, he (n + 1) (by omega)⟩
    next h => exact ⟨by omega, not_not.mp h, he _ (by omega)⟩
  obtain ⟨hle, hcode, hdata⟩ := hplace
  -- the stores of the two entries, both in slots that were zero
  have hfirst : ∀ i < 512, (putSegment m page c 1 1).field 64 page (8 * i) =
      if i = c then codeHi ++ (0 : BitVec 32) else e i := by
    intro i hi
    rw [field_putSegment segmentFields_code ((hclone c (by omega)).trans hcode) (by omega) hi,
      hclone i hi]
  have hslot : (putSegment m page c 1 1).field 64 page (8 * (c + 1)) = 0 := by
    rw [hfirst _ (by omega), if_neg (by omega)]
    exact hdata
  refine ⟨{ t with mem := putSegment (putSegment m page c 1 1) page (c + 1) 0 0 }, ?_, fun i hi => ?_⟩
  · unfold x32Gdt64Setup sizeOfDescriptor
    rw [halloc, hc]
    dsimp only
    rw [hlimit, show 8 * n - 1 + 1 = 8 * n by omega, show (8 * n - 1) / 8 = n - 1 by omega, hm, hlast]
  · dsimp only
    unfold extendedEntry
    rw [field_putSegment segmentFields_data hslot (by omega) hi, hfirst i hi, hc]
    by_cases h : i = c + 1
    · rw [if_pos h, if_neg (by omega), if_pos h]
    · rw [if_neg h, if_neg h]

theorem selectorIndex_ofNat {c : ℕ} (hc : c < 2 ^ 13) : selectorIndex (BitVec.ofNat 16 (c * 8)) = c := by
  unfold selectorIndex
  rw [BitField.toNat_get _ _ (by decide), toNat_ofNat_of_lt (by omega)]
  change c * 8 / 8 % 2 ^ 13 = c
  omega

end setup

/-- The 32-bit table `old`, extended to a table whose register and code selector are returned. -/
structure ExtendsGdt (mem : Memory 32) (old : Gdtr) (mem' : Memory 32) (new : Gdtr)
    (cs : BitVec 16) : Prop where
  kept : ∀ i, 8 * i + 7 ≤ old.limit.toNat → i ≠ selectorIndex cs →
    mem'.field 64 new.base (8 * i) = mem.field 64 old.base (8 * i)
  replaced : 8 * selectorIndex cs + 7 ≤ old.limit.toNat →
    8 * selectorIndex cs + 7 = old.limit.toNat ∧ mem.field 64 old.base (8 * selectorIndex cs) = 0
  selector : cs ≠ 0 ∧ Selector.rpl.get cs = 0 ∧ Selector.ti.get cs = 0
  code : let hi := mem'.field 32 new.base (8 * selectorIndex cs + 4)
    CodeHi.present.get hi = 1 ∧ CodeHi.readable.get hi = 1 ∧ CodeHi.dpl.get hi = 0 ∧
      CodeHi.mbo11.get hi = 1 ∧ CodeHi.mbo12.get hi = 1 ∧ CodeHi.longMode.get hi = 1 ∧
      CodeHi.defaultSize.get hi = 0
  data : let hi := mem'.field 32 new.base (8 * (selectorIndex cs + 1) + 4)
    CodeHi.present.get hi = 1 ∧ CodeHi.readable.get hi = 1 ∧ CodeHi.dpl.get hi = 0 ∧
      CodeHi.mbo11.get hi = 0 ∧ CodeHi.mbo12.get hi = 1
  inside : 8 * (selectorIndex cs + 1) + 7 ≤ new.limit.toNat
  rest : ∀ i, selectorIndex cs + 1 < i → 8 * i + 7 ≤ new.limit.toNat →
    mem'.field 64 new.base (8 * i) = 0

/-- The upper word of an entry. -/
theorem field_high {mem : Memory 32} {p : BitVec 32} {i : ℕ} {hi lo : BitVec 32}
    (h : mem.field 64 p (8 * i) = hi ++ lo) : mem.field 32 p (8 * i + 4) = hi := by
  have hhigh := hi.isLt
  have hlow := lo.isLt
  have hlow' := (mem.field 32 p (8 * i)).isLt
  rw [Memory.field_halves] at h
  have hnat := congrArg BitVec.toNat h
  rw [toNat_append_add, toNat_append_add] at hnat
  apply BitVec.eq_of_toNat_eq
  omega

/-- With a page the table is extended, whatever its entries are, if it does not lie in this page. -/
theorem x32Gdt64Setup_extends (s : Machine) (gdtr32 : Gdtr) (n : ℕ) (hn : 2 ≤ n)
    (hfit : 8 * n + 16 ≤ 4096) (hlimit : gdtr32.limit.toNat = 8 * n - 1)
    (hpage : (monPageAlloc s 1).2 ≠ NULL)
    (hap : Apart gdtr32.base (8 * n) (alignForward s.heapCurrent) 4096) :
    ∃ t g, x32Gdt64Setup s gdtr32 = some (t, g) ∧
      ExtendsGdt s.mem gdtr32 t.mem (x32Gdt64GetGdtr g) (x32Gdt64GetCs g) := by
  obtain ⟨u, halloc, -, hzero, hframe⟩ := allocTable_served (HeapAt.zero s) hpage
  rw [← (HeapAt.zero s).next] at halloc hzero hframe
  obtain ⟨page, hp⟩ : ∃ page, alignForward s.heapCurrent = page := ⟨_, rfl⟩
  rw [hp] at hap halloc hzero hframe
  obtain ⟨t, hrun, hentries⟩ := x32Gdt64Setup_of_clone gdtr32 halloc
    (fun i hi => clone_entries hzero hframe hap (by omega) hi) (fun i hi => if_neg (by omega)) hn hfit
    hlimit
  obtain ⟨c, hc⟩ : ∃ c, codeIndex (clonedEntry s.mem gdtr32.base n) n = c := ⟨_, rfl⟩
  have hplace : c = n ∨ c = n - 1 ∧ s.mem.field 64 gdtr32.base (8 * (n - 1)) = 0 := by
    have hin : n - 1 < n := by omega
    rw [← hc]
    unfold codeIndex clonedEntry
    rw [if_pos hin]
    split
    next => exact .inl rfl
    next h => exact .inr ⟨rfl, not_not.mp h⟩
  have hindex : selectorIndex (BitVec.ofNat 16 (c * 8)) = c := selectorIndex_ofNat (by omega)
  have hcs : (BitVec.ofNat 16 (c * 8)).toNat = c * 8 := toNat_ofNat_of_lt (by omega)
  have hlimit' : (gdtr32.limit + 16).toNat = 8 * n + 15 := by
    rw [BitVec.toNat_add, hlimit]
    change (8 * n - 1 + 16) % 2 ^ 16 = _
    omega
  have hcode : t.mem.field 32 page (8 * c + 4) = codeHi := by
    have hentry : t.mem.field 64 page (8 * c) = codeHi ++ (0 : BitVec 32) := by
      rw [hentries c (by omega)]
      unfold extendedEntry
      rw [if_pos hc.symm]
    exact field_high hentry
  have hdata : t.mem.field 32 page (8 * (c + 1) + 4) = dataHi := by
    have hentry : t.mem.field 64 page (8 * (c + 1)) = dataHi ++ (0 : BitVec 32) := by
      rw [hentries (c + 1) (by omega)]
      unfold extendedEntry
      rw [hc, if_neg (by omega), if_pos rfl]
    exact field_high hentry
  have hother : ∀ i < 512, i ≠ c → i ≠ c + 1 →
      t.mem.field 64 page (8 * i) = clonedEntry s.mem gdtr32.base n i := by
    intro i hi h1 h2
    rw [hentries i hi]
    unfold extendedEntry
    rw [hc, if_neg h1, if_neg h2]
  rw [hc] at hrun
  refine ⟨t, _, hrun, ?_⟩
  change ExtendsGdt s.mem gdtr32 t.mem ⟨gdtr32.limit + 16, page⟩ (BitVec.ofNat 16 (c * 8))
  constructor
  case kept =>
    intro i hi hne
    rw [hindex] at hne
    rw [hlimit] at hi
    refine (hother i (by omega) hne (by omega)).trans ?_
    unfold clonedEntry
    exact if_pos (by omega)
  case replaced =>
    rw [hindex, hlimit]
    intro hin
    obtain ⟨rfl, hz⟩ := hplace.resolve_left (by omega)
    exact ⟨by omega, hz⟩
  case selector =>
    refine ⟨fun h0 => ?_, ?_, ?_⟩
    · rw [h0] at hcs
      change 0 = _ at hcs
      omega
    · apply BitVec.eq_of_toNat_eq
      rw [BitField.toNat_get _ _ (by decide), hcs]
      change c * 8 / 1 % 4 = 0
      omega
    · apply BitVec.eq_of_toNat_eq
      rw [BitField.toNat_get _ _ (by decide), hcs]
      change c * 8 / 4 % 2 = 0
      omega
  case code =>
    rw [hindex, hcode]
    decide
  case data =>
    rw [hindex, hdata]
    decide
  case inside =>
    rw [hindex, hlimit']
    omega
  case rest =>
    intro i hgt hi
    rw [hindex] at hgt
    rw [hlimit'] at hi
    refine (hother i (by omega) (by omega) (by omega)).trans ?_
    unfold clonedEntry
    exact if_neg (by omega)

/-- A heap of 1 MB in a memory that is not cleared. -/
def dirtyMachine : Machine := initializeMemoryManager (fun _ => 0xff) 0x100000 0x100000

theorem x32Gdt64Setup_extends_two :
    ∃ t g, x32Gdt64Setup dirtyMachine ⟨15, 0x1000⟩ = some (t, g) ∧
      ExtendsGdt dirtyMachine.mem ⟨15, 0x1000⟩ t.mem (x32Gdt64GetGdtr g) (x32Gdt64GetCs g) :=
  x32Gdt64Setup_extends dirtyMachine ⟨15, 0x1000⟩ 2 (by decide) (by decide) (by decide) (by decide)
    (apart_of_le (by decide) (by decide))

/-- A table that lies where the heap goes on is cleared before it is copied. -/
theorem x32Gdt64Setup_inHeap :
    ∃ t g, x32Gdt64Setup dirtyMachine ⟨15, 0x100000⟩ = some (t, g) ∧
      ¬ ExtendsGdt dirtyMachine.mem ⟨15, 0x100000⟩ t.mem (x32Gdt64GetGdtr g) (x32Gdt64GetCs g) := by
  obtain ⟨u, halloc, -, hzero, -⟩ := allocTable_served (HeapAt.zero dirtyMachine) (by decide)
  have hp : pageAt dirtyMachine 0 = 0x100000 := by decide
  rw [hp] at halloc hzero
  obtain ⟨t, hrun, hentries⟩ := x32Gdt64Setup_of_clone ⟨15, 0x100000⟩ halloc (n := 2)
    (e := fun _ => 0) (fun i hi => clone_self hzero (by decide) hi) (fun _ _ => rfl)
    (by decide) (by decide) (by decide)
  refine ⟨t, _, hrun, fun h => ?_⟩
  have hkept := h.kept 0 (by decide) (by decide)
  have hnew : t.mem.field 64 0x100000 (8 * 0) = 0 := hentries 0 (by decide)
  have hold : dirtyMachine.mem.field 64 0x100000 (8 * 0) ≠ 0 := by
    unfold Memory.field
    decide
  exact hold (hkept.symm.trans hnew)

end IkgtLoader
