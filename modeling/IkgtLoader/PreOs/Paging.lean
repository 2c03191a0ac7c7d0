import Mathlib.Tactic.IntervalCases
import Mathlib.Tactic.SplitIfs
import IkgtLoader.Flat.Loop
import IkgtLoader.Flat.PageWalk
import IkgtLoader.PreOs.Memory

/-! `x32_pt64.c`: the page tables of the 64-bit mode, written from the 32-bit mode. -/
namespace IkgtLoader
open Flat Loop

/-! The fields of the low word of an entry that every table has. -/
namespace EntryLo

def present : BitField := ⟨0, 1⟩

def rw : BitField := ⟨1, 1⟩

def us : BitField := ⟨2, 1⟩

def pwt : BitField := ⟨3, 1⟩

def pcd : BitField := ⟨4, 1⟩

def accessed : BitField := ⟨5, 1⟩

def avl : BitField := ⟨9, 3⟩

end EntryLo

/-! Those of `em64t_pml4_t` and `em64t_pdpe_t`. -/
namespace TableLo

def ignored : BitField := ⟨6, 1⟩

def zeroes : BitField := ⟨7, 2⟩

def baseAddressLo : BitField := ⟨12, 20⟩

end TableLo

/-! Those of `em64t_pde_2mb_t`. -/
namespace PdeLo

def dirty : BitField := ⟨6, 1⟩

def pse : BitField := ⟨7, 1⟩

def global : BitField := ⟨8, 1⟩

def pat : BitField := ⟨12, 1⟩

def zeroes : BitField := ⟨13, 8⟩

def baseAddressLo : BitField := ⟨21, 11⟩

end PdeLo

/-! Those of `em64t_cr3_t`. -/
namespace Cr3Lo

def pwt : BitField := ⟨3, 1⟩

def pcd : BitField := ⟨4, 1⟩

def baseAddressLo : BitField := ⟨12, 20⟩

end Cr3Lo

def PAGE_4KB_SIZE : ℕ := 0x1000

def PAGE_2MB_SIZE : BitVec 32 := 0x200000

/-- An assignment to a field of `table[i].lo`. -/
def putLo (mem : Memory 32) (table : BitVec 32) (i : ℕ) (f : BitField) (v : BitVec 32) : Memory 32 :=
  mem.modify 32 table (8 * i) fun lo => f.set lo v

/-- The assignments to an entry of the PML4 or of the PDPT, but for its base. -/
def putTableFlags (mem : Memory 32) (table : BitVec 32) (i : ℕ) : Memory 32 :=
  let mem := putLo mem table i EntryLo.present 1
  let mem := putLo mem table i EntryLo.rw 1
  let mem := putLo mem table i EntryLo.us 0
  let mem := putLo mem table i EntryLo.pwt 0
  let mem := putLo mem table i EntryLo.pcd 0
  let mem := putLo mem table i EntryLo.accessed 0
  let mem := putLo mem table i TableLo.ignored 0
  let mem := putLo mem table i TableLo.zeroes 0
  putLo mem table i EntryLo.avl 0

/-- The assignments to an entry of a page directory. -/
def putPde (mem : Memory 32) (pdTable : BitVec 32) (i : ℕ) (address : BitVec 32) : Memory 32 :=
  let mem := putLo mem pdTable i EntryLo.present 1
  let mem := putLo mem pdTable i EntryLo.rw 1
  let mem := putLo mem pdTable i EntryLo.us 0
  let mem := putLo mem pdTable i EntryLo.pwt 0
  let mem := putLo mem pdTable i EntryLo.pcd 0
  let mem := putLo mem pdTable i EntryLo.accessed 0
  let mem := putLo mem pdTable i PdeLo.dirty 0
  let mem := putLo mem pdTable i PdeLo.pse 1
  let mem := putLo mem pdTable i PdeLo.global 0
  let mem := putLo mem pdTable i EntryLo.avl 0
  let mem := putLo mem pdTable i PdeLo.pat 0
  let mem := putLo mem pdTable i PdeLo.zeroes 0
  putLo mem pdTable i PdeLo.baseAddressLo (address >>> 21)

/-- A page that is cleared; nothing where the assertion spins. -/
def allocTable (s : Machine) : Option (Machine × BitVec 32) :=
  match monPageAlloc s 1 with
  | (s, table) =>
    if table = NULL then none else some ({ s with mem := s.mem.fill table 0 PAGE_4KB_SIZE }, table)

/-- The inner loop, over the memory and `address`. -/
def fillPd (mem : Memory 32) (pdTable address : BitVec 32) : Memory 32 × BitVec 32 :=
  (run (fun i _ => i < 512) (fun i s => .next (putPde s.1 pdTable i s.2, s.2 + PAGE_2MB_SIZE)) 512 0
    (mem, address)).state

/-- One round of the outer loop, which is left where the assertion spins. -/
def pdptStep (pdpTable : BitVec 32) (i : ℕ) (s : Machine × BitVec 32) :
    Outcome (Machine × BitVec 32) :=
  let m : Machine := { s.1 with mem := putTableFlags s.1.mem pdpTable i }
  match allocTable m with
  | none => .quit (m, s.2)
  | some (m, pdTable) =>
    let mem := putLo m.mem pdpTable i TableLo.baseAddressLo (pdTable >>> 12)
    let (mem, address) := fillPd mem pdTable s.2
    .next ({ m with mem := mem }, address)

/-- The machine and `cr3_for_x64.lo`; nothing if an assertion spins. The size of the memory is cut
to 4 GB and not looked at any more. -/
def x32Pt64SetupPaging (s : Machine) (cr3ForX64 : BitVec 32) (_memorySize : BitVec 64) :
    Option (Machine × BitVec 32) :=
  match allocTable s with
  | none => none
  | some (s, pml4Table) =>
    match allocTable s with
    | none => none
    | some (s, pdpTable) =>
      let mem := putLo s.mem pml4Table 0 TableLo.baseAddressLo (pdpTable >>> 12)
      let mem := putTableFlags mem pml4Table 0
      match run (fun i _ => i < 4) (pdptStep pdpTable) 4 0 ({ s with mem := mem }, 0) with
      | .next (s, _) =>
        let lo := Cr3Lo.pwt.set cr3ForX64 (0 : BitVec 32)
        let lo := Cr3Lo.pcd.set lo (0 : BitVec 32)
        some (s, Cr3Lo.baseAddressLo.set lo (pml4Table >>> 12))
      | _ => none

/-- The value that `x32_pt64_load_cr3` loads. -/
def x32Pt64GetCr3 (cr3ForX64 : BitVec 32) : BitVec 32 := cr3ForX64

/-- The word of an entry that leads to a table. -/
def tableWord (table : BitVec 32) : BitVec 32 := table.extractLsb' 12 20 ++ (3 : BitVec 12)

/-- The word of an entry that leads to a page of 2 MB. -/
def pageWord (address : BitVec 32) : BitVec 32 := address.extractLsb' 21 11 ++ (0x83 : BitVec 21)

section words
variable {mem : Memory 32} {table : BitVec 32} {i : ℕ}

/-- The change of the word of an entry by the assignments to its flags. -/
def tableFlags (lo : BitVec 32) : BitVec 32 :=
  let lo := EntryLo.present.set lo (1 : BitVec 32)
  let lo := EntryLo.rw.set lo (1 : BitVec 32)
  let lo := EntryLo.us.set lo (0 : BitVec 32)
  let lo := EntryLo.pwt.set lo (0 : BitVec 32)
  let lo := EntryLo.pcd.set lo (0 : BitVec 32)
  let lo := EntryLo.accessed.set lo (0 : BitVec 32)
  let lo := TableLo.ignored.set lo (0 : BitVec 32)
  let lo := TableLo.zeroes.set lo (0 : BitVec 32)
  EntryLo.avl.set lo (0 : BitVec 32)

theorem putTableFlags_eq : putTableFlags mem table i = mem.modify 32 table (8 * i) tableFlags := by
  unfold putTableFlags putLo
  dsimp only
  iterate 8 rw [Memory.modify_modify _ _ rfl (by decide)]
  rfl

/-- The change of the word of an entry of a page directory. -/
def pdeFields (address lo : BitVec 32) : BitVec 32 :=
  let lo := EntryLo.present.set lo (1 : BitVec 32)
  let lo := EntryLo.rw.set lo (1 : BitVec 32)
  let lo := EntryLo.us.set lo (0 : BitVec 32)
  let lo := EntryLo.pwt.set lo (0 : BitVec 32)
  let lo := EntryLo.pcd.set lo (0 : BitVec 32)
  let lo := EntryLo.accessed.set lo (0 : BitVec 32)
  let lo := PdeLo.dirty.set lo (0 : BitVec 32)
  let lo := PdeLo.pse.set lo (1 : BitVec 32)
  let lo := PdeLo.global.set lo (0 : BitVec 32)
  let lo := EntryLo.avl.set lo (0 : BitVec 32)
  let lo := PdeLo.pat.set lo (0 : BitVec 32)
  let lo := PdeLo.zeroes.set lo (0 : BitVec 32)
  PdeLo.baseAddressLo.set lo (address >>> 21)

theorem putPde_eq {address : BitVec 32} :
    putPde mem table i address = mem.modify 32 table (8 * i) (pdeFields address) := by
  unfold putPde putLo
  dsimp only
  iterate 12 rw [Memory.modify_modify _ _ rfl (by decide)]
  rfl

/-- The flags below the base: present and writable. -/
theorem getLsbD_tableFlags (lo : BitVec 32) {i : ℕ} (hi : i < 32) : (tableFlags lo).getLsbD i =
    if i < 12 then (3 : BitVec 12).getLsbD i else lo.getLsbD i := by
  unfold tableFlags
  by_cases hlow : i < 12
  · simp only [BitField.getLsbD_set _ _ _ hi]
    rw [if_pos hlow]
    interval_cases i <;> rfl
  · rw [if_neg hlow]
    simp (disch := decide) only [BitField.getLsbD_set_of_le _ _ _ hi (Nat.le_of_not_lt hlow)]

/-- The flags of a page of 2 MB: present, writable and large. -/
theorem getLsbD_pdeFields (address lo : BitVec 32) {i : ℕ} (hi : i < 32) :
    (pdeFields address lo).getLsbD i = (pageWord address).getLsbD i := by
  have hbase : PdeLo.baseAddressLo = ⟨21, 11⟩ := rfl
  unfold pdeFields pageWord
  rw [BitField.getLsbD_set _ _ _ hi, BitVec.getLsbD_append, hbase]
  dsimp only
  by_cases hlow : i < 21
  · rw [if_neg (by omega), if_pos hlow]
    simp only [BitField.getLsbD_set _ _ _ hi]
    interval_cases i <;> rfl
  · rw [if_pos (by omega), if_neg hlow]
    simp
    omega

/-- The word of an entry whose base is assigned before its flags. -/
theorem tableFlags_base (pdpTable : BitVec 32) :
    tableFlags (TableLo.baseAddressLo.set (0 : BitVec 32) (pdpTable >>> 12)) = tableWord pdpTable := by
  have hbase : TableLo.baseAddressLo = ⟨12, 20⟩ := rfl
  apply BitVec.eq_of_getLsbD_eq
  intro i hi
  unfold tableWord
  rw [getLsbD_tableFlags _ hi, BitField.getLsbD_set _ _ _ hi, BitVec.getLsbD_append, hbase]
  dsimp only
  by_cases hlow : i < 12
  · rw [if_pos hlow, if_pos hlow]
  · rw [if_neg hlow, if_neg hlow, if_pos (by omega)]
    simp
    omega

/-- The word of an entry whose flags are assigned before its base. -/
theorem base_tableFlags (pdTable : BitVec 32) :
    TableLo.baseAddressLo.set (tableFlags 0) (pdTable >>> 12) = tableWord pdTable := by
  have hbase : TableLo.baseAddressLo = ⟨12, 20⟩ := rfl
  apply BitVec.eq_of_getLsbD_eq
  intro i hi
  unfold tableWord
  rw [BitField.getLsbD_set _ _ _ hi, getLsbD_tableFlags _ hi, BitVec.getLsbD_append, hbase]
  dsimp only
  by_cases hlow : i < 12
  · rw [if_neg (by omega), if_pos hlow, if_pos hlow]
  · rw [if_pos (by omega), if_neg hlow]
    simp
    omega

theorem pdeFields_eq (address lo : BitVec 32) : pdeFields address lo = pageWord address :=
  BitVec.eq_of_getLsbD_eq fun _ hi => getLsbD_pdeFields address lo hi

theorem toNat_tableWord (x : BitVec 32) : (tableWord x).toNat = x.toNat / 4096 * 4096 + 3 := by
  unfold tableWord
  rw [toNat_append_add, BitVec.extractLsb'_toNat, Nat.shiftRight_eq_div_pow]
  have hlt := x.isLt
  change x.toNat / 4096 % 2 ^ 20 * 4096 + 3 = _
  omega

theorem toNat_pageWord (x : BitVec 32) :
    (pageWord x).toNat = x.toNat / 0x200000 * 0x200000 + 0x83 := by
  unfold pageWord
  rw [toNat_append_add, BitVec.extractLsb'_toNat, Nat.shiftRight_eq_div_pow]
  have hlt := x.isLt
  change x.toNat / 0x200000 % 2 ^ 11 * 0x200000 + 0x83 = _
  omega

theorem toNat_base (x : BitVec 32) :
    (PageTable.base (x.setWidth 64)).toNat = x.toNat / 4096 * 4096 := by
  have hlt := x.isLt
  unfold PageTable.base
  rw [toNat_append_add, BitVec.extractLsb'_toNat, Nat.shiftRight_eq_div_pow, BitVec.toNat_setWidth,
    Nat.mod_eq_of_lt (by omega), BitVec.toNat_zero]
  omega

theorem base_tableWord {x : BitVec 32} (h : 4096 ∣ x.toNat) :
    PageTable.base ((tableWord x).setWidth 64) = x.setWidth 52 := by
  have hlt := x.isLt
  apply BitVec.eq_of_toNat_eq
  rw [toNat_base, toNat_tableWord, BitVec.toNat_setWidth, Nat.mod_eq_of_lt (by omega)]
  omega

/-- The value of CR3 leads to the table. -/
theorem base_cr3 (cr3 : BitVec 32) {table : BitVec 32} (h : 4096 ∣ table.toNat) :
    PageTable.base ((Cr3Lo.baseAddressLo.set cr3 (table >>> 12)).setWidth 64) =
      table.setWidth 52 := by
  have hbase : Cr3Lo.baseAddressLo = ⟨12, 20⟩ := rfl
  have hhigh : (Cr3Lo.baseAddressLo.set cr3 (table >>> 12)).extractLsb' 12 20 =
      table.extractLsb' 12 20 := by
    apply BitVec.eq_of_getLsbD_eq
    intro i hi
    rw [BitVec.getLsbD_extractLsb', BitField.getLsbD_set _ _ _ (by omega), hbase, if_pos (by simp; omega)]
    simp
  have hnat := congrArg BitVec.toNat hhigh
  rw [BitVec.extractLsb'_toNat, BitVec.extractLsb'_toNat, Nat.shiftRight_eq_div_pow,
    Nat.shiftRight_eq_div_pow] at hnat
  have hlt := table.isLt
  have hlt' := (Cr3Lo.baseAddressLo.set cr3 (table >>> 12)).isLt
  apply BitVec.eq_of_toNat_eq
  rw [toNat_base, BitVec.toNat_setWidth, Nat.mod_eq_of_lt (by omega)]
  omega

end words

section loops
variable {m : Memory 32} {pdTable address : BitVec 32}

theorem putPde_frame {i : ℕ} (hi : i < 512) {x : BitVec 32}
    (hx : ¬ InSpan pdTable PageTable.tableSize x) : putPde m pdTable i address x = m x := by
  rw [putPde_eq]
  exact Memory.setField_of_outside _ _ hx (by unfold PageTable.tableSize; omega) (by decide)

/-- The word of entry `i`, when the loops have come to it with `address`. -/
def pageWords (address : BitVec 32) (i : ℕ) : BitVec 32 :=
  pageWord (address + BitVec.ofNat 32 (i * 0x200000))

/-- The inner loop fills a directory with consecutive pages. -/
theorem fillPd_spec (h : PageTable.Holds m pdTable fun _ => 0) (address : BitVec 32) :
    PageTable.Holds (fillPd m pdTable address).1 pdTable (pageWords address) ∧
      (fillPd m pdTable address).2 = address + BitVec.ofNat 32 0x40000000 ∧
      ∀ x, ¬ InSpan pdTable PageTable.tableSize x → (fillPd m pdTable address).1 x = m x := by
  let I : ℕ → Memory 32 × BitVec 32 → Prop := fun i s =>
    PageTable.Holds s.1 pdTable (fun k => if k < i then pageWords address k else 0) ∧
      s.2 = address + BitVec.ofNat 32 (i * 0x200000) ∧
      ∀ x, ¬ InSpan pdTable PageTable.tableSize x → s.1 x = m x
  have hstep : ∀ i s, i < 512 → I i s → I (i + 1) (putPde s.1 pdTable i s.2, s.2 + PAGE_2MB_SIZE) := by
    rintro i ⟨m', a⟩ hi ⟨hfill, haddress, hframe⟩
    dsimp only at hfill haddress hframe ⊢
    refine ⟨?_, ?_, fun x hx => (putPde_frame hi hx).trans (hframe x hx)⟩
    · rw [putPde_eq]
      refine (hfill.modify hi _).congr fun k _ => ?_
      rw [pdeFields_eq, haddress]
      rcases eq_or_ne k i with rfl | hne
      · rw [Function.update_self, if_pos (Nat.lt_succ_self k)]
        rfl
      · rw [Function.update_of_ne hne]
        have hiff : k < i ↔ k < i + 1 := by omega
        simp only [hiff]
    · rw [haddress, BitVec.add_assoc, Nat.succ_mul, BitVec.ofNat_add]
      rfl
  obtain ⟨t, ht, hfill, haddress, hframe⟩ : ∃ t, run (fun i _ => i < 512) (fun i s =>
      .next (putPde s.1 pdTable i s.2, s.2 + PAGE_2MB_SIZE)) 512 0 (m, address) = .next t ∧ I 512 t := by
    apply run_count I _ _ (Nat.zero_le _) le_rfl
    · exact ⟨h.congr fun k _ => (if_neg (Nat.not_lt_zero k)).symm, by simp, fun _ _ => rfl⟩
    · exact fun i s _ => Iff.rfl
    · exact fun i s hi hI => ⟨_, rfl, hstep i s hi hI⟩
  unfold fillPd
  rw [ht]
  exact ⟨hfill.congr fun k hk => if_pos hk, haddress, hframe⟩

end loops

/-- The page that is served next but `k`. -/
def pageAt (s : Machine) (k : ℕ) : BitVec 32 :=
  alignForward s.heapCurrent + BitVec.ofNat 32 (k * PageTable.tableSize)

/-- The machine after so many calls of `mon_page_alloc(1)`. -/
def allocated (s : Machine) (k : ℕ) : Machine := (fun t => (monPageAlloc t 1).1)^[k] s

/-- Each of the first `n` calls of `mon_page_alloc(1)` succeeds. -/
def PagesServed (s : Machine) (n : ℕ) : Prop := ∀ k < n, (monPageAlloc (allocated s k) 1).2 ≠ NULL

/-- The page `k` is the next. -/
structure HeapAt (s : Machine) (k : ℕ) (t : Machine) : Prop where
  tops : t.heapTops = s.heapTops
  next : alignForward t.heapCurrent = pageAt s k

section pages
variable {s t : Machine} {k j : ℕ}

theorem dvd_pageAt (s : Machine) (k : ℕ) : 4096 ∣ (pageAt s k).toNat := by
  unfold pageAt PageTable.tableSize
  rw [BitVec.toNat_add, toNat_alignForward, BitVec.toNat_ofNat]
  omega

theorem alignForward_pageAt (s : Machine) (k : ℕ) : alignForward (pageAt s k) = pageAt s k := by
  have hdvd := dvd_pageAt s k
  have hlt := (pageAt s k).isLt
  apply BitVec.eq_of_toNat_eq
  rw [toNat_alignForward]
  omega

theorem pageAt_succ (s : Machine) (k : ℕ) : pageAt s k + PAGE_SIZE = pageAt s (k + 1) := by
  unfold pageAt
  rw [Nat.succ_mul, ← add_ofNat_ofNat]
  rfl

theorem pageAt_apart (s : Machine) (hne : j ≠ k) (hj : j < 6) (hk : k < 6) :
    Apart (pageAt s j) PageTable.tableSize (pageAt s k) PageTable.tableSize := by
  unfold pageAt PageTable.tableSize
  exact apart_offset (by omega) (by omega) (by omega)

/-- What a call that succeeds does. -/
theorem HeapAt.served (h : HeapAt s k t) (hs : (monPageAlloc t 1).2 ≠ NULL) :
    monPageAlloc t 1 = ({ t with
      heapCurrent := pageAt s (k + 1), mem := zeroMem t.mem (pageAt s k) PAGE_SIZE }, pageAt s k) ∧
      pageAt s k ≠ NULL := by
  unfold monPageAlloc at hs ⊢
  rw [h.next, show 1 * PAGE_SIZE = PAGE_SIZE from rfl] at hs ⊢
  by_cases hlt : t.heapTops < pageAt s k + PAGE_SIZE
  · rw [reserve_refused _ _ _ hlt] at hs
    exact absurd rfl hs
  · rw [reserve_served _ _ _ hlt, pageAt_succ] at hs ⊢
    exact ⟨rfl, hs⟩

theorem HeapAt.of_mem (h : HeapAt s k t) (m : Memory 32) : HeapAt s k { t with mem := m } :=
  ⟨h.tops, h.next⟩

theorem HeapAt.zero (s : Machine) : HeapAt s 0 s := by
  refine ⟨rfl, ?_⟩
  unfold pageAt
  simp

theorem PagesServed.heapAt {n : ℕ} (h : PagesServed s n) (hk : k ≤ n) :
    HeapAt s k (allocated s k) := by
  induction k with
  | zero => exact HeapAt.zero s
  | succ k ih =>
    have hat := ih (by omega)
    unfold allocated at hat ⊢
    rw [Function.iterate_succ_apply', (hat.served (h k (by omega))).1]
    exact ⟨hat.tops, alignForward_pageAt s (k + 1)⟩

/-- Whether a call succeeds depends on the heap only. -/
theorem HeapAt.alloc {u : Machine} (h : HeapAt s k t) (hu : HeapAt s k u)
    (hs : (monPageAlloc u 1).2 ≠ NULL) : (monPageAlloc t 1).2 ≠ NULL := by
  unfold monPageAlloc at hs ⊢
  rw [h.next]
  rw [hu.next] at hs
  by_cases hlt : s.heapTops < pageAt s k + 1 * PAGE_SIZE
  · rw [reserve_refused _ _ _ (hu.tops.symm ▸ hlt)] at hs
    exact absurd rfl hs
  · rw [reserve_served _ _ _ (hu.tops.symm ▸ hlt)] at hs
    rw [reserve_served _ _ _ (h.tops.symm ▸ hlt)]
    exact hs

/-- What a page that is served holds: it is zero, and nothing else is written. -/
theorem allocTable_served (h : HeapAt s k t) (hs : (monPageAlloc t 1).2 ≠ NULL) :
    ∃ t', allocTable t = some (t', pageAt s k) ∧ HeapAt s (k + 1) t' ∧
      (∀ x, InSpan (pageAt s k) PageTable.tableSize x → t'.mem x = 0) ∧
      ∀ x, ¬ InSpan (pageAt s k) PageTable.tableSize x → t'.mem x = t.mem x := by
  obtain ⟨hserved, hnull⟩ := h.served hs
  have halloc : allocTable t = some ({ t with
      heapCurrent := pageAt s (k + 1)
      mem := (zeroMem t.mem (pageAt s k) PAGE_SIZE).fill (pageAt s k) 0 PAGE_4KB_SIZE },
      pageAt s k) := by
    unfold allocTable
    rw [hserved]
    dsimp only
    rw [if_neg hnull]
  refine ⟨_, halloc, ⟨h.tops, alignForward_pageAt s (k + 1)⟩, fun x hx => ?_, fun x hx => ?_⟩
  · have hin : InSpan (pageAt s k) PAGE_4KB_SIZE x := hx
    dsimp only
    rw [Memory.fill_apply _ _ _ _ (by decide), if_pos hin]
  · have hout : ¬ InSpan (pageAt s k) PAGE_4KB_SIZE x := hx
    have hout' : ¬ InSpan (pageAt s k) PAGE_SIZE.toNat x := hx
    dsimp only
    unfold zeroMem
    rw [Memory.fill_of_not_inSpan _ _ hout, Memory.fill_of_not_inSpan _ _ hout']

/-- A page for a table. -/
theorem allocTable_spec {n : ℕ} (hp : PagesServed s n) (hk : k < n) (h : HeapAt s k t) :
    ∃ t', allocTable t = some (t', pageAt s k) ∧ HeapAt s (k + 1) t' ∧
      PageTable.Holds t'.mem (pageAt s k) (fun _ => 0) ∧
      ∀ x, ¬ InSpan (pageAt s k) PageTable.tableSize x → t'.mem x = t.mem x := by
  obtain ⟨t', halloc, hheap, hzero, hframe⟩ :=
    allocTable_served h (h.alloc (hp.heapAt hk.le) (hp k hk))
  exact ⟨t', halloc, hheap, PageTable.Holds.of_zero hzero, hframe⟩

/-- The words of the PML4 and, after `i` rounds, of the PDPT. -/
def pml4Words (s : Machine) (k : ℕ) : BitVec 32 := if k = 0 then tableWord (pageAt s 1) else 0

def pdptWords (s : Machine) (i k : ℕ) : BitVec 32 := if k < i then tableWord (pageAt s (2 + k)) else 0

/-- The tables after `i` rounds of the outer loop. -/
structure Tables (s : Machine) (i : ℕ) (t : Machine) (address : BitVec 32) : Prop where
  heap : HeapAt s (2 + i) t
  address : address = BitVec.ofNat 32 (i * 0x40000000)
  pml4 : PageTable.Holds t.mem (pageAt s 0) (pml4Words s)
  pdpt : PageTable.Holds t.mem (pageAt s 1) (pdptWords s i)
  pd : ∀ k < i, PageTable.Holds t.mem (pageAt s (2 + k))
    (pageWords (BitVec.ofNat 32 (k * 0x40000000)))

theorem putTableFlags_frame {m : Memory 32} {table x : BitVec 32} {i : ℕ} (hi : i < 512)
    (hx : ¬ InSpan table PageTable.tableSize x) : putTableFlags m table i x = m x := by
  rw [putTableFlags_eq]
  exact Memory.setField_of_outside _ _ hx (by unfold PageTable.tableSize; omega) (by decide)

theorem putLo_frame {m : Memory 32} {table v x : BitVec 32} {f : BitField} {i : ℕ} (hi : i < 512)
    (hx : ¬ InSpan table PageTable.tableSize x) : putLo m table i f v x = m x :=
  Memory.setField_of_outside _ _ hx (by unfold PageTable.tableSize; omega) (by decide)

/-- One round of the outer loop. -/
theorem pdptStep_spec (hp : PagesServed s 6) {i : ℕ} (hi : i < 4) {address : BitVec 32}
    (h : Tables s i t address) :
    ∃ r, pdptStep (pageAt s 1) i (t, address) = .next r ∧ Tables s (i + 1) r.1 r.2 := by
  -- the flags of the entry
  obtain ⟨m₁, hm₁⟩ : ∃ m, putTableFlags t.mem (pageAt s 1) i = m := ⟨_, rfl⟩
  have hframe₁ : ∀ x, ¬ InSpan (pageAt s 1) PageTable.tableSize x → m₁ x = t.mem x :=
    fun x hx => hm₁ ▸ putTableFlags_frame (by omega) hx
  have hpdpt₁ : PageTable.Holds m₁ (pageAt s 1)
      (Function.update (pdptWords s i) i (tableFlags (pdptWords s i i))) := by
    rw [← hm₁, putTableFlags_eq]
    exact h.pdpt.modify (by omega) _
  -- the page for the directory
  obtain ⟨u, halloc, hheap, hzero, hframe₂⟩ :=
    allocTable_spec hp (by omega : 2 + i < 6) (h.heap.of_mem m₁)
  rw [Nat.add_assoc] at hheap
  -- the base of the entry
  obtain ⟨m₃, hm₃⟩ : ∃ m, putLo u.mem (pageAt s 1) i TableLo.baseAddressLo
    (pageAt s (2 + i) >>> 12) = m := ⟨_, rfl⟩
  have hframe₃ : ∀ x, ¬ InSpan (pageAt s 1) PageTable.tableSize x → m₃ x = u.mem x :=
    fun x hx => hm₃ ▸ putLo_frame (by omega) hx
  have hpdpt₃ : PageTable.Holds m₃ (pageAt s 1) (pdptWords s (i + 1)) := by
    have hold : PageTable.Holds u.mem (pageAt s 1) _ := hpdpt₁.of_frame fun x hx =>
      hframe₂ x fun hin => pageAt_apart s (by omega : 2 + i ≠ 1) (by omega) (by omega) x hin hx
    rw [← hm₃]
    refine (hold.modify (by omega : i < 512) _).congr fun k _ => ?_
    unfold pdptWords
    rcases eq_or_ne k i with rfl | hne
    · rw [Function.update_self, Function.update_self, if_neg (lt_irrefl k),
        if_pos (Nat.lt_succ_self k)]
      exact base_tableFlags _
    · rw [Function.update_of_ne hne, Function.update_of_ne hne]
      have hiff : k < i ↔ k < i + 1 := by omega
      simp only [hiff]
  have hpd₃ : PageTable.Holds m₃ (pageAt s (2 + i)) fun _ => 0 := hzero.of_frame fun x hx =>
    hframe₃ x fun hin => pageAt_apart s (by omega : 1 ≠ 2 + i) (by omega) (by omega) x hin hx
  -- the directory
  obtain ⟨r, hr⟩ : ∃ r, fillPd m₃ (pageAt s (2 + i)) address = r := ⟨_, rfl⟩
  have hspec := fillPd_spec hpd₃ address
  rw [hr] at hspec
  obtain ⟨hfill, haddress, hframe₄⟩ := hspec
  -- a table that is neither the PDPT nor the new directory
  have hother : ∀ {j : ℕ} {f : ℕ → BitVec 32}, j < 6 → j ≠ 1 → j ≠ 2 + i →
      PageTable.Holds t.mem (pageAt s j) f →
      PageTable.Holds r.1 (pageAt s j) f := by
    intro j f hj h1 h2 hold
    apply hold.of_frame
    intro x hx
    have hpdpt : ¬ InSpan (pageAt s 1) PageTable.tableSize x :=
      pageAt_apart s h1 hj (by omega) x hx
    have hpd : ¬ InSpan (pageAt s (2 + i)) PageTable.tableSize x :=
      pageAt_apart s h2 hj (by omega) x hx
    rw [hframe₄ x hpd, hframe₃ x hpdpt, hframe₂ x hpd]
    exact hframe₁ x hpdpt
  refine ⟨({ u with mem := r.1 }, r.2), ?_, hheap.of_mem _, ?_, ?_, ?_, ?_⟩
  · unfold pdptStep
    dsimp only
    rw [hm₁, halloc]
    dsimp only
    rw [hm₃, hr]
  · rw [haddress, h.address, Nat.succ_mul, BitVec.ofNat_add]
  · exact hother (by omega) (by omega) (by omega) h.pml4
  · exact hpdpt₃.of_frame fun x hx =>
      hframe₄ x (pageAt_apart s (by omega : 1 ≠ 2 + i) (by omega) (by omega) x hx)
  · intro k hk
    rcases Nat.lt_succ_iff_lt_or_eq.mp hk with hlt | rfl
    · exact hother (by omega) (by omega) (by omega) (h.pd k hlt)
    · rwa [h.address] at hfill

/-- What the tables are in the end, and that they are reached. -/
theorem setupPaging_tables (hp : PagesServed s 6) (cr3 : BitVec 32) (memorySize : BitVec 64) :
    ∃ t address, Tables s 4 t address ∧ ∃ lo, x32Pt64SetupPaging s cr3 memorySize =
      some (t, Cr3Lo.baseAddressLo.set lo (pageAt s 0 >>> 12)) := by
  obtain ⟨u, hu, hheap, hzero, _⟩ := allocTable_spec hp (by decide : 0 < 6) (HeapAt.zero s)
  obtain ⟨v, hv, hheap', hzero', hframe⟩ := allocTable_spec hp (by decide : 1 < 6) hheap
  obtain ⟨m, hm⟩ : ∃ m, putTableFlags (putLo v.mem (pageAt s 0) 0 TableLo.baseAddressLo
    (pageAt s 1 >>> 12)) (pageAt s 0) 0 = m := ⟨_, rfl⟩
  have hpml4 : PageTable.Holds m (pageAt s 0) (pml4Words s) := by
    have hold : PageTable.Holds v.mem (pageAt s 0) fun _ => 0 := hzero.of_frame fun x hx =>
      hframe x (pageAt_apart s (by decide : 0 ≠ 1) (by decide) (by decide) x hx)
    rw [← hm, putTableFlags_eq]
    unfold putLo
    rw [Memory.modify_modify _ _ rfl (by decide)]
    refine (hold.modify (by decide : 0 < 512) _).congr fun k _ => ?_
    unfold pml4Words
    rcases eq_or_ne k 0 with rfl | hne
    · rw [Function.update_self, if_pos rfl]
      exact tableFlags_base _
    · rw [Function.update_of_ne hne, if_neg hne]
  have hpdpt : PageTable.Holds m (pageAt s 1) (pdptWords s 0) := by
    refine PageTable.Holds.congr (hzero'.of_frame fun x hx => ?_)
      fun k _ => (if_neg (Nat.not_lt_zero k)).symm
    have hout : ¬ InSpan (pageAt s 0) PageTable.tableSize x :=
      pageAt_apart s (by decide : 1 ≠ 0) (by decide) (by decide) x hx
    rw [← hm, putTableFlags_frame (by decide) hout]
    exact putLo_frame (by decide) hout
  have hinit : Tables s 0 { v with mem := m } 0 :=
    ⟨hheap'.of_mem m, rfl, hpml4, hpdpt, fun k hk => absurd hk (Nat.not_lt_zero k)⟩
  obtain ⟨r, hr, htables⟩ : ∃ r, run (fun i _ => i < 4) (pdptStep (pageAt s 1)) 4 0
      ({ v with mem := m }, 0) = .next r ∧ Tables s 4 r.1 r.2 := by
    apply run_count (fun i (r : Machine × BitVec 32) => Tables s i r.1 r.2) _ _ (Nat.zero_le _) le_rfl hinit
    · exact fun i r _ => Iff.rfl
    · exact fun i r hi h => pdptStep_spec hp hi h
  refine ⟨r.1, r.2, htables, Cr3Lo.pcd.set (Cr3Lo.pwt.set cr3 (0 : BitVec 32)) (0 : BitVec 32), ?_⟩
  unfold x32Pt64SetupPaging
  rw [hu]
  dsimp only
  rw [hv]
  dsimp only
  rw [hm, hr]

end pages

section walk
variable {s t : Machine} {address lo x : BitVec 32} {a : BitVec 48}

theorem getLsbD_tableWord {i : ℕ} (hi : i < 12) :
    (tableWord x).getLsbD i = (3 : BitVec 12).getLsbD i := by
  unfold tableWord
  rw [BitVec.getLsbD_append, if_pos hi]

theorem getLsbD_pageWord {i : ℕ} (hi : i < 21) :
    (pageWord x).getLsbD i = (0x83 : BitVec 21).getLsbD i := by
  unfold pageWord
  rw [BitVec.getLsbD_append, if_pos hi]

theorem getLsbD_widen {i : ℕ} (hi : i < 32) : (x.setWidth 64).getLsbD i = x.getLsbD i := by
  rw [BitVec.getLsbD_setWidth, decide_eq_true (by omega), Bool.true_and]

@[simp] theorem tableWord_present : (tableWord x).getLsbD 0 = true := getLsbD_tableWord (by decide)

@[simp] theorem tableWord_writable : PageTable.writable ((tableWord x).setWidth 64) = true :=
  (getLsbD_widen (by decide)).trans (getLsbD_tableWord (by decide))

@[simp] theorem tableWord_user : PageTable.user ((tableWord x).setWidth 64) = false :=
  (getLsbD_widen (by decide)).trans (getLsbD_tableWord (by decide))

@[simp] theorem tableWord_large : PageTable.large ((tableWord x).setWidth 64) = false :=
  (getLsbD_widen (by decide)).trans (getLsbD_tableWord (by decide))

@[simp] theorem pageWord_present : (pageWord x).getLsbD 0 = true := getLsbD_pageWord (by decide)

@[simp] theorem pageWord_writable : PageTable.writable ((pageWord x).setWidth 64) = true :=
  (getLsbD_widen (by decide)).trans (getLsbD_pageWord (by decide))

@[simp] theorem pageWord_user : PageTable.user ((pageWord x).setWidth 64) = false :=
  (getLsbD_widen (by decide)).trans (getLsbD_pageWord (by decide))

@[simp] theorem pageWord_large : PageTable.large ((pageWord x).setWidth 64) = true :=
  (getLsbD_widen (by decide)).trans (getLsbD_pageWord (by decide))

/-- The bits of the entry that have to be zero. -/
@[simp] theorem pageWord_reserved : ((pageWord x).setWidth 64).extractLsb' 13 8 = 0 := by
  have hlt := x.isLt
  have hword := toNat_pageWord x
  apply BitVec.eq_of_toNat_eq
  rw [BitVec.extractLsb'_toNat, Nat.shiftRight_eq_div_pow, BitVec.toNat_setWidth, hword]
  change _ = 0
  omega

/-- The page that the entry of an address leads to. -/
theorem pageWords_address {k j : ℕ} (hk : k = a.toNat / 0x40000000) (hk4 : k < 4)
    (hj : j = a.toNat / 0x200000 % 512) :
    ((pageWords (BitVec.ofNat 32 (k * 0x40000000)) j).setWidth 64).extractLsb' 21 31 ++
      a.extractLsb' 0 21 = a.setWidth 52 := by
  have ha := a.isLt
  have hsum : (BitVec.ofNat 32 (k * 0x40000000) + BitVec.ofNat 32 (j * 0x200000)).toNat =
      k * 0x40000000 + j * 0x200000 := by
    rw [BitVec.toNat_add, toNat_ofNat_of_lt (by omega), toNat_ofNat_of_lt (by omega)]
    exact Nat.mod_eq_of_lt (by omega)
  have hword : (pageWords (BitVec.ofNat 32 (k * 0x40000000)) j).toNat =
      (k * 512 + j) * 0x200000 + 0x83 := by
    unfold pageWords
    rw [toNat_pageWord, hsum]
    omega
  apply BitVec.eq_of_toNat_eq
  rw [toNat_append_add, BitVec.extractLsb'_toNat, BitVec.extractLsb'_toNat, BitVec.toNat_setWidth,
    BitVec.toNat_setWidth, hword, Nat.shiftRight_eq_div_pow, Nat.shiftRight_eq_div_pow]
  omega

theorem walk_identity (h : Tables s 4 t address) (ha : a.toNat < 2 ^ 32) :
    PageTable.walk t.mem (Cr3Lo.baseAddressLo.set lo (pageAt s 0 >>> 12)) a =
      .page ⟨a.setWidth 52, 0x200000, true, false⟩ := by
  have h39 : PageTable.index a 39 = 0 := by
    rw [PageTable.index_eq]
    omega
  have h30 : PageTable.index a 30 = a.toNat / 0x40000000 := by
    rw [PageTable.index_eq]
    omega
  have h21 : PageTable.index a 21 = a.toNat / 0x200000 % 512 := PageTable.index_eq a 21
  have hk : PageTable.index a 30 < 4 := by
    rw [h30]
    omega
  have hj : PageTable.index a 21 < 512 := by
    rw [h21]
    omega
  unfold PageTable.walk
  rw [base_cr3 _ (dvd_pageAt s 0), h39, h.pml4.lookup (by decide)]
  unfold pml4Words
  simp only [if_true, tableWord_present, tableWord_large, Bool.false_eq_true, if_false]
  rw [base_tableWord (dvd_pageAt s 1), h.pdpt.lookup (by omega)]
  unfold pdptWords
  simp only [hk, if_true, tableWord_present, tableWord_large, Bool.false_eq_true, if_false]
  rw [base_tableWord (dvd_pageAt s _), (h.pd _ hk).lookup hj]
  have haddress := pageWords_address h30 hk h21
  unfold pageWords at haddress ⊢
  simp [haddress, PageTable.leaf]

/-- Above 4 GB no entry is present. -/
theorem walk_absent (h : Tables s 4 t address) (ha : 2 ^ 32 ≤ a.toNat) :
    PageTable.walk t.mem (Cr3Lo.baseAddressLo.set lo (pageAt s 0 >>> 12)) a = .absent := by
  have hindex : ∀ shift, PageTable.index a shift < 512 := by
    intro shift
    rw [PageTable.index_eq]
    exact Nat.mod_lt _ (by decide)
  unfold PageTable.walk
  rw [base_cr3 _ (dvd_pageAt s 0), h.pml4.lookup (hindex 39)]
  unfold pml4Words
  by_cases h39 : PageTable.index a 39 = 0
  · have hk : ¬ PageTable.index a 30 < 4 := by
      have hlt := a.isLt
      rw [PageTable.index_eq] at h39 ⊢
      omega
    simp only [h39, if_true, tableWord_present, tableWord_large, Bool.false_eq_true, if_false]
    rw [base_tableWord (dvd_pageAt s 1), h.pdpt.lookup (hindex 30)]
    unfold pdptWords
    rw [if_neg hk]
    rfl
  · rw [if_neg h39]
    rfl

end walk

/-- Below 4 GB every address leads to itself through a writable supervisor page of 2 MB, and above
no entry is present. -/
structure IdentityMapped (mem : Memory 32) (cr3 : BitVec 32) : Prop where
  low : ∀ a : BitVec 48, a.toNat < 2 ^ 32 →
    PageTable.walk mem cr3 a = .page ⟨a.setWidth 52, 0x200000, true, false⟩
  high : ∀ a : BitVec 48, 2 ^ 32 ≤ a.toNat → PageTable.walk mem cr3 a = .absent

/-- With a heap that has six pages the function returns, and the memory is mapped. -/
theorem x32Pt64SetupPaging_identity (s : Machine) (cr3ForX64 : BitVec 32) (memorySize : BitVec 64)
    (hp : PagesServed s 6) :
    ∃ s' cr3', x32Pt64SetupPaging s cr3ForX64 memorySize = some (s', cr3') ∧
      IdentityMapped s'.mem (x32Pt64GetCr3 cr3') := by
  obtain ⟨t, address, htables, lo, hrun⟩ := setupPaging_tables hp cr3ForX64 memorySize
  exact ⟨t, _, hrun, fun _ ha => walk_identity htables ha, fun _ ha => walk_absent htables ha⟩

/-- A heap of 1 MB that begins within a page, in a memory that is not cleared. -/
theorem x32Pt64SetupPaging_identity_unaligned :
    ∃ s' cr3', x32Pt64SetupPaging (initializeMemoryManager (fun _ => 0xff) 0x100010 0x100000) 0
      0x80000000 = some (s', cr3') ∧ IdentityMapped s'.mem (x32Pt64GetCr3 cr3') := by
  apply x32Pt64SetupPaging_identity
  unfold PagesServed
  decide +kernel

end IkgtLoader
