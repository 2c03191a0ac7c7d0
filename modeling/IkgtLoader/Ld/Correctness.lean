import IkgtLoader.Ld.Headers

/-! A load of an accepted image with no dynamic section puts every segment at its place, moves
the addresses in the loaded program headers and changes nothing else. -/
namespace IkgtLoader.Ld
open Flat Loop

/-- The lowest segment brings the ELF header and, behind it, the program header table. -/
structure HeadersLoaded (c : ElfClass) (mem : Memory 32) (ia : MemImageAccess) (start : ℕ) : Prop where
  entsize : (fileEhdr c mem ia).ePhentsize = c.phdrSize
  lowest : ∃ i < (fileEhdr c mem ia).ePhnum, (filePhdr c mem ia i).Loadable ∧
    (filePhdr c mem ia i).pPaddr = start ∧ (filePhdr c mem ia i).pOffset = 0 ∧
    c.ehdrSize ≤ (fileEhdr c mem ia).ePhoff ∧
    (fileEhdr c mem ia).ePhoff + (fileEhdr c mem ia).ePhnum * c.phdrSize ≤
      (filePhdr c mem ia i).loadFilesz

/-- An image whose segments do not overlap and whose lowest segment brings the headers into
memory. -/
structure Linked (c : ElfClass) (mem : Memory 32) (ia : MemImageAccess) (start : ℕ) : Prop
    extends HeadersLoaded c mem ia start where
  disjoint : ∀ i < (fileEhdr c mem ia).ePhnum, ∀ j < (fileEhdr c mem ia).ePhnum, i ≠ j →
    (filePhdr c mem ia i).Loadable → (filePhdr c mem ia j).Loadable →
    (filePhdr c mem ia i).pPaddr + (filePhdr c mem ia i).pMemsz ≤ (filePhdr c mem ia j).pPaddr ∨
      (filePhdr c mem ia j).pPaddr + (filePhdr c mem ia j).pMemsz ≤ (filePhdr c mem ia i).pPaddr
  below : ∀ i < (fileEhdr c mem ia).ePhnum, (filePhdr c mem ia i).Loadable →
    (filePhdr c mem ia i).pPaddr + (filePhdr c mem ia i).pMemsz < 256 ^ c.addrSize
  small : ∀ i < (fileEhdr c mem ia).ePhnum, (filePhdr c mem ia i).Loadable →
    (filePhdr c mem ia i).pMemsz < 2 ^ 32
  fileRange : ∀ i < (fileEhdr c mem ia).ePhnum, (filePhdr c mem ia i).Loadable →
    (filePhdr c mem ia i).pOffset + (filePhdr c mem ia i).loadFilesz ≤ ia.size.toNat

/-- Such an image below `2^32` without a dynamic section. -/
structure WellFormed (c : ElfClass) (mem : Memory 32) (ia : MemImageAccess) (start : ℕ) : Prop
    extends Linked c mem ia start where
  noDynamic : ∀ i < (fileEhdr c mem ia).ePhnum, (filePhdr c mem ia i).pType ≠ PT_DYNAMIC
  low : ∀ i < (fileEhdr c mem ia).ePhnum, (filePhdr c mem ia i).Loadable →
    (filePhdr c mem ia i).pPaddr + (filePhdr c mem ia i).pMemsz < 2 ^ 32

/-- What the memory holds after the load. -/
structure LoadedAt (c : ElfClass) (mem : Memory 32) (ia : MemImageAccess) (start : ℕ)
    (dest : BitVec 32) (relocationOffset : ℕ) (mem' : Memory 32) : Prop where
  bytes : ∀ i < (fileEhdr c mem ia).ePhnum, (filePhdr c mem ia i).Loadable →
    ∀ k < (filePhdr c mem ia i).pMemsz,
      ¬ Patched c (filePhdr c mem ia) (fileEhdr c mem ia).ePhoff (fileEhdr c mem ia).ePhnum
        ((filePhdr c mem ia i).pPaddr - start + k) →
      mem' ((filePhdr c mem ia i).place start dest + BitVec.ofNat 32 k) =
        if k < (filePhdr c mem ia i).loadFilesz then
          mem (ia.image + BitVec.ofNat 32 ((filePhdr c mem ia i).pOffset + k))
        else 0
  paddr : ∀ i < (fileEhdr c mem ia).ePhnum, (filePhdr c mem ia i).pMemsz ≠ 0 →
    field mem' (loadedPhdr c dest (fileEhdr c mem ia).ePhoff i) c.pPaddr c.addrSize =
      c.wrap ((filePhdr c mem ia i).pPaddr + relocationOffset)
  vaddr : ∀ i < (fileEhdr c mem ia).ePhnum, (filePhdr c mem ia i).pMemsz ≠ 0 →
    field mem' (loadedPhdr c dest (fileEhdr c mem ia).ePhoff i) c.pVaddr c.addrSize =
      c.wrap ((filePhdr c mem ia i).pVaddr + relocationOffset)
  frame : ∀ x, (∀ i < (fileEhdr c mem ia).ePhnum, (filePhdr c mem ia i).Loadable →
    ¬ InSpan ((filePhdr c mem ia i).place start dest) (filePhdr c mem ia i).pMemsz x) →
      mem' x = mem x

section accepted
variable {c : ElfClass} {mem : Memory 32} {ia : MemImageAccess} {info : ElfLoadInfo}
  {dest : BitVec 32}

/-- With `0x8000` headers or more the loops see none and the low address is not aligned. -/
theorem phdrCount_eq_of_aligned
    (hal : (sizes c (filePhdr c mem ia) (phdrCount c mem ia)).1 % 4096 = 0) :
    phdrCount c mem ia = (fileEhdr c mem ia).ePhnum := by
  unfold phdrCount int16Bound at hal ⊢
  split
  · rfl
  next h =>
    rw [if_neg h, sizes] at hal
    cases c <;> exact absurd hal (by decide)

theorem HeadersAccepted.phdrCount_eq (ha : HeadersAccepted c mem ia info) :
    phdrCount c mem ia = (fileEhdr c mem ia).ePhnum :=
  phdrCount_eq_of_aligned (ha.start ▸ ha.aligned)

/-- No segment of the image ends behind its end. -/
def EndsBelow (c : ElfClass) (mem : Memory 32) (ia : MemImageAccess) (finish : ℕ) : Prop :=
  ∀ i < (fileEhdr c mem ia).ePhnum, (filePhdr c mem ia i).Loadable →
    (filePhdr c mem ia i).pPaddr + (filePhdr c mem ia i).pMemsz ≤ finish

theorem Linked.endsBelow {start : ℕ} (hw : Linked c mem ia start) (ha : Accepted c mem ia info) :
    EndsBelow c mem ia info.endAddr := by
  intro i hi hl
  have hs := sizes_le (c := c) (ha.phdrCount_eq.symm ▸ hi) hl
  rw [← ha.finish] at hs
  have hwrap : c.wrap ((filePhdr c mem ia i).pPaddr + (filePhdr c mem ia i).pMemsz) =
      (filePhdr c mem ia i).pPaddr + (filePhdr c mem ia i).pMemsz := Nat.mod_eq_of_lt (hw.below i hi hl)
  rw [hwrap] at hs
  exact hs.2

/-- The window of an accepted image holds its segments. -/
theorem Linked.placed (hw : Linked c mem ia info.startAddr) (ha : HeadersAccepted c mem ia info)
    (he : EndsBelow c mem ia info.endAddr) :
    Placed (filePhdr c mem ia) (phdrCount c mem ia) info.startAddr
      (info.endAddr - info.startAddr) ia.size.toNat := by
  have hn := ha.phdrCount_eq
  have hlow : ∀ i < phdrCount c mem ia, (filePhdr c mem ia i).Loadable →
      info.startAddr ≤ (filePhdr c mem ia i).pPaddr := by
    intro i hi hl
    rw [ha.start]
    exact (sizes_le (c := c) hi hl).1
  constructor
  · exact hlow
  · intro i hi hl
    have hge := hlow i hi hl
    have hle := he i (hn ▸ hi) hl
    omega
  · intro i hi hl
    have hb := hw.below i (hn ▸ hi) hl
    have hpow : 256 ^ c.addrSize ≤ 2 ^ 64 := by cases c <;> decide
    omega
  · rw [hn]
    exact hw.small
  · rw [hn]
    exact hw.disjoint
  · rw [hn]
    exact hw.fileRange

theorem Linked.loads (hw : Linked c mem ia info.startAddr) (ha : HeadersAccepted c mem ia info)
    (he : EndsBelow c mem ia info.endAddr) (hfit : info.endAddr - info.startAddr ≤ 2 ^ 32)
    (hap : Apart dest (info.endAddr - info.startAddr) ia.image ia.size.toNat) :
    Loads c mem ia info.startAddr dest (info.endAddr - info.startAddr) := by
  refine ⟨hw.placed ha he, ?_, ?_, hfit, hap⟩
  · intro i hi
    rw [ha.phdrCount_eq] at hi
    obtain ⟨l, hl, hload, _, hoff, _, hend⟩ := hw.lowest
    have hr := hw.fileRange l hl hload
    have hle : (i + 1) * c.phdrSize ≤ (fileEhdr c mem ia).ePhnum * c.phdrSize :=
      Nat.mul_le_mul_right _ hi
    rw [Nat.succ_mul] at hle
    rw [hw.entsize]
    omega
  · have h := ha.header
    have hsz : c.ehdrSize ≤ 64 := by cases c <;> decide
    omega

/-- The lowest segment brings the ELF header and the table. -/
theorem HeadersLoaded.same {start : ℕ} (hh : HeadersLoaded c mem ia start) {n : ℕ} {m : Memory 32}
    (hn : n = (fileEhdr c mem ia).ePhnum)
    (h : SegmentsAt (filePhdr c mem ia) start ia.image dest mem n m) :
    c.ehdrSize ≤ (fileEhdr c mem ia).ePhoff ∧ Memory.Same m dest mem ia.image
      ((fileEhdr c mem ia).ePhoff + (fileEhdr c mem ia).ePhnum * c.phdrSize) := by
  subst hn
  obtain ⟨l, hl, hload, hpa, hoff, hhdr, hend⟩ := hh.lowest
  have hle := (filePhdr c mem ia l).loadFilesz_le
  refine ⟨hhdr, ?_⟩
  intro k hk
  have hb := h.bytes l hl hload k (by omega)
  unfold Phdr.place at hb
  rw [hpa, Nat.sub_self, show dest + BitVec.ofNat 32 0 = dest from BitVec.add_zero _,
    if_pos (by omega), hoff, Nat.zero_add] at hb
  exact hb

/-- So the headers at the destination read as those in the file. -/
theorem HeadersLoaded.readHeaders {start : ℕ} (hh : HeadersLoaded c mem ia start) {n : ℕ}
    {m : Memory 32} (hn : n = (fileEhdr c mem ia).ePhnum)
    (h : SegmentsAt (filePhdr c mem ia) start ia.image dest mem n m) :
    readEhdr m dest c = fileEhdr c mem ia ∧ ∀ i < (fileEhdr c mem ia).ePhnum,
      readPhdr m (loadedPhdr c dest (fileEhdr c mem ia).ePhoff i) c = filePhdr c mem ia i := by
  obtain ⟨hhdr, hsame⟩ := hh.same hn h
  refine ⟨readEhdr_congr (hsame.mono (by omega)), fun i hi => ?_⟩
  have hle : (i + 1) * c.phdrSize ≤ (fileEhdr c mem ia).ePhnum * c.phdrSize :=
    Nat.mul_le_mul_right _ hi
  rw [Nat.succ_mul] at hle
  unfold loadedPhdr filePhdr filePhdrtab
  rw [tableEntry_eq, tableEntry_eq, hh.entsize]
  exact readPhdr_congr (hsame.offset (by omega))

theorem Linked.tableEnd (hw : Linked c mem ia info.startAddr) :
    c.ehdrSize ≤ (fileEhdr c mem ia).ePhoff ∧
      (fileEhdr c mem ia).ePhoff + (fileEhdr c mem ia).ePhnum * c.phdrSize ≤ ia.size.toNat := by
  obtain ⟨l, hl, hload, _, hoff, hhdr, hend⟩ := hw.lowest
  have hr := hw.fileRange l hl hload
  exact ⟨hhdr, by omega⟩

/-- The headers are mapped as they were when the image was accepted. -/
theorem Loads.loadSegments {window : ℕ} (hl : Loads c mem ia info.startAddr dest window)
    (htable : clamp ia (BitVec.ofNat 32 (fileEhdr c mem ia).ePhoff)
      (tableSize (fileEhdr c mem ia).ePhnum (fileEhdr c mem ia).ePhentsize) =
        tableSize (fileEhdr c mem ia).ePhnum (fileEhdr c mem ia).ePhentsize)
    {s : Loader} (hs : s.mem = mem) :
    ∃ t, loadSegments c s ia (info.relocate dest) = .next t ∧
      SegmentsAt (filePhdr c mem ia) info.startAddr ia.image dest mem (phdrCount c mem ia) t.1.mem ∧
      t.2 = dynamicPhdr (filePhdr c mem ia) (filePhdrtab c mem ia)
        (fileEhdr c mem ia).ePhentsize (phdrCount c mem ia) := by
  have hclamp : clamp ia 0 (BitVec.ofNat 32 c.ehdrSize) = BitVec.ofNat 32 c.ehdrSize :=
    clamp_of_fits (o := 0) (by have := hl.header; omega)
  unfold Ld.loadSegments
  rcases mapHeader_cases c s ia with ⟨hne, _⟩ | ⟨_, he, hm⟩
  · exact absurd hclamp hne
  generalize mapHeader c s ia = r at he hm ⊢
  obtain ⟨s₁, o⟩ := r
  subst he
  dsimp only at hm ⊢
  rw [hm, hs, show readEhdr mem ia.image c = fileEhdr c mem ia from rfl]
  rcases mapPhdrs_cases s₁ ia (fileEhdr c mem ia) with ⟨hne, _⟩ | ⟨_, hp, hm₂⟩
  · exact absurd htable hne
  generalize mapPhdrs s₁ ia (fileEhdr c mem ia) = r at hp hm₂ ⊢
  obtain ⟨s₂, o⟩ := r
  subst hp
  exact hl.segments ((hm₂.trans hm).trans hs) _ _

/-- Both loops of a load, one after the other. -/
theorem Linked.loops (hw : Linked c mem ia info.startAddr) (ha : HeadersAccepted c mem ia info)
    (he : EndsBelow c mem ia info.endAddr) (hfit : info.endAddr - info.startAddr ≤ 2 ^ 32)
    (hap : Apart dest (info.endAddr - info.startAddr) ia.image ia.size.toNat) {s : Loader}
    (hs : s.mem = mem) :
    ∃ s₁ s₂, loadSegments c s ia (info.relocate dest) = .next (s₁,
        dynamicPhdr (filePhdr c mem ia) (filePhdrtab c mem ia) c.phdrSize
          (fileEhdr c mem ia).ePhnum) ∧
      patchHeaders c s₁ (info.relocate dest) = .next s₂ ∧
      LoadedAt c mem ia info.startAddr dest (info.relocate dest).relocationOffset s₂.mem := by
  have hn := ha.phdrCount_eq
  have hl := hw.loads ha he hfit hap
  obtain ⟨⟨s₁, dyn⟩, hrun, hseg, hdyn⟩ := hl.loadSegments ha.table hs
  dsimp only at hseg hdyn
  obtain ⟨hhdr, hend⟩ := hw.tableEnd
  obtain ⟨heh, hph⟩ := hw.readHeaders hn hseg
  rw [hn] at hseg
  rw [hn, hw.entsize] at hdyn
  subst hdyn
  have hsz := ia.size.isLt
  obtain ⟨s₂, hpatch, hhead⟩ := patchHeaders_spec (relocate_startAddr ha.start_lt) heh hhdr
    hw.entsize hn (by omega) hph
  refine ⟨s₁, s₂, hrun, hpatch, ?_, hhead.paddr, hhead.vaddr, ?_⟩
  · intro i hi hload k hk hnp
    have h1 := hl.placed.low i (by omega) hload
    have h2 := hl.placed.high i (by omega) hload
    rw [hhead.frame _ ?_]
    · exact hseg.bytes i hi hload k hk
    · unfold Phdr.place
      rwa [add_ofNat_ofNat, toNat_add_ofNat_sub _ (by omega)]
  · intro x hx
    rw [hhead.frame x ?_]
    · exact hseg.frame x hx
    -- the patched fields lie in the lowest segment
    · rintro ⟨i, hi, _, _, hlt⟩
      obtain ⟨l, hil, hload, hpa, _, _, hin⟩ := hw.lowest
      have hle : (i + 1) * c.phdrSize ≤ (fileEhdr c mem ia).ePhnum * c.phdrSize :=
        Nat.mul_le_mul_right _ hi
      rw [Nat.succ_mul] at hle
      have hrec : c.pVaddr + 2 * c.addrSize ≤ c.phdrSize := by cases c <;> decide
      have hfs := (filePhdr c mem ia l).loadFilesz_le
      apply hx l hil hload
      unfold Phdr.place InSpan
      rw [hpa, Nat.sub_self, show dest + BitVec.ofNat 32 0 = dest from BitVec.add_zero _]
      omega

theorem Accepted.copyTables_eq (ha : Accepted c mem ia info) (s : Loader) (fuel : ℕ) :
    copyTables c s ia (info.relocate dest) fuel = (s, .monOk) := by
  have h1 : (info.relocate dest).copySectionHeaders = false := ha.noSectionHeaders
  have h2 : (info.relocate dest).copySymbolTables = false := ha.noSymbolTables
  unfold copyTables
  simp [h1, h2]

theorem WellFormed.loadExecutable (hw : WellFormed c mem ia info.startAddr)
    (ha : Accepted c mem ia info) (hfit : info.endAddr - info.startAddr ≤ 2 ^ 32)
    (hap : Apart dest (info.endAddr - info.startAddr) ia.image ia.size.toNat) {s : Loader}
    (hs : s.mem = mem) (fuel : ℕ) :
    (loadExecutable c s ia (info.relocate dest) fuel).2 = .monOk ∧
      LoadedAt c mem ia info.startAddr dest (info.relocate dest).relocationOffset
        (loadExecutable c s ia (info.relocate dest) fuel).1.mem := by
  obtain ⟨s₁, s₂, hrun, hpatch, hat⟩ := hw.loops ha.toHeadersAccepted (hw.endsBelow ha) hfit hap hs
  rw [dynamicPhdr_none hw.noDynamic] at hrun
  have hrun' : Ld.loadExecutable c s ia (info.relocate dest) fuel = (s₂, .monOk) := by
    unfold Ld.loadExecutable
    rw [hrun]
    dsimp only
    rw [hpatch]
    exact ha.copyTables_eq s₂ fuel
  rw [hrun']
  exact ⟨rfl, hat⟩

end accepted

theorem wrap64_relocate {info : ElfLoadInfo} (dest : BitVec 32) (hs : info.startAddr < 2 ^ 64) :
    wrap64 (info.startAddr + (info.relocate dest).relocationOffset) = dest.toNat :=
  relocate_startAddr hs

/-- The entry point that was read from the header moves with the image. -/
theorem relocate_entryAddr {c : ElfClass} {mem : Memory 32} {ia : MemImageAccess}
    {info : ElfLoadInfo} (ha : Accepted c mem ia info) (dest : BitVec 32) :
    (info.relocate dest).entryAddr =
      wrap64 ((fileEhdr c mem ia).eEntry + (info.relocate dest).relocationOffset) := by
  rw [← ha.entry]
  rfl

/-- A load of an image that `elf_get_load_info` accepts with both copy flags clear. The
relocation offset is the one that moves the lowest address to the destination. -/
theorem load_correct (s : Loader) (ia : MemImageAccess) (info₀ info : ElfLoadInfo) (fuel : ℕ)
    (dest : BitVec 32) (hh : info₀.copySectionHeaders = false) (hs : info₀.copySymbolTables = false)
    (hok : (elfGetLoadInfo s ia info₀ fuel).2.2 = .monOk)
    (hinfo : (elfGetLoadInfo s ia info₀ fuel).2.1 = info)
    (hw : WellFormed info.machineType s.mem ia info.startAddr)
    (hfit : dest.toNat + (info.endAddr - info.startAddr) ≤ 2 ^ 32)
    (hap : Apart dest (info.endAddr - info.startAddr) ia.image ia.size.toNat) :
    ∃ t info', elfLoadExecutable (elfGetLoadInfo s ia info₀ fuel).1 ia info dest fuel =
        (t, info', .monOk) ∧
      wrap64 (info.startAddr + info'.relocationOffset) = dest.toNat ∧
      LoadedAt info.machineType s.mem ia info.startAddr dest info'.relocationOffset t.mem ∧
      info'.entryAddr = wrap64 ((fileEhdr info.machineType s.mem ia).eEntry +
        info'.relocationOffset) := by
  subst hinfo
  obtain ⟨c, ha, hm⟩ := accepted_of_elfGetLoadInfo hh hs hok
  generalize (elfGetLoadInfo s ia info₀ fuel).2.1 = info at *
  generalize (elfGetLoadInfo s ia info₀ fuel).1 = s₁ at *
  have hc := ha.machineType
  rw [hc] at hw ⊢
  obtain ⟨hst, hat⟩ := hw.loadExecutable ha (by omega) hap hm fuel
  refine ⟨(loadExecutable c s₁ ia (info.relocate dest) fuel).1, info.relocate dest, ?_,
    wrap64_relocate dest ha.start_lt, hat, relocate_entryAddr ha dest⟩
  have hmt : (info.relocate dest).machineType = c := hc
  unfold elfLoadExecutable
  dsimp only
  rw [← hst, hmt]
  cases c <;> rfl

/-- The one segment of the small executable brings its headers. -/
theorem wellFormed_tinyElf32 :
    WellFormed .elfclass32 (Memory.ofBytes 0x1000 tinyElf32) ⟨0x1000, 84⟩ 0 where
  entsize := by decide +kernel
  lowest := ⟨0, by decide +kernel⟩
  disjoint := by
    have hn : (fileEhdr .elfclass32 (Memory.ofBytes 0x1000 tinyElf32) ⟨0x1000, 84⟩).ePhnum = 1 := by
      decide +kernel
    intro i hi j hj hne
    omega
  below := by decide +kernel
  small := by decide +kernel
  fileRange := by decide +kernel
  noDynamic := by decide +kernel
  low := by decide +kernel

/-- The small executable, loaded behind itself. -/
theorem load_correct_tinyElf32 :
    ∃ t info', elfLoadExecutable
        (elfGetLoadInfo ⟨Memory.ofBytes 0x1000 tinyElf32, []⟩ ⟨0x1000, 84⟩ ElfLoadInfo.cleared 0).1
        ⟨0x1000, 84⟩ ⟨.elfclass32, 0, 0x60, 0x34, 0, 0, false, false⟩ 0x2000 0 =
        (t, info', .monOk) ∧
      wrap64 (0 + info'.relocationOffset) = 0x2000 ∧
      LoadedAt .elfclass32 (Memory.ofBytes 0x1000 tinyElf32) ⟨0x1000, 84⟩ 0 0x2000
        info'.relocationOffset t.mem ∧
      info'.entryAddr = wrap64 ((fileEhdr .elfclass32 (Memory.ofBytes 0x1000 tinyElf32)
        ⟨0x1000, 84⟩).eEntry + info'.relocationOffset) :=
  load_correct ⟨Memory.ofBytes 0x1000 tinyElf32, []⟩ ⟨0x1000, 84⟩ ElfLoadInfo.cleared
    ⟨.elfclass32, 0, 0x60, 0x34, 0, 0, false, false⟩ 0 0x2000 rfl rfl (by decide +kernel)
    (by decide +kernel) wellFormed_tinyElf32 (by decide)
    (apart_of_le (a := 0x1000) (m := 84) (by decide) (by decide)).symm

end IkgtLoader.Ld
