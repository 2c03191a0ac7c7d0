import IkgtLoader.Ld.HeaderFrame
import IkgtLoader.Ld.Rebase
import IkgtLoader.Ld.SectionCopy

/-! The space that `get_load_info` counts for the sections, from their link addresses, against the
places that `copy_sections` gives them at run time. -/
namespace IkgtLoader.Ld
open Flat Loop

variable {c : ElfClass} {mem m : Memory 32} {ia : MemImageAccess} {info : ElfLoadInfo} {fuel : ℕ}
  {dest : BitVec 32}

/-- Where the file has the section header table. -/
def fileShdrs (c : ElfClass) (mem : Memory 32) (ia : MemImageAccess) : BitVec 32 :=
  ia.image + BitVec.ofNat 32 (fileEhdr c mem ia).eShoff

/-- A well-formed image whose section header table lies in the file, to be loaded apart from the file below
the top; its segments, the table and the sections follow each other, also where they are loaded. -/
structure RegularImage (c : ElfClass) (mem : Memory 32) (ia : MemImageAccess) (info : ElfLoadInfo)
    (dest : BitVec 32) : Prop where
  formed : WellFormed c mem ia info.startAddr
  record : 0 < (fileEhdr c mem ia).eShnum → c.shdrSize ≤ (fileEhdr c mem ia).eShentsize
  range : (fileEhdr c mem ia).eShoff + shdrsSize c mem ia ≤ ia.size.toNat
  segments : EndsBelow c mem ia info.sectionsAddr
  table : info.sectionsAddr + shdrsSize c mem ia ≤ info.endAddr
  rises : Rises c (fileShdr c mem ia) ((info.relocate dest).sectionsAddr + shdrsSize c mem ia)
    (fileEhdr c mem ia).eShnum (2 ^ 32)
  fits : dest.toNat + (info.endAddr - info.startAddr) < 2 ^ 32
  apart : Apart dest (info.endAddr - info.startAddr) ia.image ia.size.toNat

/-- The memory `m` before the optional copies is one in which they meet the sections that were counted
in `mem`: the loaded header gives the same table, the file still holds it, it can be copied as it is, and
the copy and the sections lie between the loaded header and the top. -/
structure RegularSections (c : ElfClass) (mem m : Memory 32) (ia : MemImageAccess)
    (info : ElfLoadInfo) : Prop where
  ehdr : readEhdr m (BitVec.ofNat 32 info.startAddr) c = fileEhdr c mem ia
  shnum : (fileEhdr c mem ia).eShnum < 0x8000
  record : 0 < (fileEhdr c mem ia).eShnum → c.shdrSize ≤ (fileEhdr c mem ia).eShentsize
  copied : TableCopied c ⟨m, []⟩ ia info
  file : Memory.Same m (fileShdrs c mem ia) mem (fileShdrs c mem ia) (shdrsSize c mem ia)
  apart : ¬ InSpan (fileShdrs c mem ia) (shdrsSize c mem ia) (BitVec.ofNat 32 info.sectionsAddr)
  below : info.startAddr + c.ehdrSize ≤ info.sectionsAddr
  table : info.sectionsAddr + shdrsSize c mem ia ≤ info.endAddr
  top : info.endAddr < 2 ^ 32
  rises : Rises c (fileShdr c mem ia) (info.sectionsAddr + shdrsSize c mem ia)
    (fileEhdr c mem ia).eShnum (2 ^ 32)

/-- The sections that are read, placed from the run-time address of the table's end, end below the
relocated end. -/
def SectionsFit (c : ElfClass) (mem : Memory 32) (ia : MemImageAccess) (info : ElfLoadInfo) : Prop :=
  FitFrom c ia info (fileShdr c mem ia) (info.sectionsAddr + shdrsSize c mem ia)
    (fileEhdr c mem ia).eShnum 0

/-- The copied table names the places of the sections at the end. -/
def PlacesNamed (c : ElfClass) (m : Memory 32) (ia : MemImageAccess) (info : ElfLoadInfo) (fuel : ℕ) :
    Prop :=
  ∀ x ∈ copiedSections c m ia info fuel,
    (readShdr (afterCopies c m ia info fuel).mem x.entry c).shAddr = x.addr

theorem copySectionHeaderTable_copied {s : Loader} (h : TableCopied c s ia info) :
    copySectionHeaderTable c s ia info =
      ((s.read ia (.loadedSection info.sectionsAddr) (BitVec.ofNat 32 info.sectionsAddr)
          (readEhdr s.mem (BitVec.ofNat 32 info.startAddr) c).eShoff
          (tableSize (readEhdr s.mem (BitVec.ofNat 32 info.startAddr) c).eShentsize
            (readEhdr s.mem (BitVec.ofNat 32 info.startAddr) c).eShnum)).1.store (.header c.eShoff)
        (BitVec.ofNat 32 info.startAddr + BitVec.ofNat 32 c.eShoff) c.addrSize
        (info.sectionsAddr + (2 ^ 64 - info.startAddr)), .monOk) := by
  obtain ⟨hvalid, hread⟩ := h
  exact (if_neg (not_not.mpr hvalid)).trans (if_neg (not_not.mpr (readInFull_toNat_iff.mp hread)))

/-- A new `e_shoff` leaves the size of the table. -/
theorem readEhdr_store_shoff (c : ElfClass) (m : Memory 32) (p : BitVec 32) (v : ℕ) :
    let t := m.store (p + BitVec.ofNat 32 c.eShoff) c.addrSize v
    (readEhdr t p c).eShnum = (readEhdr m p c).eShnum ∧
      (readEhdr t p c).eShentsize = (readEhdr m p c).eShentsize := by
  cases c <;> exact ⟨field_store_of_disjoint _ _ _ (by decide) (by decide) (by decide),
    field_store_of_disjoint _ _ _ (by decide) (by decide) (by decide)⟩

section regular
variable (h : RegularSections c mem m ia info)
include h

theorem RegularSections.copying : Copying c info (fileShdr c mem ia) (fileEhdr c mem ia).eShnum
    (fileEhdr c mem ia).eShentsize :=
  ⟨h.shnum, h.record, h.below, h.table, h.top, h.rises⟩

theorem RegularSections.count_eq : (clamp ia (BitVec.ofNat 32 (fileEhdr c mem ia).eShoff)
    (tableSize (fileEhdr c mem ia).eShentsize (fileEhdr c mem ia).eShnum)).toNat =
      shdrsSize c mem ia := by
  have hread := h.copied.2
  unfold ReadInFull at hread
  rw [h.ehdr, BitVec.ofNat_toNat, BitVec.setWidth_eq] at hread
  have hmul : (tableSize (fileEhdr c mem ia).eShentsize (fileEhdr c mem ia).eShnum).toNat = _ :=
    tableSize_toNat (eShentsize_lt _ _ _) (eShnum_lt _ _ _)
  rw [hread, hmul, Nat.mul_comm]
  rfl

/-- The table is copied whole, behind the loaded header, which gets its place. -/
theorem RegularSections.table_eq : ∃ u : Loader,
    u.mem = m.copy (BitVec.ofNat 32 info.sectionsAddr) (fileShdrs c mem ia) (shdrsSize c mem ia) ∧
      (copySectionHeaderTable c ⟨m, []⟩ ia info).1 =
        u.store (.header c.eShoff) (BitVec.ofNat 32 info.startAddr + BitVec.ofNat 32 c.eShoff) c.addrSize
          (info.sectionsAddr + (2 ^ 64 - info.startAddr)) := by
  have heq := congrArg Prod.fst (copySectionHeaderTable_copied h.copied)
  dsimp only at heq
  rw [h.ehdr] at heq
  refine ⟨_, ?_, heq⟩
  unfold Loader.read memImageRead
  dsimp only
  rw [h.count_eq]
  rfl

theorem RegularSections.tableFits : TableFits c m ia info := by
  have htable := h.table
  have htop := h.top
  unfold TableFits
  dsimp only
  rw [h.ehdr, h.count_eq]
  intro _ b hb
  right
  rw [← BitVec.ofNat_add, toNat_ofNat_of_lt (by omega)]
  omega

/-- The copy of the table leaves its size in the loaded header. -/
theorem RegularSections.loaded :
    let t := (copySectionHeaderTable c ⟨m, []⟩ ia info).1
    (readEhdr t.mem (BitVec.ofNat 32 info.startAddr) c).eShnum = (fileEhdr c mem ia).eShnum ∧
      (readEhdr t.mem (BitVec.ofNat 32 info.startAddr) c).eShentsize =
        (fileEhdr c mem ia).eShentsize := by
  intro t
  obtain ⟨u, hmem, ht⟩ := h.table_eq
  have htable := h.table
  have htop := h.top
  have hkept : ∀ x, x.toNat < info.sectionsAddr → u.mem x = m x := by
    intro x hx
    rw [hmem]
    apply Memory.copy_of_not_inSpan
    rw [inSpan_iff (by rw [toNat_ofNat_of_lt (by omega)]; omega), toNat_ofNat_of_lt (by omega)]
    omega
  have hehdr := h.copying.readEhdr_kept hkept
  obtain ⟨hshnum, hentsize⟩ := readEhdr_store_shoff c u.mem (BitVec.ofNat 32 info.startAddr)
    (info.sectionsAddr + (2 ^ 64 - info.startAddr))
  change t = _ at ht
  rw [ht]
  refine ⟨hshnum.trans ?_, hentsize.trans ?_⟩ <;> rw [hehdr, h.ehdr]

/-- The copied headers read as those that were counted. -/
theorem RegularSections.same {i : ℕ} (hi : i < (fileEhdr c mem ia).eShnum) :
    tableShdr c (copySectionHeaderTable c ⟨m, []⟩ ia info).1.mem (BitVec.ofNat 32 info.sectionsAddr)
      (fileEhdr c mem ia).eShentsize i = fileShdr c mem ia i := by
  obtain ⟨u, hmem, ht⟩ := h.table_eq
  have htable := h.table
  have htop := h.top
  have hbelow := h.below
  have hfield : c.eShoff + c.addrSize ≤ c.ehdrSize := by cases c <;> decide
  have hcopied : Memory.Same (copySectionHeaderTable c ⟨m, []⟩ ia info).1.mem
      (BitVec.ofNat 32 info.sectionsAddr) mem (fileShdrs c mem ia) (shdrsSize c mem ia) := by
    intro k hk
    have hout : ¬ InSpan (BitVec.ofNat 32 info.startAddr + BitVec.ofNat 32 c.eShoff) c.addrSize
        (BitVec.ofNat 32 info.sectionsAddr + BitVec.ofNat 32 k) := by
      rw [← BitVec.ofNat_add, ← BitVec.ofNat_add,
        inSpan_iff (by rw [toNat_ofNat_of_lt (by omega)]; omega), toNat_ofNat_of_lt (by omega),
        toNat_ofNat_of_lt (by omega)]
      omega
    rw [ht]
    unfold Loader.store
    dsimp only
    rw [Memory.store_of_not_inSpan _ _ hout, hmem,
      Memory.copy_apply m (by omega) (.inr h.apart) hk, h.file k hk]
  have hend := (h.copying.entry_end hi).1
  have hent := h.record (by omega)
  exact readShdr_congr (hcopied.offset (by unfold shdrsSize; omega))

theorem RegularSections.start :
    CopiedUpTo c info (fileShdr c mem ia) (fileEhdr c mem ia).eShnum (fileEhdr c mem ia).eShentsize 0
      (copiesStart c m ia info) := by
  obtain ⟨hshnum, hentsize⟩ := h.loaded
  refine ⟨hshnum, hentsize, ?_, fun j _ hj => h.same hj, fun j hj => absurd hj (Nat.not_lt_zero j)⟩
  have htable := h.table
  have htop := h.top
  have hlimit := two_pow_le c
  have hmul : (tableSize (fileEhdr c mem ia).eShentsize (fileEhdr c mem ia).eShnum).toNat = _ :=
    tableSize_toNat (eShentsize_lt _ _ _) (eShnum_lt _ _ _)
  unfold copiesStart copyStart
  dsimp only
  rw [hshnum, hentsize, hmul, Nat.mul_comm]
  change (info.sectionsAddr + shdrsSize c mem ia) % 256 ^ c.addrSize = info.sectionsAddr + shdrsSize c mem ia
  exact Nat.mod_eq_of_lt (by omega)

/-- In a regular memory the copies fit exactly if the sections do. -/
theorem RegularSections.copiesFit_iff (hfuel : (fileEhdr c mem ia).eShnum ≤ fuel) :
    CopiesFit c m ia info fuel ↔ SectionsFit c mem ia info := by
  have hstart : WritesIn (SectionWrite c info) (copiesStart c m ia info).1 := tableFits_iff.mpr h.tableFits
  have hrun : WritesIn (SectionWrite c info) (Loop.run (BelowBound 16 (loadedShnum c info))
      (copySectionStep c ia info) fuel 0 (copiesStart c m ia info)).state.1 ↔ _ :=
    h.start.run_writesIn h.copying (Nat.zero_le _) (by omega)
  have hpair : (copiedFrom c ia info fuel 0 (copiesStart c m ia info)).Pairwise _ :=
    h.start.run_disjoint h.copying (Nat.zero_le _) (by omega)
  have hrounds : _ ↔ WritesIn (SectionWrite c info) (copiesStart c m ia info).1 ∧
      RoundsFit c ia info fuel [] 0 (copiesStart c m ia info) := copiedFrom_iff copiesStart_lt
  rw [and_iff_right hstart] at hrun hrounds
  refine (and_iff_right h.tableFits).trans (hrounds.symm.trans ?_)
  rw [hrun]
  exact and_iff_left ⟨hpair, fun _ hx => absurd hx List.not_mem_nil⟩

/-- If they do, the copied table names their places at the end. -/
theorem RegularSections.placesNamed (hh : info.copySectionHeaders = true)
    (hs : info.copySymbolTables = true) (hfuel : (fileEhdr c mem ia).eShnum ≤ fuel)
    (hfit : SectionsFit c mem ia info) : PlacesNamed c m ia info fuel := by
  unfold PlacesNamed
  rw [afterCopies_eq hh hs]
  exact h.start.run_named h.copying (Nat.zero_le _) (by omega) hfit

end regular

/-- An address at or above the start moves with it. -/
theorem wrap64_add_relocate {a : ℕ} (hs : info.startAddr ≤ a) (ha : a < 2 ^ 64)
    (hd : dest.toNat + (a - info.startAddr) < 2 ^ 64) :
    wrap64 (a + (info.relocate dest).relocationOffset) = dest.toNat + (a - info.startAddr) := by
  unfold ElfLoadInfo.relocate wrap64
  dsimp only
  omega

/-- The lowest segment begins at the start and brings the ELF header. -/
theorem RegularImage.start_add_le (h : RegularImage c mem ia info dest) :
    info.startAddr + c.ehdrSize ≤ info.sectionsAddr := by
  obtain ⟨l, hl, hload, hpa, _, hhdr, hend⟩ := h.formed.lowest
  have hle := h.segments l hl hload
  have hsize := (filePhdr c mem ia l).loadFilesz_le
  omega

theorem CountedSections.endAddr_lt (hc : CountedSections c mem ia info) : info.endAddr < 2 ^ 64 := by
  have hpow : 256 ^ c.addrSize ≤ 2 ^ 64 := by cases c <;> decide
  have hpos : 0 < 256 ^ c.addrSize := Nat.pow_pos (by decide)
  have hcursor : ∀ a i, a < 256 ^ c.addrSize → cursor c (fileShdr c mem ia) a i < 256 ^ c.addrSize := by
    intro a i ha
    induction i with
    | zero => exact ha
    | succ i ih =>
      rw [cursor]
      split
      · exact Nat.mod_lt _ hpos
      · exact ih
  rw [hc.finish]
  exact Nat.lt_of_lt_of_le (hcursor _ _ (Nat.mod_lt _ hpos)) hpow

section image
variable (h : RegularImage c mem ia info dest) (hc : CountedSections c mem ia info)
include h hc

/-- The addresses of the image as it is loaded. -/
theorem RegularImage.relocated_eq : (info.relocate dest).startAddr = dest.toNat ∧
    (info.relocate dest).sectionsAddr = dest.toNat + (info.sectionsAddr - info.startAddr) ∧
    (info.relocate dest).endAddr = dest.toNat + (info.endAddr - info.startAddr) := by
  have hstart := h.start_add_le
  have htable := h.table
  have hfits := h.fits
  have hend := hc.endAddr_lt
  exact ⟨relocate_startAddr hc.start_lt, wrap64_add_relocate (by omega) (by omega) (by omega),
    wrap64_add_relocate (by omega) (by omega) (by omega)⟩

/-- Its load comes to the optional copies in a regular memory. -/
theorem RegularImage.regularSections {s : Loader} (hs : s.mem = mem) :
    ∃ s₂, beforeTables c s ia (info.relocate dest) = some s₂ ∧
      RegularSections c mem s₂.mem ia (info.relocate dest) := by
  obtain ⟨hstart', hsections', hend'⟩ := h.relocated_eq hc
  have hstart := h.start_add_le
  have htable := h.table
  have hfits := h.fits
  have hpos : 0 < c.ehdrSize := by cases c <;> decide
  have hends : EndsBelow c mem ia info.endAddr :=
    fun i hi hl => Nat.le_trans (h.segments i hi hl) (by omega)
  obtain ⟨_, s₂, _, hbefore, hat⟩ :=
    h.formed.beforeTables hc.toHeadersAccepted hends (by omega) h.apart hs
  have hplaced := h.formed.placed hc.toHeadersAccepted hends
  rw [hc.phdrCount_eq] at hplaced
  have hdest : BitVec.ofNat 32 (info.relocate dest).startAddr = dest := by
    rw [hstart', BitVec.ofNat_toNat, BitVec.setWidth_eq]
  have hsame : Memory.Same s₂.mem dest mem ia.image c.ehdrSize := by
    obtain ⟨l, hl, hload, hpa, hoff, hhdr, hend⟩ := h.formed.lowest
    have hbytes : LinkedBytes c mem ia info.startAddr info.startAddr c.ehdrSize ia.image :=
      ⟨l, hl, hload, Nat.le_of_eq hpa, by omega, by rw [hoff, hpa, Nat.sub_self]; exact (BitVec.add_zero _).symm,
        .inl (by omega)⟩
    have hloaded := hat.same hplaced hbytes
    rw [Nat.sub_self] at hloaded
    rwa [show dest + BitVec.ofNat 32 0 = dest from BitVec.add_zero _] at hloaded
  have hehdr : readEhdr s₂.mem (BitVec.ofNat 32 (info.relocate dest).startAddr) c = fileEhdr c mem ia := by
    rw [hdest]
    exact readEhdr_congr hsame
  refine ⟨s₂, hbefore, hehdr, hc.shnum, h.record, ?_, ?_, ?_, ?_, ?_, ?_, h.rises⟩
  · unfold TableCopied
    dsimp only
    rw [hehdr, hdest, readInFull_toNat_iff]
    refine ⟨(headerIsValid_congr hsame).mpr hc.valid, ?_⟩
    unfold tableSize
    rw [Nat.mul_comm]
    exact hc.shdrs
  · exact hat.file hplaced (by omega) h.apart h.range
  · intro hin
    rw [hsections'] at hin
    have hsize : 0 < shdrsSize c mem ia := Nat.lt_of_le_of_lt (Nat.zero_le _) hin
    have hrange := h.range
    have hsz := ia.size.isLt
    refine h.apart _ ?_ (hin.of_offset hrange (by omega))
    unfold InSpan
    rw [BitVec.ofNat_add, BitVec.ofNat_toNat, BitVec.setWidth_eq, toNat_add_ofNat_sub _ (by omega)]
    omega
  · omega
  · omega
  · omega

end image

/-- The link addresses do not wrap, the relocation offset is a multiple of a power of two that is at least
the alignment of each section, and no read delivers more than its section. -/
structure AlignedSections (c : ElfClass) (mem : Memory 32) (ia : MemImageAccess) (info : ElfLoadInfo)
    (dest : BitVec 32) : Prop where
  table : info.sectionsAddr + shdrsSize c mem ia < 256 ^ c.addrSize
  rises : Rises c (fileShdr c mem ia) (info.sectionsAddr + shdrsSize c mem ia)
    (fileEhdr c mem ia).eShnum (256 ^ c.addrSize)
  align : ∀ i < (fileEhdr c mem ia).eShnum, (fileShdr c mem ia i).Unloaded →
    (fileShdr c mem ia i).shAddralign ≤ 4096 ∨ ∃ k, (fileShdr c mem ia i).shAddralign ≤ 2 ^ k ∧
      info.startAddr % 2 ^ k = dest.toNat % 2 ^ k
  reads : ∀ i < (fileEhdr c mem ia).eShnum, (fileShdr c mem ia i).Unloaded →
    sectionCount ia (fileShdr c mem ia i) ≤ (fileShdr c mem ia i).shSize

/-- Then the sections take the same space at run time. -/
theorem RegularImage.fit (h : RegularImage c mem ia info dest) (hc : CountedSections c mem ia info)
    (hdest : dest.toNat % 4096 = 0) (ha : AlignedSections c mem ia info dest) :
    SectionsFit c mem ia (info.relocate dest) := by
  have hlimit := two_pow_le c
  have htab : c.wrap (info.sectionsAddr + shdrsSize c mem ia) = info.sectionsAddr + shdrsSize c mem ia :=
    Nat.mod_eq_of_lt ha.table
  have hend := hc.finish
  rw [htab] at hend
  have hstart := h.start_add_le
  have htable := h.table
  obtain ⟨_, hsections', hend'⟩ := h.relocated_eq hc
  have hal : ∀ i < (fileEhdr c mem ia).eShnum, (fileShdr c mem ia i).Unloaded →
      ∃ k, (fileShdr c mem ia i).shAddralign ≤ 2 ^ k ∧
        info.startAddr % 2 ^ k = dest.toNat % 2 ^ k := by
    intro i hi hu
    rcases ha.align i hi hu with hpage | hk
    · exact ⟨12, hpage, hc.aligned.trans hdest.symm⟩
    · exact hk
  obtain ⟨hcursor, _⟩ := placements_shift ha.rises le_rfl h.rises hlimit
    (show (info.relocate dest).sectionsAddr + shdrsSize c mem ia + info.startAddr =
      info.sectionsAddr + shdrsSize c mem ia + dest.toNat by omega) hal le_rfl
  intro j _ hj _ hu b hb
  have hplace := h.rises.end_le_cursor hlimit hj hu
  have hread := ha.reads j hj hu
  omega

/-- The space and the places of the sections of an image that both functions take. From any memory the
copies are as they should be exactly if each round is begun in a state in which they have room. For a regular
image these are the memories in which its sections, placed at run time, end below the relocated end, and
they do so if their alignments divide the relocation offset, as those up to a page always do. -/
theorem sectionSpace_iff (s : Loader) (ia : MemImageAccess) (info : ElfLoadInfo) (fuel fuel' : ℕ)
    (dest : BitVec 32) (hh : info.copySectionHeaders = true) (hs : info.copySymbolTables = true)
    (hok : (elfGetLoadInfo s ia info fuel).2.2 = .monOk) (hdest : dest.toNat % 4096 = 0) :
    let r := elfGetLoadInfo s ia info fuel
    let c := r.2.1.machineType
    let info' := r.2.1.relocate dest
    (∀ s₂, beforeTables c r.1 ia info' = some s₂ →
      (SectionsPlaced c s₂.mem ia info' fuel' ↔ CopiesFit c s₂.mem ia info' fuel')) ∧
    (RegularImage c s.mem ia r.2.1 dest → (fileEhdr c s.mem ia).eShnum ≤ fuel' →
      ∃ s₂, beforeTables c r.1 ia info' = some s₂ ∧
        (CopiesFit c s₂.mem ia info' fuel' ↔ SectionsFit c s.mem ia info') ∧
        (SectionsFit c s.mem ia info' → PlacesNamed c s₂.mem ia info' fuel') ∧
        (AlignedSections c s.mem ia r.2.1 dest → SectionsFit c s.mem ia info')) := by
  intro r c info'
  obtain ⟨c', hc, hmem⟩ := counted_of_elfGetLoadInfo hh hs hok
  obtain rfl : c' = c := hc.machineType.symm
  refine ⟨fun s₂ _ => sectionsPlaced_iff hc.headers hc.symbols, fun himage hfuel => ?_⟩
  obtain ⟨s₂, hbefore, hreg⟩ := himage.regularSections hc hmem
  exact ⟨s₂, hbefore, hreg.copiesFit_iff hfuel, hreg.placesNamed hc.headers hc.symbols hfuel,
    himage.fit hc hdest⟩

/-- The headers of `tinyElf32`, linked at 4 KB, and that of a section of 16 bytes that no segment brings. -/
def sectionElf32 (align : BitVec 16) : List (BitVec 8) :=
  ((tinyElf32.set 0x20 0x54).set 0x30 1).set 0x41 0x10 ++
    (((List.replicate 40 0).set 0x14 0x10).set 0x20 (align.setWidth 8)).set 0x21 ((align >>> 8).setWidth 8)

/-- Both copies are asked for. -/
def bothTables : ElfLoadInfo :=
  { ElfLoadInfo.cleared with copySectionHeaders := true, copySymbolTables := true }

/-- Where that image is linked, for a section that ends at `finish`. -/
def sectionInfo (finish : ℕ) : ElfLoadInfo :=
  { bothTables with startAddr := 0x1000, endAddr := finish, entryAddr := 0x34, sectionsAddr := 0x1060 }

theorem regular_sectionElf32 {align : BitVec 16} {finish : ℕ}
    (h : (align, finish) = (0x10, 0x10a0) ∨ (align, finish) = (0x2000, 0x2010)) :
    RegularImage .elfclass32 (Memory.ofBytes 0x100000 (sectionElf32 align)) ⟨0x100000, 0x7c⟩
      (sectionInfo finish) 0x200000 := by
  have hdisjoint : ∀ n : ℕ, n = 1 → ∀ i < n, ∀ j < n, i ≠ j → False := by
    intro n hn i hi j hj hne
    omega
  rcases h with h | h <;>
  · obtain ⟨rfl, rfl⟩ := Prod.mk.inj h
    refine ⟨⟨⟨⟨by decide +kernel, 0, by decide +kernel⟩, fun i hi j hj hne => ?_, by decide +kernel,
      by decide +kernel, by decide +kernel⟩, by decide +kernel, by decide +kernel⟩, by decide +kernel,
      by decide +kernel, by unfold EndsBelow; decide +kernel, by decide +kernel, by decide +kernel,
      by decide, ?_⟩
    · exact absurd (hdisjoint _ (by decide +kernel) i hi j hj hne) id
    · exact (apart_of_le (by decide) (by decide)).symm

/-- A section of 16 bytes that is aligned to 16: its place is counted in. -/
theorem sectionSpace_iff_elf32 :
    let s : Loader := ⟨Memory.ofBytes 0x100000 (sectionElf32 0x10), []⟩
    let ia : MemImageAccess := ⟨0x100000, 0x7c⟩
    let info := (sectionInfo 0x10a0).relocate 0x200000
    ∃ s₂, beforeTables .elfclass32 (elfGetLoadInfo s ia bothTables 1).1 ia info = some s₂ ∧
      SectionsPlaced .elfclass32 s₂.mem ia info 1 ∧ PlacesNamed .elfclass32 s₂.mem ia info 1 := by
  intro s ia info
  have hinfo : (elfGetLoadInfo s ia bothTables 1).2 = (sectionInfo 0x10a0, .monOk) := by decide +kernel
  have haligned : AlignedSections .elfclass32 s.mem ia (sectionInfo 0x10a0) 0x200000 :=
    ⟨by decide +kernel, by decide +kernel, fun i hi hu => .inl (by revert i; decide +kernel),
      by decide +kernel⟩
  have hspace := sectionSpace_iff s ia bothTables 1 1 0x200000 rfl rfl (congrArg Prod.snd hinfo) rfl
  dsimp only at hspace
  rw [hinfo] at hspace
  obtain ⟨hiff, hregular⟩ := hspace
  obtain ⟨s₂, hs₂, hfit, hnamed, hal⟩ := hregular (regular_sectionElf32 (.inl rfl)) (by decide +kernel)
  exact ⟨s₂, hs₂, (hiff s₂ hs₂).mpr (hfit.mpr (hal haligned)), hnamed (hal haligned)⟩

/-- The space for a section that is aligned to 8 KB does not move with the image. -/
theorem sectionSpace_wide :
    let s : Loader := ⟨Memory.ofBytes 0x100000 (sectionElf32 0x2000), []⟩
    let ia : MemImageAccess := ⟨0x100000, 0x7c⟩
    let info := (sectionInfo 0x2010).relocate 0x200000
    let r := elfGetLoadInfo s ia bothTables 1
    r.2 = (sectionInfo 0x2010, .monOk) ∧
      (elfLoadExecutable r.1 ia (sectionInfo 0x2010) 0x200000 1).2.2 = .monOk ∧
      ∃ s₂, beforeTables .elfclass32 r.1 ia info = some s₂ ∧
        ¬ SectionsPlaced .elfclass32 s₂.mem ia info 1 := by
  intro s ia info r
  have hinfo : r.2 = (sectionInfo 0x2010, .monOk) := by decide +kernel
  have hok : r.2.2 = .monOk := congrArg Prod.snd hinfo
  obtain ⟨c, hc, hmem⟩ := counted_of_elfGetLoadInfo rfl rfl hok
  change CountedSections c s.mem ia r.2.1 at hc
  rw [hinfo] at hc
  obtain rfl : .elfclass32 = c := hc.machineType
  obtain ⟨s₂, hs₂, hreg⟩ := (regular_sectionElf32 (.inr rfl)).regularSections hc hmem
  refine ⟨hinfo, by decide +kernel, s₂, hs₂, fun hplaced => ?_⟩
  have hcopies := (sectionsPlaced_iff rfl rfl).mp hplaced
  have hfit := (hreg.copiesFit_iff (by decide +kernel)).mp hcopies
  have hfirst : placeOf .elfclass32 (fileShdr .elfclass32 s.mem ia)
      (info.sectionsAddr + shdrsSize .elfclass32 s.mem ia) 0 + 0 < info.endAddr :=
    hfit 0 le_rfl (by decide +kernel) (fun k _ hk => absurd hk (Nat.not_lt_zero k)) (by decide +kernel) 0
      (by decide +kernel)
  exact absurd hfirst (by decide +kernel)

end IkgtLoader.Ld
