import IkgtLoader.Ld.Rebase

/-! Whether a load depends on the base its image was linked at. The tables of the dynamic
section are found for the base 0 modulo `2^32` only; from there on both runs agree. -/
namespace IkgtLoader.Ld
open Flat Loop

/-- One image linked at base 0 and at base `shift`, to be loaded at `dest`. -/
structure TwoLinks (c : ElfClass) (shift : ℕ) (mem mem' : Memory 32) (ia : MemImageAccess)
    (dest : BitVec 32) (info info' : ElfLoadInfo) (l : ℕ) : Prop where
  accepted : (elfGetLoadInfo ⟨mem, []⟩ ia ElfLoadInfo.cleared 0).2 = (info, .monOk)
  accepted' : (elfGetLoadInfo ⟨mem', []⟩ ia ElfLoadInfo.cleared 0).2 = (info', .monOk)
  machine : info.machineType = c
  machine' : info'.machineType = c
  base : info.startAddr = 0
  base' : info'.startAddr = shift
  linked : Linked c mem ia 0
  linked' : Linked c mem' ia shift
  fits : info.endAddr ≤ 2 ^ 32
  fits' : info'.endAddr - shift ≤ 2 ^ 32
  apart : Apart dest info.endAddr ia.image ia.size.toNat
  apart' : Apart dest (info'.endAddr - shift) ia.image ia.size.toNat
  dynamic : DynamicAt c mem ia l
  rebased : Rebased c shift mem mem' ia l
  rela : c = .elfclass64 → ∀ rela symtab,
    dynLast c mem (fileDynamic c mem ia l) DT_RELA (dynCount c mem ia l) = some rela →
    dynLast c mem (fileDynamic c mem ia l) DT_SYMTAB (dynCount c mem ia l) = some symtab →
    ∃ p q, RebasedRela shift mem mem' ia rela symtab (entryCount
      (scanDynamic c mem dest.toNat (fileDynamic c mem ia l) (dynCount c mem ia l)).relaSz
      (scanDynamic c mem dest.toNat (fileDynamic c mem ia l) (dynCount c mem ia l)).relaEntsz) p q

/-- Two loads with one status, one entry point and one value in every relocated word. -/
def SameLoad (mem mem' : Memory 32) (ia : MemImageAccess) (dest : BitVec 32) : Prop :=
  (loadElfImage ⟨mem, []⟩ ia.image dest ia.size).2 =
      (loadElfImage ⟨mem', []⟩ ia.image dest ia.size).2 ∧
    SameWords (loadElfImage ⟨mem, []⟩ ia.image dest ia.size).1
      (loadElfImage ⟨mem', []⟩ ia.image dest ia.size).1

/-- A load after the headers have been accepted. -/
theorem loadElfImage_eq {c : ElfClass} {s : Loader} {ia : MemImageAccess} {info : ElfLoadInfo}
    (hok : (elfGetLoadInfo s ia ElfLoadInfo.cleared 0).2 = (info, .monOk))
    (hc : info.machineType = c) (dest : BitVec 32) :
    (loadElfImage s ia.image dest ia.size).1 = (loadExecutable c
        (elfGetLoadInfo s ia ElfLoadInfo.cleared 0).1 ia (info.relocate dest) 0).1 ∧
      (loadElfImage s ia.image dest ia.size).2 = if (loadExecutable c
        (elfGetLoadInfo s ia ElfLoadInfo.cleared 0).1 ia (info.relocate dest) 0).2 = .monOk then
          some (info.relocate dest).entryAddr else none := by
  have hmt : (info.relocate dest).machineType = c := hc
  unfold loadElfImage
  dsimp only
  generalize elfGetLoadInfo s ia ElfLoadInfo.cleared 0 = r at hok ⊢
  obtain ⟨t, info₁, status⟩ := r
  cases hok
  have hrun : elfLoadExecutable t ia info dest 0 =
      ((loadExecutable c t ia (info.relocate dest) 0).1, info.relocate dest,
        (loadExecutable c t ia (info.relocate dest) 0).2) := by
    unfold elfLoadExecutable
    dsimp only
    rw [hmt]
    cases c <;> rfl
  dsimp only
  rw [if_neg (not_not.mpr rfl)]
  change (if (elfLoadExecutable t ia info dest 0).2.2 ≠ .monOk then
      ((elfLoadExecutable t ia info dest 0).1, none)
    else ((elfLoadExecutable t ia info dest 0).1,
      some (elfLoadExecutable t ia info dest 0).2.1.entryAddr) : Loader × Option ℕ).1 = _ ∧
    (if (elfLoadExecutable t ia info dest 0).2.2 ≠ .monOk then
      ((elfLoadExecutable t ia info dest 0).1, none)
    else ((elfLoadExecutable t ia info dest 0).1,
      some (elfLoadExecutable t ia info dest 0).2.1.entryAddr) : Loader × Option ℕ).2 = _
  rw [hrun]
  by_cases hst : (loadExecutable c t ia (info.relocate dest) 0).2 = .monOk
  · rw [if_neg (not_not.mpr hst), if_pos hst]
    exact ⟨rfl, rfl⟩
  · rw [if_pos hst, if_neg hst]
    exact ⟨rfl, rfl⟩

section twoLinks
variable {c : ElfClass} {shift : ℕ} {mem mem' : Memory 32} {ia : MemImageAccess}
  {dest : BitVec 32} {info info' : ElfLoadInfo} {l : ℕ}

/-- What `elf_get_load_info` has found when it accepts an image. -/
theorem accepted_of_cleared (hok : (elfGetLoadInfo ⟨mem, []⟩ ia ElfLoadInfo.cleared 0).2 =
    (info, .monOk)) (hc : info.machineType = c) : Accepted c mem ia info ∧
      (elfGetLoadInfo ⟨mem, []⟩ ia ElfLoadInfo.cleared 0).1.mem = mem ∧
      NoTarget (elfGetLoadInfo ⟨mem, []⟩ ia ElfLoadInfo.cleared 0).1 := by
  have h0 : NoTarget ⟨mem, []⟩ := fun _ _ _ => List.not_mem_nil
  have hno := h0.silent (silent_elfGetLoadInfo ⟨mem, []⟩ ia ElfLoadInfo.cleared 0)
  have hst : (elfGetLoadInfo ⟨mem, []⟩ ia ElfLoadInfo.cleared 0).2.2 = .monOk := by rw [hok]
  obtain ⟨c', ha, hm⟩ := accepted_of_elfGetLoadInfo rfl rfl hst
  rw [hok] at ha
  have hcc : c' = c := ha.machineType.symm.trans hc
  subst hcc
  exact ⟨ha, hm, hno⟩

/-- The dynamic section as the relocation reads it is the one in the file. -/
theorem dynEntry_loaded {start r window : ℕ} {m : Memory 32}
    (hat : LoadedAt c mem ia start dest r m)
    (hp : Placed (filePhdr c mem ia) (fileEhdr c mem ia).ePhnum start window ia.size.toNat)
    (hw : window ≤ 2 ^ 32) (hap : Apart dest window ia.image ia.size.toNat)
    (hd : DynamicAt c mem ia l) {k : ℕ} (hk : k < dynCount c mem ia l) :
    dynEntry c m (fileDynamic c mem ia l) k = dynEntry c mem (fileDynamic c mem ia l) k := by
  have hsame := hat.file hp hw hap hd.range
  have hpos : 0 < 2 * c.addrSize := by cases c <;> decide
  have hle : (k + 1) * (2 * c.addrSize) ≤ (filePhdr c mem ia l).pFilesz :=
    le_trans (Nat.mul_le_mul_right _ hk) (Nat.div_mul_le_self _ _)
  rw [Nat.succ_mul] at hle
  have hent : Memory.Same m (tableEntry (fileDynamic c mem ia l) k (2 * c.addrSize)) mem
      (tableEntry (fileDynamic c mem ia l) k (2 * c.addrSize)) (2 * c.addrSize) :=
    hsame.offset (by omega)
  unfold dynEntry
  dsimp only
  rw [field_congr hent (show 0 + c.addrSize ≤ 2 * c.addrSize by omega),
    field_congr hent (show c.addrSize + c.addrSize ≤ 2 * c.addrSize by omega)]

theorem DynamicAt.rebase (hd : DynamicAt c mem ia l) (h : Rebased c shift mem mem' ia l) :
    DynamicAt c mem' ia l := by
  have hn : (fileEhdr c mem' ia).ePhnum = (fileEhdr c mem ia).ePhnum := by rw [h.ehdr]
  constructor
  · rw [hn]
    exact hd.index
  · rw [h.phdr l hd.index]
    exact hd.type
  · intro i hi hlt
    rw [hn] at hlt
    rw [h.phdr i hlt]
    exact hd.last i hi hlt
  · rw [h.phdr l hd.index]
    exact hd.range

/-- A shift that a 32-bit address field can hold and that is 0 modulo `2^32` is no shift. -/
theorem TwoLinks.shift_eq_zero (h : TwoLinks .elfclass32 shift mem mem' ia dest info info' l)
    (hs : shift % 2 ^ 32 = 0) : shift = 0 := by
  obtain ⟨i, _, _, hp, _⟩ := h.linked'.lowest
  have hlt : (filePhdr .elfclass32 mem' ia i).pPaddr < 256 ^ 4 := pPaddr_lt _ _ .elfclass32
  omega

theorem SameLoad.refl (mem : Memory 32) (ia : MemImageAccess) (dest : BitVec 32) :
    SameLoad mem mem ia dest := ⟨rfl, fun _ _ _ _ _ _ => rfl⟩

/-- The entry points of the two links are the same address. -/
theorem TwoLinks.entry_eq (h : TwoLinks .elfclass64 shift mem mem' ia dest info info' l)
    (ha : Accepted .elfclass64 mem ia info) (ha' : Accepted .elfclass64 mem' ia info')
    (hoff : wrap64 (shift + (info'.relocate dest).relocationOffset) =
      wrap64 (info.relocate dest).relocationOffset) :
    (info.relocate dest).entryAddr = (info'.relocate dest).entryAddr := by
  rw [relocate_entryAddr ha, relocate_entryAddr ha', h.rebased.ehdr]
  change _ = wrap64 ((_ + shift) % 2 ^ 64 + _)
  unfold wrap64 at *
  omega

theorem TwoLinks.sameLoad (h : TwoLinks c shift mem mem' ia dest info info' l)
    (hcond : (c = .elfclass64 ∧ shift % 2 ^ 32 = 0) ∨
      NoTables c mem (fileDynamic c mem ia l) (dynCount c mem ia l)) :
    SameLoad mem mem' ia dest := by
  obtain ⟨ha, hm, hno⟩ := accepted_of_cleared h.accepted h.machine
  obtain ⟨ha', hm', hno'⟩ := accepted_of_cleared h.accepted' h.machine'
  have hd' := h.dynamic.rebase h.rebased
  have hl : Linked c mem ia info.startAddr := by rw [h.base]; exact h.linked
  have hl' : Linked c mem' ia info'.startAddr := by rw [h.base']; exact h.linked'
  have hfit : info.endAddr - info.startAddr ≤ 2 ^ 32 := by rw [h.base]; exact h.fits
  have hfit' : info'.endAddr - info'.startAddr ≤ 2 ^ 32 := by rw [h.base']; exact h.fits'
  have hap : Apart dest (info.endAddr - info.startAddr) ia.image ia.size.toNat := by
    rw [h.base]
    exact h.apart
  have hap' : Apart dest (info'.endAddr - info'.startAddr) ia.image ia.size.toNat := by
    rw [h.base']
    exact h.apart'
  obtain ⟨t, htno, hat, hrun⟩ := hl.dynamicRun ha hfit hap h.dynamic hm hno 0
  obtain ⟨t', htno', hat', hrun'⟩ := hl'.dynamicRun ha' hfit' hap' hd' hm' hno' 0
  have hpl := hl.placed ha.toHeadersAccepted (hl.endsBelow ha)
  have hpl' := hl'.placed ha'.toHeadersAccepted (hl'.endsBelow ha')
  rw [ha.phdrCount_eq] at hpl
  rw [ha'.phdrCount_eq] at hpl'
  have hfile := fun k hk => dynEntry_loaded (k := k) hat hpl hfit hap h.dynamic hk
  have hfile' := fun k hk => dynEntry_loaded (k := k) hat' hpl' hfit' hap' hd' hk
  have hph := h.rebased.phdr l h.dynamic.index
  have hD : fileDynamic c mem' ia l = fileDynamic c mem ia l := by
    unfold fileDynamic
    rw [hph]
  have hN : dynCount c mem' ia l = dynCount c mem ia l := by
    unfold dynCount
    rw [hph]
  rw [hD, hN] at hfile'
  obtain ⟨h1, h2⟩ := loadElfImage_eq h.accepted h.machine dest
  obtain ⟨h1', h2'⟩ := loadElfImage_eq h.accepted' h.machine' dest
  rw [hrun] at h1 h2
  rw [hrun'] at h1' h2'
  unfold SameLoad
  rw [h1, h2, h1', h2']
  rcases hcond with ⟨rfl, hshift⟩ | hnot
  · have hlt : shift < 2 ^ 64 := by
      rw [← h.base']
      exact ha'.start_lt
    have hoff : wrap64 (shift + (info'.relocate dest).relocationOffset) =
        wrap64 (info.relocate dest).relocationOffset := by
      unfold ElfLoadInfo.relocate wrap64
      dsimp only
      rw [h.base, h.base']
      omega
    have hscan : ∀ k < dynCount .elfclass64 mem ia l, SameEntry .elfclass64 dest.toNat
        (dynEntry .elfclass64 t.mem (fileDynamic .elfclass64 mem ia l) k)
        (dynEntry .elfclass64 t'.mem (fileDynamic .elfclass64 mem ia l) k) := by
      intro k hk
      rw [hfile k hk, hfile' k hk]
      refine ⟨h.rebased.tag k hk, fun hp => ?_, h.rebased.value k hk⟩
      rw [h.rebased.pointer k hk hp]
      change BitVec.ofNat 32 ((_ + shift) % 2 ^ 64 + _) = _
      apply BitVec.eq_of_toNat_eq
      rw [BitVec.toNat_ofNat, BitVec.toNat_ofNat]
      omega
    have hinfo : (info.relocate dest).relocationOffset = wrap64 (dest.toNat + (2 ^ 64 - 0)) := by
      rw [← h.base]
      rfl
    have htab : ∀ rela symtab,
        dynLast .elfclass64 t.mem (fileDynamic .elfclass64 mem ia l) DT_RELA
          (dynCount .elfclass64 mem ia l) = some rela →
        dynLast .elfclass64 t.mem (fileDynamic .elfclass64 mem ia l) DT_SYMTAB
          (dynCount .elfclass64 mem ia l) = some symtab →
        ∃ T, RelaAt shift (info.relocate dest).relocationOffset t.mem t'.mem T
          (dest + BitVec.ofNat 32 rela) (dest + BitVec.ofNat 32 symtab) (entryCount
            (scanDynamic .elfclass64 t.mem dest.toNat (fileDynamic .elfclass64 mem ia l)
              (dynCount .elfclass64 mem ia l)).relaSz
            (scanDynamic .elfclass64 t.mem dest.toNat (fileDynamic .elfclass64 mem ia l)
              (dynCount .elfclass64 mem ia l)).relaEntsz) := by
      intro rela symtab h1 h2
      rw [dynLast_of_same hfile] at h1 h2
      rw [scanDynamic_of_same hfile]
      obtain ⟨p, q, hpq⟩ := h.rela rfl rela symtab h1 h2
      rw [hinfo]
      rw [h.base] at hat hpl
      rw [h.base'] at hat' hpl'
      rw [hinfo] at hat
      exact ⟨_, hpq.relaAt h.rebased hat hat' hpl hpl' h.fits⟩
    have ho : (filePhdr .elfclass64 mem' ia l).pOffset = (filePhdr .elfclass64 mem ia l).pOffset := by
      rw [hph]
    have hf : (filePhdr .elfclass64 mem' ia l).pFilesz = (filePhdr .elfclass64 mem ia l).pFilesz := by
      rw [hph]
    obtain ⟨hst, hwords⟩ := relocation_agree htno htno' h.dynamic.range ho hf
      (relocate_startAddr ha.start_lt) (relocate_startAddr ha'.start_lt) hoff rfl
      (scanDynamic_congr hscan) htab
    refine ⟨?_, hwords⟩
    change (if (elf64DoRelocation _ _ _ _).2 = _ then _ else _) =
      if (elf64DoRelocation _ _ _ _).2 = _ then _ else _
    rw [hst, h.entry_eq ha ha' hoff]
  · have hA : NoTables c t.mem (fileDynamic c mem ia l) (dynCount c mem ia l) := fun tag ht =>
      (dynLast_congr fun k hk => by rw [hfile k hk]).mpr (hnot tag ht)
    have hB : NoTables c t'.mem (fileDynamic c mem ia l) (dynCount c mem ia l) := fun tag ht =>
      (dynLast_congr fun k hk => by rw [hfile' k hk, h.rebased.tag k hk]).mpr (hnot tag ht)
    obtain ⟨u, hu, hru⟩ := doRelocation_noTables h.dynamic.range t hA
    have hr' := hd'.range
    rw [hph] at hr' ⊢
    obtain ⟨u', hu', hru'⟩ := doRelocation_noTables hr' t' hB
    rw [hru, hru']
    exact ⟨rfl, sameWords_of_noTarget (htno.silent hu) (htno'.silent hu')⟩

end twoLinks

/-- The tables are found, and a link base has no effect, exactly if the lowest address is 0
modulo `2^32` or no table is named. -/
theorem link_base_independent (c : ElfClass) (ia : MemImageAccess) (dest : BitVec 32) :
    (∀ (mem : Memory 32) (info : ElfLoadInfo) (m : Memory 32) (dynSection : BitVec 32) (n : ℕ),
      (elfGetLoadInfo ⟨mem, []⟩ ia ElfLoadInfo.cleared 0).2 = (info, .monOk) →
      info.machineType = c →
      (TablesRight c m dynSection n info dest ↔
        info.startAddr % 2 ^ 32 = 0 ∨ NoTables c m dynSection n)) ∧
    (∀ (shift : ℕ) (mem mem' : Memory 32) (info info' : ElfLoadInfo) (l : ℕ), TwoLinks c shift mem mem' ia dest info info' l →
      ((TablesRight c mem (fileDynamic c mem ia l) (dynCount c mem ia l) info dest ∧
        TablesRight c mem' (fileDynamic c mem ia l) (dynCount c mem ia l) info' dest ∧
        SameLoad mem mem' ia dest) ↔
          shift % 2 ^ 32 = 0 ∨
            NoTables c mem (fileDynamic c mem ia l) (dynCount c mem ia l))) := by
  constructor
  · intro mem info m dynSection n hok hc
    exact tablesRight_iff c m dynSection n dest (accepted_of_cleared hok hc).1.start_lt
  · intro shift mem mem' info info' l h
    have hlt := (accepted_of_cleared h.accepted h.machine).1.start_lt
    have hlt' := (accepted_of_cleared h.accepted' h.machine').1.start_lt
    have hno : NoTables c mem' (fileDynamic c mem ia l) (dynCount c mem ia l) ↔
        NoTables c mem (fileDynamic c mem ia l) (dynCount c mem ia l) :=
      forall₂_congr fun _ _ => dynLast_congr h.rebased.tag
    rw [tablesRight_iff c mem _ _ dest hlt, tablesRight_iff c mem' _ _ dest hlt', hno, h.base']
    constructor
    · exact fun ht => ht.2.1
    · intro hcond
      refine ⟨.inl (by rw [h.base, Nat.zero_mod]), hcond, ?_⟩
      rcases hcond with hs | hnot
      · cases c with
        | elfclass32 =>
          rw [h.rebased.same (h.shift_eq_zero hs)]
          exact .refl mem ia dest
        | elfclass64 => exact h.sameLoad (.inl ⟨rfl, hs⟩)
      · exact h.sameLoad (.inr hnot)

/-- An ELF64 executable linked at `base`: the headers, a dynamic section, a RELA table of one
entry, a symbol and the word that the entry relocates. -/
def dynElf64 (base : ℕ) : List (BitVec 8) :=
  [0x7f, 0x45, 0x4c, 0x46, 2, 1, 1, 0, 0, 0, 0, 0, 0, 0, 0, 0] ++
  [(2, 3), (2, 62), (4, 1), (8, base), (8, 64), (8, 0), (4, 0), (2, 64), (2, 56), (2, 2), (2, 64),
    (2, 0), (2, 0),
    (4, 1), (4, 7), (8, 0), (8, base), (8, base), (8, 312), (8, 312), (8, 0),
    (4, 2), (4, 6), (8, 176), (8, base + 176), (8, base + 176), (8, 80), (8, 80), (8, 0),
    (8, 7), (8, base + 256), (8, 8), (8, 24), (8, 9), (8, 24), (8, 6), (8, base + 280), (8, 11),
    (8, 24),
    (8, base + 304), (8, 8), (8, base + 304),
    (4, 0), (4, 0), (8, base + 304), (8, 0),
    (8, 0)].flatMap fun f => Memory.littleEndian f.1 f.2

/-- What is found in that executable. -/
def dynElf64Info (base : ℕ) : ElfLoadInfo :=
  ⟨.elfclass64, base, base + 312, base, 0, 0, false, false⟩

theorem linked_dynElf64 {base : ℕ} (h0 : ∀ i < (fileEhdr .elfclass64 (Memory.ofBytes 0x1000 (dynElf64 base))
      ⟨0x1000, 312⟩).ePhnum,
    (filePhdr .elfclass64 (Memory.ofBytes 0x1000 (dynElf64 base)) ⟨0x1000, 312⟩ i).Loadable → i = 0)
    (hrest : let mem := Memory.ofBytes 0x1000 (dynElf64 base)
      let ph := filePhdr .elfclass64 mem ⟨0x1000, 312⟩ 0
      (fileEhdr .elfclass64 mem ⟨0x1000, 312⟩).ePhentsize = 56 ∧
      0 < (fileEhdr .elfclass64 mem ⟨0x1000, 312⟩).ePhnum ∧ ph.Loadable ∧
      ph.pPaddr = base ∧ ph.pPaddr + ph.pMemsz < 256 ^ 8 ∧ ph.pMemsz < 2 ^ 32 ∧ ph.pOffset = 0 ∧
      ph.pOffset + ph.loadFilesz ≤ 312 ∧ 64 ≤ (fileEhdr .elfclass64 mem ⟨0x1000, 312⟩).ePhoff ∧
      (fileEhdr .elfclass64 mem ⟨0x1000, 312⟩).ePhoff +
        (fileEhdr .elfclass64 mem ⟨0x1000, 312⟩).ePhnum * 56 ≤ ph.loadFilesz) :
    Linked .elfclass64 (Memory.ofBytes 0x1000 (dynElf64 base)) ⟨0x1000, 312⟩ base := by
  obtain ⟨hent, hpos, hl, hp, hbelow, hsmall, ho, hrange, hoff, htab⟩ := hrest
  constructor
  · exact ⟨hent, 0, hpos, hl, hp, ho, hoff, htab⟩
  · intro i hi j hj hne hli hlj
    exact absurd ((h0 i hi hli).trans (h0 j hj hlj).symm) hne
  · intro i hi hli
    rw [h0 i hi hli]
    exact hbelow
  · intro i hi hli
    rw [h0 i hi hli]
    exact hsmall
  · intro i hi hli
    rw [h0 i hi hli]
    exact hrange

theorem twoLinks_dynElf64 : TwoLinks .elfclass64 (2 ^ 32) (Memory.ofBytes 0x1000 (dynElf64 0))
    (Memory.ofBytes 0x1000 (dynElf64 (2 ^ 32))) ⟨0x1000, 312⟩ 0x2000 (dynElf64Info 0)
    (dynElf64Info (2 ^ 32)) 1 where
  accepted := by decide +kernel
  accepted' := by decide +kernel
  machine := rfl
  machine' := rfl
  base := rfl
  base' := rfl
  linked := linked_dynElf64 (by decide +kernel) (by decide +kernel)
  linked' := linked_dynElf64 (by decide +kernel) (by decide +kernel)
  fits := by decide
  fits' := by decide
  apart := (apart_of_le (by decide) (by decide)).symm
  apart' := (apart_of_le (by decide) (by decide)).symm
  dynamic := by
    have hn : (fileEhdr .elfclass64 (Memory.ofBytes 0x1000 (dynElf64 0)) ⟨0x1000, 312⟩).ePhnum = 2 := by
      decide +kernel
    refine ⟨by decide +kernel, by decide +kernel, fun i h1 h2 => ?_, by decide +kernel⟩
    omega
  rebased := by
    refine ⟨fun h => absurd h (by decide), ?_, ?_, by decide +kernel, by decide +kernel,
      by decide +kernel⟩
    · unfold fileEhdr readEhdr
      simp only [Ehdr.mk.injEq]
      decide +kernel
    · unfold filePhdr readPhdr
      simp only [Phdr.mk.injEq]
      decide +kernel
  rela := by
    intro _ rela symtab h1 h2
    have hr : rela = 256 := Option.some.inj (h1.symm.trans (by decide +kernel))
    have hs : symtab = 280 := Option.some.inj (h2.symm.trans (by decide +kernel))
    subst hr hs
    refine ⟨fun i => 0x1000 + BitVec.ofNat 32 (256 + i * 24), fun _ => 0x1000 + 280, ?_⟩
    have hc : entryCount (scanDynamic .elfclass64 (Memory.ofBytes 0x1000 (dynElf64 0)) 0x2000
        (fileDynamic .elfclass64 (Memory.ofBytes 0x1000 (dynElf64 0)) ⟨0x1000, 312⟩ 1)
        (dynCount .elfclass64 (Memory.ofBytes 0x1000 (dynElf64 0)) ⟨0x1000, 312⟩ 1)).relaSz
      (scanDynamic .elfclass64 (Memory.ofBytes 0x1000 (dynElf64 0)) 0x2000
        (fileDynamic .elfclass64 (Memory.ofBytes 0x1000 (dynElf64 0)) ⟨0x1000, 312⟩ 1)
        (dynCount .elfclass64 (Memory.ofBytes 0x1000 (dynElf64 0)) ⟨0x1000, 312⟩ 1)).relaEntsz = 1 := by
      decide +kernel
    change RebasedRela _ _ _ _ _ _ (entryCount (scanDynamic _ _ 0x2000 _ _).relaSz
      (scanDynamic _ _ 0x2000 _ _).relaEntsz) _ _
    rw [hc]
    constructor
    · intro i hi
      obtain rfl : i = 0 := by omega
      exact ⟨0, by decide +kernel⟩
    · decide +kernel
    · decide +kernel
    · decide +kernel
    · decide +kernel
    · intro i hi hty
      obtain rfl : i = 0 := by omega
      exact absurd hty (by decide +kernel)
    · decide +kernel

/-- The executable linked at `2^32` is loaded as the one linked at 0. -/
theorem link_base_independent_dynElf64 :
    SameLoad (Memory.ofBytes 0x1000 (dynElf64 0)) (Memory.ofBytes 0x1000 (dynElf64 (2 ^ 32))) ⟨0x1000, 312⟩
      0x2000 :=
  (((link_base_independent .elfclass64 _ _).2 (2 ^ 32) _ _ _ _ 1 twoLinks_dynElf64).mpr
    (.inl (by decide))).2.2

/-- Linked at `0x1000` it is accepted, but its tables are looked for `0x1000` bytes above their
loaded copies. -/
theorem dynElf64_tables_lost :
    (elfGetLoadInfo ⟨Memory.ofBytes 0x1000 (dynElf64 0x1000), []⟩ ⟨0x1000, 312⟩ ElfLoadInfo.cleared 0).2 =
        (dynElf64Info 0x1000, .monOk) ∧
      ¬ TablesRight .elfclass64 (Memory.ofBytes 0x1000 (dynElf64 0x1000)) (0x1000 + 176) 5
        (dynElf64Info 0x1000) 0x2000 := by
  constructor
  · decide +kernel
  · intro hright
    have hlt : (dynElf64Info 0x1000).startAddr < 2 ^ 64 := by decide
    rcases (tablesRight_iff _ _ _ _ _ hlt).mp hright with h | h
    · exact absurd h (by decide)
    · exact absurd (h DT_RELA (by decide)) (by decide +kernel)

end IkgtLoader.Ld
