import IkgtLoader.Ld.Load

/-! What `elf_get_load_info` has checked and computed when it accepts an image without the
optional tables. -/
namespace IkgtLoader.Ld
open Flat

/-- The ELF header in the file. -/
def fileEhdr (c : ElfClass) (mem : Memory 32) (ia : MemImageAccess) : Ehdr := readEhdr mem ia.image c

/-- The table of program headers in the file. -/
def filePhdrtab (c : ElfClass) (mem : Memory 32) (ia : MemImageAccess) : BitVec 32 :=
  ia.image + BitVec.ofNat 32 (fileEhdr c mem ia).ePhoff

/-- A program header in the file. -/
def filePhdr (c : ElfClass) (mem : Memory 32) (ia : MemImageAccess) (i : ℕ) : Phdr :=
  readPhdr mem (tableEntry (filePhdrtab c mem ia) i (fileEhdr c mem ia).ePhentsize) c

/-- Rounds of the loops over program headers. -/
def phdrCount (c : ElfClass) (mem : Memory 32) (ia : MemImageAccess) : ℕ :=
  int16Bound (fileEhdr c mem ia).ePhnum

/-- `(low_addr, max_addr)` after the program headers below `n`. -/
def sizes (c : ElfClass) (ph : ℕ → Phdr) : ℕ → ℕ × ℕ
  | 0 => (256 ^ c.addrSize - 1, 0)
  | i + 1 => sizeStep c (sizes c ph i) (ph i)

section sizes
variable {c : ElfClass} {ph : ℕ → Phdr} {n : ℕ}

theorem sizes_le {i : ℕ} (hi : i < n) (h : (ph i).Loadable) :
    (sizes c ph n).1 ≤ (ph i).pPaddr ∧
      c.wrap ((ph i).pPaddr + (ph i).pMemsz) ≤ (sizes c ph n).2 := by
  induction n with
  | zero => omega
  | succ n ih =>
    have hs : sizes c ph (n + 1) = sizeStep c (sizes c ph n) (ph n) := rfl
    rw [hs]
    unfold sizeStep
    rcases Nat.lt_succ_iff_lt_or_eq.mp hi with hlt | rfl
    · obtain ⟨h1, h2⟩ := ih hlt
      split
      · dsimp only
        constructor <;> split <;> omega
      · exact ⟨h1, h2⟩
    · rw [if_pos h]
      dsimp only
      constructor <;> split <;> omega

/-- The low address is the one it started from or that of a segment. -/
theorem sizes_low (c : ElfClass) (ph : ℕ → Phdr) (n : ℕ) :
    (sizes c ph n).1 = 256 ^ c.addrSize - 1 ∨
      ∃ i < n, (ph i).Loadable ∧ (sizes c ph n).1 = (ph i).pPaddr := by
  induction n with
  | zero => exact .inl rfl
  | succ n ih =>
    have hs : sizes c ph (n + 1) = sizeStep c (sizes c ph n) (ph n) := rfl
    rw [hs]
    have hold : (sizes c ph n).1 = 256 ^ c.addrSize - 1 ∨
        ∃ i < n + 1, (ph i).Loadable ∧ (sizes c ph n).1 = (ph i).pPaddr := by
      rcases ih with h | ⟨i, hi, h⟩
      · exact .inl h
      · exact .inr ⟨i, by omega, h⟩
    unfold sizeStep
    split
    next hl =>
      dsimp only
      split
      · exact .inr ⟨n, by omega, hl, rfl⟩
      · exact hold
    next => exact hold

end sizes

theorem sizeLoop_eq (c : ElfClass) (s : Loader) (eh : Ehdr) (phdrtab phsize : BitVec 32) (n : ℕ) :
    (sizeLoop c s eh phdrtab phsize n).1.mem = s.mem ∧
      (sizeLoop c s eh phdrtab phsize n).2 =
        sizes c (fun i => readPhdr s.mem (tableEntry phdrtab i eh.ePhentsize) c) n := by
  induction n with
  | zero => exact ⟨rfl, rfl⟩
  | succ n ih =>
    obtain ⟨hm, hs⟩ := ih
    refine ⟨hm, ?_⟩
    change sizeStep c (sizeLoop c s eh phdrtab phsize n).2 (readPhdr
      (sizeLoop c s eh phdrtab phsize n).1.mem (tableEntry phdrtab n eh.ePhentsize) c) = _
    rw [hm, hs]
    rfl

section mapping
variable {c : ElfClass} {s : Loader} {ia : MemImageAccess}

theorem mapHeader_cases (c : ElfClass) (s : Loader) (ia : MemImageAccess) :
    (clamp ia 0 (BitVec.ofNat 32 c.ehdrSize) ≠ BitVec.ofNat 32 c.ehdrSize ∧
        (mapHeader c s ia).2 = none) ∨
      (clamp ia 0 (BitVec.ofNat 32 c.ehdrSize) = BitVec.ofNat 32 c.ehdrSize ∧
        (mapHeader c s ia).2 = some ia.image ∧ (mapHeader c s ia).1.mem = s.mem) := by
  have hp : ia.image + BitVec.ofNat 32 0 = ia.image := BitVec.add_zero ia.image
  unfold mapHeader Loader.map memImageMapToMem
  dsimp only
  rw [hp]
  by_cases h : clamp ia (BitVec.ofNat 32 0) (BitVec.ofNat 32 c.ehdrSize) = BitVec.ofNat 32 c.ehdrSize
  · right
    rw [if_neg (not_not.mpr h)]
    exact ⟨h, rfl, rfl⟩
  · left
    rw [if_pos h]
    exact ⟨h, rfl⟩

theorem mapPhdrs_cases (s : Loader) (ia : MemImageAccess) (eh : Ehdr) :
    (clamp ia (BitVec.ofNat 32 eh.ePhoff) (tableSize eh.ePhnum eh.ePhentsize) ≠
        tableSize eh.ePhnum eh.ePhentsize ∧ (mapPhdrs s ia eh).2 = none) ∨
      (clamp ia (BitVec.ofNat 32 eh.ePhoff) (tableSize eh.ePhnum eh.ePhentsize) =
        tableSize eh.ePhnum eh.ePhentsize ∧
        (mapPhdrs s ia eh).2 = some (ia.image + BitVec.ofNat 32 eh.ePhoff) ∧
        (mapPhdrs s ia eh).1.mem = s.mem) := by
  unfold mapPhdrs Loader.map memImageMapToMem
  dsimp only
  by_cases h : clamp ia (BitVec.ofNat 32 eh.ePhoff) (tableSize eh.ePhnum eh.ePhentsize) =
      tableSize eh.ePhnum eh.ePhentsize
  · right
    rw [if_neg (not_not.mpr h)]
    exact ⟨h, rfl, rfl⟩
  · left
    rw [if_pos h]
    exact ⟨h, rfl⟩

end mapping

/-- What every accepted image of the class has passed before the optional tables. -/
structure HeadersAccepted (c : ElfClass) (mem : Memory 32) (ia : MemImageAccess) (info : ElfLoadInfo) :
    Prop where
  machineType : info.machineType = c
  header : 64 ≤ ia.size.toNat
  valid : headerIsValid mem ia.image c
  eType : (fileEhdr c mem ia).eType = ET_EXEC ∨ (fileEhdr c mem ia).eType = ET_DYN
  table : clamp ia (BitVec.ofNat 32 (fileEhdr c mem ia).ePhoff)
    (tableSize (fileEhdr c mem ia).ePhnum (fileEhdr c mem ia).ePhentsize) =
      tableSize (fileEhdr c mem ia).ePhnum (fileEhdr c mem ia).ePhentsize
  start : info.startAddr = (sizes c (filePhdr c mem ia) (phdrCount c mem ia)).1
  aligned : info.startAddr % 4096 = 0
  entry : info.entryAddr = (fileEhdr c mem ia).eEntry

/-- An image that is accepted with both copy flags clear. -/
structure Accepted (c : ElfClass) (mem : Memory 32) (ia : MemImageAccess) (info : ElfLoadInfo) : Prop
    extends HeadersAccepted c mem ia info where
  finish : info.endAddr = (sizes c (filePhdr c mem ia) (phdrCount c mem ia)).2
  noSectionHeaders : info.copySectionHeaders = false
  noSymbolTables : info.copySymbolTables = false

theorem header_le_of_clamp {ia : MemImageAccess} {n : BitVec 32} (h : clamp ia 0 n = n) :
    n.toNat ≤ ia.size.toNat := by
  have hn := n.isLt
  have hs := ia.size.isLt
  have hz : (0 : BitVec 32).toNat = 0 := rfl
  rcases clamp_cases ia 0 n with ⟨hlt, hc⟩ | ⟨hle, _⟩
  · rw [h] at hc
    omega
  · omega

/-- Without the optional tables the addresses are stored as they were computed. -/
theorem finishInfo_eq (c : ElfClass) (s : Loader) (ia : MemImageAccess) (eh : Ehdr)
    {info : ElfLoadInfo} (low max fuel : ℕ) (hh : info.copySectionHeaders = false)
    (hs : info.copySymbolTables = false) :
    finishInfo c s ia eh info low max fuel =
      (s, { info with startAddr := low, endAddr := max, entryAddr := eh.eEntry }, .monOk) := by
  unfold finishInfo
  rw [if_neg]
  simp [hh, hs]

section accepted
variable {c : ElfClass} {s : Loader} {ia : MemImageAccess} {info : ElfLoadInfo} {fuel : ℕ}

/-- A reading that does not fail has passed every check before the optional tables. -/
theorem getLoadInfo_of_ok (hok : (getLoadInfo c s ia info fuel).2.2 = .monOk) :
    ∃ t : Loader, t.mem = s.mem ∧
      ((fileEhdr c s.mem ia).eType = ET_EXEC ∨ (fileEhdr c s.mem ia).eType = ET_DYN) ∧
      clamp ia (BitVec.ofNat 32 (fileEhdr c s.mem ia).ePhoff)
        (tableSize (fileEhdr c s.mem ia).ePhnum (fileEhdr c s.mem ia).ePhentsize) =
          tableSize (fileEhdr c s.mem ia).ePhnum (fileEhdr c s.mem ia).ePhentsize ∧
      (sizes c (filePhdr c s.mem ia) (phdrCount c s.mem ia)).1 % 4096 = 0 ∧
      getLoadInfo c s ia info fuel = finishInfo c t ia (fileEhdr c s.mem ia) info
        (sizes c (filePhdr c s.mem ia) (phdrCount c s.mem ia)).1
        (sizes c (filePhdr c s.mem ia) (phdrCount c s.mem ia)).2 fuel := by
  unfold getLoadInfo at hok ⊢
  rcases mapHeader_cases c s ia with ⟨_, he⟩ | ⟨_, he, hm⟩
  · generalize mapHeader c s ia = r at he hok
    obtain ⟨s₁, o⟩ := r
    subst he
    cases hok
  generalize mapHeader c s ia = r at he hm hok ⊢
  obtain ⟨s₁, o⟩ := r
  subst he
  dsimp only at hm hok ⊢
  rw [hm, show readEhdr s.mem ia.image c = fileEhdr c s.mem ia from rfl] at hok ⊢
  by_cases ht : (fileEhdr c s.mem ia).eType ≠ ET_EXEC ∧ (fileEhdr c s.mem ia).eType ≠ ET_DYN
  · rw [if_pos ht] at hok
    cases hok
  rw [if_neg ht] at hok ⊢
  rcases mapPhdrs_cases s₁ ia (fileEhdr c s.mem ia) with ⟨_, hp⟩ | ⟨hfull, hp, hm₂⟩
  · generalize mapPhdrs s₁ ia (fileEhdr c s.mem ia) = r at hp hok
    obtain ⟨s₂, o⟩ := r
    subst hp
    cases hok
  generalize mapPhdrs s₁ ia (fileEhdr c s.mem ia) = r at hp hm₂ hok ⊢
  obtain ⟨s₂, o⟩ := r
  subst hp
  dsimp only at hm₂ hok ⊢
  obtain ⟨hl, hsz⟩ := sizeLoop_eq c s₂ (fileEhdr c s.mem ia)
    (ia.image + BitVec.ofNat 32 (fileEhdr c s.mem ia).ePhoff)
    (tableSize (fileEhdr c s.mem ia).ePhnum (fileEhdr c s.mem ia).ePhentsize)
    (int16Bound (fileEhdr c s.mem ia).ePhnum)
  rw [hm₂, hm] at hl hsz
  change _ = sizes c (filePhdr c s.mem ia) (phdrCount c s.mem ia) at hsz
  generalize sizeLoop c s₂ _ _ _ _ = r at hl hsz hok ⊢
  obtain ⟨t, acc⟩ := r
  dsimp only at hl hsz hok ⊢
  subst hsz
  by_cases ha : (sizes c (filePhdr c s.mem ia) (phdrCount c s.mem ia)).1 % 4096 ≠ 0
  · rw [if_pos ha] at hok
    cases hok
  rw [if_neg ha]
  have ht' : (fileEhdr c s.mem ia).eType = ET_EXEC ∨ (fileEhdr c s.mem ia).eType = ET_DYN := by
    by_contra h
    exact ht (not_or.mp h)
  exact ⟨t, hl, ht', hfull, not_not.mp ha, rfl⟩

theorem accepted_of_getLoadInfo (hok : (getLoadInfo c s ia info fuel).2.2 = .monOk)
    (hc : info.machineType = c) (h64 : 64 ≤ ia.size.toNat) (hv : headerIsValid s.mem ia.image c)
    (hh : info.copySectionHeaders = false) (hs : info.copySymbolTables = false) :
    Accepted c s.mem ia (getLoadInfo c s ia info fuel).2.1 ∧
      (getLoadInfo c s ia info fuel).1.mem = s.mem := by
  obtain ⟨t, hm, ht, hfull, ha, he⟩ := getLoadInfo_of_ok hok
  rw [he, finishInfo_eq c t ia _ _ _ _ hh hs]
  exact ⟨⟨⟨hc, h64, hv, ht, hfull, rfl, ha, rfl⟩, rfl, hh, hs⟩, hm⟩

theorem sizes_low_lt (c : ElfClass) (mem : Memory 32) (ia : MemImageAccess) (n : ℕ) :
    (sizes c (filePhdr c mem ia) n).1 < 2 ^ 64 := by
  have hpow : 256 ^ c.addrSize ≤ 2 ^ 64 := by cases c <;> decide
  have hpos : 0 < 256 ^ c.addrSize := by cases c <;> decide
  rcases sizes_low c (filePhdr c mem ia) n with h | ⟨i, _, _, h⟩
  · omega
  · have hlt : (filePhdr c mem ia i).pPaddr < 256 ^ c.addrSize := pPaddr_lt _ _ c
    omega

theorem HeadersAccepted.start_lt {mem : Memory 32} (ha : HeadersAccepted c mem ia info) :
    info.startAddr < 2 ^ 64 := by
  rw [ha.start]
  exact sizes_low_lt c mem ia _

theorem relocate_startAddr {dest : BitVec 32} (hs : info.startAddr < 2 ^ 64) :
    (info.relocate dest).startAddr = dest.toNat := by
  have hd := dest.isLt
  unfold ElfLoadInfo.relocate wrap64
  dsimp only
  omega

/-- The header is checked where the image lies. -/
theorem headerIsValid_mapped {n : BitVec 32} :
    headerIsValid s.mem (s.map ia 0 n).2.1 c ↔ headerIsValid s.mem ia.image c := by
  rw [show (s.map ia 0 n).2.1 = ia.image from BitVec.add_zero ia.image]

/-- Every image that `elf_get_load_info` takes with the copy flags clear. -/
theorem accepted_of_elfGetLoadInfo (hh : info.copySectionHeaders = false)
    (hs : info.copySymbolTables = false) (hok : (elfGetLoadInfo s ia info fuel).2.2 = .monOk) :
    ∃ c, Accepted c s.mem ia (elfGetLoadInfo s ia info fuel).2.1 ∧
      (elfGetLoadInfo s ia info fuel).1.mem = s.mem := by
  unfold elfGetLoadInfo at hok ⊢
  dsimp only at hok ⊢
  by_cases hn : (s.map ia 0 64).2.2 ≠ 64
  · rw [if_pos hn] at hok
    cases hok
  have h64 : 64 ≤ ia.size.toNat := header_le_of_clamp (not_not.mp hn)
  rw [if_neg hn] at hok ⊢
  split
  next h1 =>
    rw [if_pos h1] at hok
    exact ⟨.elfclass32, accepted_of_getLoadInfo hok rfl h64 (headerIsValid_mapped.mp h1) hh hs⟩
  next h1 =>
    rw [if_neg h1] at hok
    split
    next h2 =>
      rw [if_pos h2] at hok
      exact ⟨.elfclass64, accepted_of_getLoadInfo hok rfl h64 (headerIsValid_mapped.mp h2) hh hs⟩
    next h2 =>
      rw [if_neg h2] at hok
      cases hok

end accepted

/-- The same writes have been made. -/
def Silent (s t : Loader) : Prop :=
  ∀ site p n, Event.write site p n ∈ t.trace ↔ Event.write site p n ∈ s.trace

section silent
variable {s t u : Loader} {ia : MemImageAccess}

theorem Silent.refl (s : Loader) : Silent s s := fun _ _ _ => Iff.rfl

theorem Silent.trans (h : Silent s t) (h' : Silent t u) : Silent s u :=
  fun site p n => (h' site p n).trans (h site p n)

theorem Silent.emit (h : Silent s t) {e : Event} (he : ∀ site p n, Event.write site p n ≠ e) :
    Silent s (t.emit e) := by
  intro site p n
  rw [← h site p n]
  exact List.mem_cons.trans (or_iff_right (he site p n))

theorem Silent.map (h : Silent s t) (ia : MemImageAccess) (o : ℕ) (n : BitVec 32) :
    Silent s (t.map ia o n).1 := h.emit fun _ _ _ he => by cases he

theorem Silent.take (h : Silent s t) (o n : ℕ) : Silent s (t.emit (.take o n)) :=
  h.emit fun _ _ _ he => by cases he

theorem Silent.entry (h : Silent s t) (k o n : ℕ) : Silent s (t.emit (.entry k o n)) :=
  h.emit fun _ _ _ he => by cases he

theorem silent_mapHeader (c : ElfClass) (s : Loader) (ia : MemImageAccess) :
    Silent s (mapHeader c s ia).1 := by
  have hm := (Silent.refl s).map ia 0 (BitVec.ofNat 32 c.ehdrSize)
  unfold mapHeader
  dsimp only
  split
  · exact hm
  · exact hm.take _ _

theorem silent_mapPhdrs (s : Loader) (ia : MemImageAccess) (eh : Ehdr) :
    Silent s (mapPhdrs s ia eh).1 := by
  have hm := (Silent.refl s).map ia eh.ePhoff (tableSize eh.ePhnum eh.ePhentsize)
  unfold mapPhdrs
  dsimp only
  split
  · exact hm
  · exact hm

theorem silent_mapDynamic (s : Loader) (ia : MemImageAccess) (ph : Phdr) :
    Silent s (mapDynamic s ia ph).1 := by
  have hm := (Silent.refl s).map ia ph.pOffset (BitVec.ofNat 32 ph.pFilesz)
  unfold mapDynamic
  dsimp only
  split
  · exact hm
  · exact hm.take _ _

theorem silent_sizeLoop (c : ElfClass) (s : Loader) (eh : Ehdr) (phdrtab phsize : BitVec 32)
    (n : ℕ) : Silent s (sizeLoop c s eh phdrtab phsize n).1 := by
  induction n with
  | zero => exact Silent.refl s
  | succ n ih => exact (ih.entry _ _ _).take _ _

theorem silent_sectionsInfo (c : ElfClass) (s : Loader) (ia : MemImageAccess) (eh : Ehdr)
    (info : ElfLoadInfo) (maxAddr fuel : ℕ) :
    Silent s (sectionsInfo c s ia eh info maxAddr fuel).1 := by
  have hm := (Silent.refl s).map ia eh.eShoff (tableSize eh.eShnum eh.eShentsize)
  unfold sectionsInfo
  dsimp only
  split
  · split
    · exact hm
    · split <;> exact hm
  · exact Silent.refl s

theorem silent_finishInfo (c : ElfClass) (s : Loader) (ia : MemImageAccess) (eh : Ehdr)
    (info : ElfLoadInfo) (lowAddr maxAddr fuel : ℕ) :
    Silent s (finishInfo c s ia eh info lowAddr maxAddr fuel).1 := by
  have hs := silent_sectionsInfo c s ia eh info maxAddr fuel
  unfold finishInfo
  split
  · split
    next he => rw [he] at hs; exact hs
    next he => rw [he] at hs; exact hs
  · exact Silent.refl s

theorem silent_getLoadInfo (c : ElfClass) (s : Loader) (ia : MemImageAccess) (info : ElfLoadInfo)
    (fuel : ℕ) : Silent s (getLoadInfo c s ia info fuel).1 := by
  have hh := silent_mapHeader c s ia
  unfold getLoadInfo
  split
  next he => rw [he] at hh; exact hh
  next s₁ ehdr he =>
    rw [he] at hh
    have hp := hh.trans (silent_mapPhdrs s₁ ia (readEhdr s₁.mem ehdr c))
    dsimp only at hp ⊢
    split
    · exact hh
    · split
      next he' => rw [he'] at hp; exact hp
      next s₂ phdrtab he' =>
        rw [he'] at hp
        have hs := hp.trans (silent_sizeLoop c s₂ (readEhdr s₁.mem ehdr c) phdrtab
          (tableSize (readEhdr s₁.mem ehdr c).ePhnum (readEhdr s₁.mem ehdr c).ePhentsize)
          (int16Bound (readEhdr s₁.mem ehdr c).ePhnum))
        split
        · exact hs
        · exact hs.trans (silent_finishInfo c _ ia _ info _ _ fuel)

/-- Reading the headers writes nothing. -/
theorem silent_elfGetLoadInfo (s : Loader) (ia : MemImageAccess) (info : ElfLoadInfo) (fuel : ℕ) :
    Silent s (elfGetLoadInfo s ia info fuel).1 := by
  have hm := (Silent.refl s).map ia 0 64
  unfold elfGetLoadInfo
  dsimp only
  split
  · exact hm
  · split
    · exact (hm.take _ _).trans (silent_getLoadInfo .elfclass32 _ ia _ fuel)
    · split
      · exact (hm.take _ _).trans (silent_getLoadInfo .elfclass64 _ ia _ fuel)
      · exact hm.take _ _

end silent

end IkgtLoader.Ld
