import IkgtLoader.Ld.Writes

/-! The status that a load returns, and the steps that it stands for. -/
namespace IkgtLoader.Ld
open Flat Loop

variable {c : ElfClass} {s s' s₂ : Loader} {ia : MemImageAccess} {info : ElfLoadInfo} {fuel : ℕ}

/-- As many bytes are read as the image states. -/
def ReadInFull (ia : MemImageAccess) (offset length : ℕ) : Prop :=
  (clamp ia (BitVec.ofNat 32 offset) (BitVec.ofNat 32 length)).toNat = length

instance (ia : MemImageAccess) (offset length : ℕ) : Decidable (ReadInFull ia offset length) :=
  inferInstanceAs (Decidable (_ = _))

/-- The header at the start of the loaded image is valid and the section header table can be read. -/
def TableCopied (c : ElfClass) (s : Loader) (ia : MemImageAccess) (info : ElfLoadInfo) : Prop :=
  let eh := readEhdr s.mem (BitVec.ofNat 32 info.startAddr) c
  headerIsValid s.mem (BitVec.ofNat 32 info.startAddr) c ∧
    ReadInFull ia eh.eShoff (tableSize eh.eShentsize eh.eShnum).toNat

instance (c : ElfClass) (s : Loader) (ia : MemImageAccess) (info : ElfLoadInfo) :
    Decidable (TableCopied c s ia info) := inferInstanceAs (Decidable (_ ∧ _))

/-- The bound of the loop over sections, read from the loaded header. -/
def shdrCond (c : ElfClass) (info : ElfLoadInfo) (i : ℕ) (st : Loader × ℕ) : Prop :=
  (BitVec.ofNat 16 i).toInt < ((readEhdr st.1.mem (BitVec.ofNat 32 info.startAddr) c).eShnum : ℤ)

instance (c : ElfClass) (info : ElfLoadInfo) (i : ℕ) (st : Loader × ℕ) :
    Decidable (shdrCond c info i st) := inferInstanceAs (Decidable (_ < _))

/-- The section `i` is read in full, if it is one that no segment brings. -/
def SectionRead (c : ElfClass) (ia : MemImageAccess) (info : ElfLoadInfo) (i : ℕ) (st : Loader × ℕ) :
    Prop :=
  let eh := readEhdr st.1.mem (BitVec.ofNat 32 info.startAddr) c
  let sh := readShdr st.1.mem (shdrAddress c info.sectionsAddr i eh.eShentsize) c
  sh.shAddr = 0 → sh.shSize ≠ 0 → ReadInFull ia sh.shOffset sh.shSize

/-- The copy goes through all the sections, and those that are eligible are read in full. -/
def SectionsCopied (c : ElfClass) (s : Loader) (ia : MemImageAccess) (info : ElfLoadInfo)
    (fuel : ℕ) : Prop :=
  let eh := readEhdr s.mem (BitVec.ofNat 32 info.startAddr) c
  (copySections c s ia info fuel).2 = .monOk ∧
    Admits (shdrCond c info) (copySectionStep c ia info) (SectionRead c ia info) fuel 0
      (s, c.wrap (info.sectionsAddr + (tableSize eh.eShentsize eh.eShnum).toNat))

/-- The state before the optional copies, if the load comes to them: the segments are copied, the
loaded program headers moved and, with PT_DYNAMIC, the relocation is done. -/
def beforeTables (c : ElfClass) (s : Loader) (ia : MemImageAccess) (info : ElfLoadInfo) :
    Option Loader :=
  match loadSegments c s ia info with
  | .next (s, phdrDyn) =>
    match patchHeaders c s info with
    | .next s =>
      match phdrDyn with
      | none => some s
      | some phdr =>
        match doRelocation c s ia info (readPhdr s.mem phdr c) with
        | (s, .monOk) => some s
        | _ => none
    | _ => none
  | _ => none

/-- The steps of a load that comes to the optional copies in the state `s₂`. -/
structure StepsDone (c : ElfClass) (s : Loader) (ia : MemImageAccess) (info : ElfLoadInfo)
    (s₂ : Loader) (fuel : ℕ) : Prop where
  segments : RoundsOk (fun ph => ReadInFull ia ph.pOffset ph.loadFilesz) c s ia info.relocationOffset
  relocation : ∀ s₀ phdr s₁, loadSegments c s ia info = .next (s₀, some phdr) →
    patchHeaders c s₀ info = .next s₁ → (doRelocation c s₁ ia info (readPhdr s₁.mem phdr c)).2 = .monOk
  table : info.copySectionHeaders ∨ info.copySymbolTables → TableCopied c s₂ ia info
  sections : info.copySymbolTables →
    SectionsCopied c (copySectionHeaderTable c s₂ ia info).1 ia info fuel

/-- What is read in full is what `size_t` can hold. -/
theorem readInFull_iff_of_eq {offset length : ℕ}
    (h : clamp ia (BitVec.ofNat 32 offset) (BitVec.ofNat 32 length) = BitVec.ofNat 32 length) :
    ReadInFull ia offset length ↔ length < 2 ^ 32 := by
  unfold ReadInFull
  rw [h, BitVec.toNat_ofNat]
  exact ⟨fun he => he ▸ Nat.mod_lt _ (by decide), Nat.mod_eq_of_lt⟩

theorem readInFull_toNat_iff {offset : ℕ} {count : BitVec 32} :
    ReadInFull ia offset count.toNat ↔ clamp ia (BitVec.ofNat 32 offset) count = count := by
  unfold ReadInFull
  rw [BitVec.ofNat_toNat, BitVec.setWidth_eq]
  exact BitVec.toNat_inj

theorem copySectionHeaderTable_ok_iff :
    (copySectionHeaderTable c s ia info).2 = .monOk ↔ TableCopied c s ia info := by
  unfold copySectionHeaderTable TableCopied
  dsimp only
  rw [readInFull_toNat_iff]
  by_cases hv : headerIsValid s.mem (BitVec.ofNat 32 info.startAddr) c
  · rw [if_neg (not_not.mpr hv), and_iff_right hv]
    split
    next hn => exact iff_of_false (by simp) hn
    next hn => exact iff_of_true rfl (not_not.mp hn)
  · rw [if_pos hv]
    exact iff_of_false (by simp) fun h => hv h.1

/-- A segment that does not end the load has been read as far as it was asked for. -/
theorem loadSegment_next {r : ℕ} {ph : Phdr} {t : Loader} (h : loadSegment ia r ph s = .next t) :
    clamp ia (BitVec.ofNat 32 ph.pOffset) (BitVec.ofNat 32 ph.loadFilesz) =
      BitVec.ofNat 32 ph.loadFilesz := by
  by_contra hne
  have hquit : loadSegment ia r ph s = .quit (s.read ia (.segment ph.pPaddr)
      (relocated ph.pPaddr r) ph.pOffset (BitVec.ofNat 32 ph.loadFilesz)).1 := if_pos hne
  rw [hquit] at h
  cases h

theorem segmentStep_loadable (ia : MemImageAccess) (r phoff : ℕ) (phsize : BitVec 32) {i : ℕ}
    {ehdr phdrtab : BitVec 32} {st : Loader × Option (BitVec 32)}
    (hl : (roundPhdr c ehdr phdrtab i st).Loadable) :
    ∃ u, segmentStep c ia r ehdr phoff phdrtab phsize i st =
      (loadSegment ia r (roundPhdr c ehdr phdrtab i st) u).map fun s => (s, st.2) := by
  have hdyn : (roundPhdr c ehdr phdrtab i st).pType ≠ PT_DYNAMIC := by
    rw [hl.1]
    decide
  exact ⟨_, (if_neg hdyn).trans (if_neg (not_not.mpr hl))⟩

theorem segmentStep_next {r phoff i : ℕ} {ehdr phdrtab phsize : BitVec 32}
    {st t : Loader × Option (BitVec 32)}
    (h : segmentStep c ia r ehdr phoff phdrtab phsize i st = .next t) :
    RoundOk (fun ph => ReadInFull ia ph.pOffset ph.loadFilesz) c ehdr phdrtab i st ↔
      RoundOk (fun ph => ph.loadFilesz < 2 ^ 32) c ehdr phdrtab i st := by
  refine forall_congr' fun hl => readInFull_iff_of_eq ?_
  obtain ⟨u, hu⟩ := segmentStep_loadable ia r phoff phsize hl
  rw [hu] at h
  cases he : loadSegment ia r (roundPhdr c ehdr phdrtab i st) u with
  | next v => exact loadSegment_next he
  | quit v => rw [he] at h; cases h
  | spent v => rw [he] at h; cases h

/-- The first loop, when it goes to its end, has read all the segments whose size fits a `size_t`. -/
theorem loadSegments_next {st : Loader × Option (BitVec 32)} (h : loadSegments c s ia info = .next st) :
    RoundsOk (fun ph => ReadInFull ia ph.pOffset ph.loadFilesz) c s ia info.relocationOffset ↔
      RoundsOk (fun ph => ph.loadFilesz < 2 ^ 32) c s ia info.relocationOffset := by
  unfold RoundsOk
  refine forall_congr' fun s₁ => forall_congr' fun ehdr => forall_congr' fun hh => ?_
  refine forall_congr' fun s₂ => forall_congr' fun phdrtab => forall_congr' fun hp => ?_
  unfold loadSegments at h
  rw [hh] at h
  dsimp only at h
  rw [hp] at h
  exact admits_congr_of_next (fun i st t => segmentStep_next) h

/-- A round of the copy goes on or fails on a read. -/
theorem copySectionStep_cases (c : ElfClass) (ia : MemImageAccess) (info : ElfLoadInfo) (i : ℕ)
    (st : Loader × ℕ) :
    (SectionRead c ia info i st ∧ ∃ t, copySectionStep c ia info i st = .next t) ∨
      (¬ SectionRead c ia info i st ∧ ∃ t, copySectionStep c ia info i st = .quit t) := by
  by_cases hr : SectionRead c ia info i st
  · refine .inl ⟨hr, ?_⟩
    unfold SectionRead at hr
    unfold copySectionStep
    dsimp only at hr ⊢
    split
    next => exact ⟨_, rfl⟩
    next ha =>
      split
      next => exact ⟨_, rfl⟩
      next hs => exact ⟨_, if_neg (not_not.mpr (hr (not_not.mp ha) hs))⟩
  · refine .inr ⟨hr, ?_⟩
    unfold SectionRead at hr
    simp only [Classical.not_imp] at hr
    obtain ⟨ha, hs, hne⟩ := hr
    exact ⟨_, (if_neg (not_not.mpr ha)).trans ((if_neg hs).trans (if_pos hne))⟩

theorem copySectionStep_next {i : ℕ} {st t : Loader × ℕ}
    (h : copySectionStep c ia info i st = .next t) : SectionRead c ia info i st := by
  rcases copySectionStep_cases c ia info i st with ⟨hr, _⟩ | ⟨_, u, hu⟩
  · exact hr
  · rw [hu] at h
    cases h

theorem copySections_ok_iff :
    (copySections c s ia info fuel).2 = .monOk ↔ SectionsCopied c s ia info fuel := by
  refine ⟨fun h => ⟨h, ?_⟩, fun h => h.1⟩
  unfold copySections at h
  dsimp only at h
  split at h
  next st he => exact admits_of_next (fun i st t => copySectionStep_next) he
  next => cases h
  next => cases h

/-- A load that returns MON_OK has come to the optional copies. -/
theorem loadExecutable_ok (h : loadExecutable c s ia info fuel = (s', .monOk)) :
    ∃ s₂, beforeTables c s ia info = some s₂ ∧ copyTables c s₂ ia info fuel = (s', .monOk) := by
  unfold loadExecutable at h
  unfold beforeTables
  cases hl : loadSegments c s ia info with
  | quit st => rw [hl] at h; cases congrArg Prod.snd h
  | spent st => rw [hl] at h; cases congrArg Prod.snd h
  | next st =>
    obtain ⟨s₀, phdrDyn⟩ := st
    rw [hl] at h
    dsimp only at h ⊢
    cases hp : patchHeaders c s₀ info with
    | quit s₁ => rw [hp] at h; cases congrArg Prod.snd h
    | spent s₁ => rw [hp] at h; cases congrArg Prod.snd h
    | next s₁ =>
      rw [hp] at h
      dsimp only at h ⊢
      cases phdrDyn with
      | none => exact ⟨s₁, rfl, h⟩
      | some phdr =>
        dsimp only at h ⊢
        cases hr : doRelocation c s₁ ia info (readPhdr s₁.mem phdr c) with
        | mk s₂ status =>
          rw [hr] at h
          cases status with
          | monOk => exact ⟨s₂, rfl, h⟩
          | monError => cases congrArg Prod.snd h
          | runaway => cases congrArg Prod.snd h

/-- What has gone before the optional copies. -/
theorem beforeTables_some (h : beforeTables c s ia info = some s₂) :
    (∃ st, loadSegments c s ia info = .next st) ∧
      ∀ s₀ phdr s₁, loadSegments c s ia info = .next (s₀, some phdr) →
        patchHeaders c s₀ info = .next s₁ →
          (doRelocation c s₁ ia info (readPhdr s₁.mem phdr c)).2 = .monOk := by
  unfold beforeTables at h
  constructor
  · cases hl : loadSegments c s ia info with
    | next st => exact ⟨st, rfl⟩
    | quit st => rw [hl] at h; cases h
    | spent st => rw [hl] at h; cases h
  · intro s₀ phdr s₁ hl hp
    rw [hl] at h
    dsimp only at h
    rw [hp] at h
    dsimp only at h
    cases hr : doRelocation c s₁ ia info (readPhdr s₁.mem phdr c) with
    | mk t status =>
      rw [hr] at h
      cases status with
      | monOk => rfl
      | monError => cases h
      | runaway => cases h

/-- The status of the copies is that of the last one asked for. -/
theorem copyTables_ok (h : copyTables c s₂ ia info fuel = (s', .monOk)) :
    (info.copySectionHeaders ∧ ¬ info.copySymbolTables → TableCopied c s₂ ia info) ∧
      (info.copySymbolTables →
        SectionsCopied c (copySectionHeaderTable c s₂ ia info).1 ia info fuel) := by
  unfold copyTables at h
  constructor
  · rintro ⟨hh, ht⟩
    rw [if_pos (.inl hh)] at h
    dsimp only at h
    rw [if_neg ht] at h
    exact copySectionHeaderTable_ok_iff.mp (congrArg Prod.snd h)
  · intro ht
    rw [if_pos (.inr ht)] at h
    dsimp only at h
    rw [if_pos ht] at h
    exact copySections_ok_iff.mp (congrArg Prod.snd h)

/-- A load that returns MON_OK has done all its steps exactly if every segment's size fits a `size_t`
and, when the sections are copied, the section header table could be copied before them. -/
theorem loadExecutable_honest_iff (h : loadExecutable c s ia info fuel = (s', .monOk)) :
    ∃ s₂, beforeTables c s ia info = some s₂ ∧
      (StepsDone c s ia info s₂ fuel ↔
        RoundsOk (fun ph => ph.loadFilesz < 2 ^ 32) c s ia info.relocationOffset ∧
          (info.copySymbolTables → TableCopied c s₂ ia info)) := by
  obtain ⟨s₂, hbefore, hcopy⟩ := loadExecutable_ok h
  obtain ⟨⟨st, hl⟩, hreloc⟩ := beforeTables_some hbefore
  obtain ⟨htable, hsections⟩ := copyTables_ok hcopy
  refine ⟨s₂, hbefore, ?_, ?_⟩
  · intro hdone
    exact ⟨(loadSegments_next hl).mp hdone.segments, fun ht => hdone.table (.inr ht)⟩
  · rintro ⟨hfit, hcond⟩
    refine ⟨(loadSegments_next hl).mpr hfit, hreloc, fun hflags => ?_, hsections⟩
    by_cases ht : info.copySymbolTables
    · exact hcond ht
    · exact htable ⟨hflags.resolve_right ht, ht⟩

/-- Where the image at 1 MB is linked, with its sections to be copied, before the load to 2 MB. -/
def symbolsInfo : ElfLoadInfo :=
  { ElfLoadInfo.cleared with
    endAddr := 0x60, entryAddr := 0x34, sectionsAddr := 0x60, copySymbolTables := true }

theorem loadExecutable_honest_tinyElf32 :
    let s : Loader := ⟨Memory.ofBytes 0x100000 tinyElf32, []⟩
    let info := symbolsInfo.relocate 0x200000
    ∃ s₂, beforeTables .elfclass32 s ⟨0x100000, 0x54⟩ info = some s₂ ∧
      (StepsDone .elfclass32 s ⟨0x100000, 0x54⟩ info s₂ 0 ↔
        RoundsOk (fun ph => ph.loadFilesz < 2 ^ 32) .elfclass32 s ⟨0x100000, 0x54⟩ info.relocationOffset ∧
          (info.copySymbolTables → TableCopied .elfclass32 s₂ ⟨0x100000, 0x54⟩ info)) := by
  intro s info
  have hrun : loadExecutable .elfclass32 s ⟨0x100000, 0x54⟩ info 0 =
      ((loadExecutable .elfclass32 s ⟨0x100000, 0x54⟩ info 0).1, .monOk) :=
    Prod.ext rfl (by decide +kernel)
  exact loadExecutable_honest_iff hrun

/-- The same headers, but nothing of the file is loaded. -/
def headerlessElf32 : List (BitVec 8) :=
  tinyElf32.set 0x44 0

/-- There is no header to take the table from, yet the load succeeds. -/
theorem loadExecutable_headerless :
    let s : Loader := ⟨Memory.ofBytes 0x100000 headerlessElf32, []⟩
    let ia : MemImageAccess := ⟨0x100000, 0x54⟩
    let info := symbolsInfo.relocate 0x200000
    (elfGetLoadInfo s ia { ElfLoadInfo.cleared with copySymbolTables := true } 0).2 =
        (symbolsInfo, .monOk) ∧
      (elfLoadExecutable s ia symbolsInfo 0x200000 0).2.2 = .monOk ∧
      ∃ s₂, beforeTables .elfclass32 s ia info = some s₂ ∧
        ¬ TableCopied .elfclass32 s₂ ia info ∧ ¬ StepsDone .elfclass32 s ia info s₂ 0 := by
  intro s ia info
  have hload : (elfLoadExecutable s ia symbolsInfo 0x200000 0).2.2 = .monOk := by decide +kernel
  have hnone : ∀ t ∈ beforeTables .elfclass32 s ia info, ¬ TableCopied .elfclass32 t ia info := by
    decide +kernel
  have hrun : loadExecutable .elfclass32 s ia info 0 =
      ((loadExecutable .elfclass32 s ia info 0).1, .monOk) := Prod.ext rfl hload
  obtain ⟨s₂, hbefore, _⟩ := loadExecutable_ok hrun
  have hnot := hnone s₂ hbefore
  exact ⟨by decide +kernel, hload, s₂, hbefore, hnot, fun hdone => hnot (hdone.table (.inr rfl))⟩

end IkgtLoader.Ld
