import IkgtLoader.Ld.Correctness
import IkgtLoader.Ld.Status

/-! What the loop over the loaded program headers changes. It takes the bytes at the start address for an
ELF header, whatever the segments have put there. -/
namespace IkgtLoader.Ld
open Flat Loop

/-- A segment brings the byte at the offset `o` of the file to `x`. -/
def Phdr.Brings (ph : Phdr) (relocationOffset o : ℕ) (x : BitVec 32) : Prop :=
  ph.Loadable ∧ ph.pOffset ≤ o ∧ o < ph.pOffset + ph.loadFilesz ∧
    x = relocated (ph.pPaddr + (o - ph.pOffset)) relocationOffset

instance (ph : Phdr) (relocationOffset o : ℕ) (x : BitVec 32) :
    Decidable (ph.Brings relocationOffset o x) := inferInstanceAs (Decidable (_ ∧ _))

/-- A byte of `p_vaddr` or `p_paddr` in a loaded copy of the program header table. -/
def LoadedField (c : ElfClass) (mem : Memory 32) (ia : MemImageAccess) (relocationOffset : ℕ)
    (x : BitVec 32) : Prop :=
  ∃ i < phdrCount c mem ia, ∃ j < (fileEhdr c mem ia).ePhnum, ∃ k < 2 * c.addrSize,
    (filePhdr c mem ia i).Brings relocationOffset
      ((fileEhdr c mem ia).ePhoff + j * (fileEhdr c mem ia).ePhentsize + c.pVaddr + k) x

instance (c : ElfClass) (mem : Memory 32) (ia : MemImageAccess) (relocationOffset : ℕ)
    (x : BitVec 32) : Decidable (LoadedField c mem ia relocationOffset x) :=
  inferInstanceAs (Decidable (∃ i < phdrCount c mem ia, _))

/-- Apart from these fields, `m'` is as `m`. -/
def KeepsSegments (c : ElfClass) (mem : Memory 32) (ia : MemImageAccess) (relocationOffset : ℕ)
    (m m' : Memory 32) : Prop :=
  ∀ x, ¬ LoadedField c mem ia relocationOffset x → m' x = m x

/-- The loop over the loaded headers, from the state `s` that the segments have left. -/
def PatchesFramed (c : ElfClass) (mem : Memory 32) (ia : MemImageAccess) (info : ElfLoadInfo)
    (s : Loader) : Prop :=
  let ehdr := BitVec.ofNat 32 info.startAddr
  let phoff := (readEhdr s.mem ehdr c).ePhoff
  Throughout (fun i s => phdrCond c s.mem ehdr i)
    (patchStep c info ehdr phoff (BitVec.ofNat 32 (info.startAddr + phoff)))
    (fun t => KeepsSegments c mem ia info.relocationOffset s.mem t.mem) int16Rounds 0 s

/-- What a round takes for an entry in use: the bytes of its `p_paddr` and `p_vaddr` that the relocation
offset changes are in a loaded copy of the table. -/
def PatchAtHeader (c : ElfClass) (mem : Memory 32) (ia : MemImageAccess) (info : ElfLoadInfo)
    (phdrtab : BitVec 32) (i : ℕ) (s : Loader) : Prop :=
  let eh := readEhdr s.mem (BitVec.ofNat 32 info.startAddr) c
  let phdr := tableEntry phdrtab i eh.ePhentsize
  let ph := readPhdr s.mem phdr c
  ph.pMemsz ≠ 0 →
    (∀ k < c.addrSize, Memory.Carries ph.pPaddr info.relocationOffset k →
        LoadedField c mem ia info.relocationOffset (phdr + BitVec.ofNat 32 c.pPaddr + BitVec.ofNat 32 k)) ∧
      ∀ k < c.addrSize, Memory.Carries ph.pVaddr info.relocationOffset k →
        LoadedField c mem ia info.relocationOffset (phdr + BitVec.ofNat 32 c.pVaddr + BitVec.ofNat 32 k)

/-- Every round. -/
def PatchesAtHeaders (c : ElfClass) (mem : Memory 32) (ia : MemImageAccess) (info : ElfLoadInfo)
    (s : Loader) : Prop :=
  let ehdr := BitVec.ofNat 32 info.startAddr
  let phoff := (readEhdr s.mem ehdr c).ePhoff
  let phdrtab := BitVec.ofNat 32 (info.startAddr + phoff)
  Admits (fun i s => phdrCond c s.mem ehdr i) (patchStep c info ehdr phoff phdrtab)
    (PatchAtHeader c mem ia info phdrtab) int16Rounds 0 s

section patch
variable {c : ElfClass} {mem m : Memory 32} {ia : MemImageAccess} {info : ElfLoadInfo}

/-- Two additions in one record. -/
theorem stores_keep_iff (c : ElfClass) (m : Memory 32) (p : BitVec 32) (d : ℕ) (P : BitVec 32 → Prop) :
    (∀ x, ¬ P x → ((m.store (p + BitVec.ofNat 32 c.pPaddr) c.addrSize ((readPhdr m p c).pPaddr + d)).store
        (p + BitVec.ofNat 32 c.pVaddr) c.addrSize ((readPhdr m p c).pVaddr + d)) x = m x) ↔
      (∀ k < c.addrSize, Memory.Carries (readPhdr m p c).pPaddr d k →
          P (p + BitVec.ofNat 32 c.pPaddr + BitVec.ofNat 32 k)) ∧
        ∀ k < c.addrSize, Memory.Carries (readPhdr m p c).pVaddr d k →
          P (p + BitVec.ofNat 32 c.pVaddr + BitVec.ofNat 32 k) := by
  have hsmall : c.addrSize ≤ 2 ^ 32 := by cases c <;> decide
  have hpaddr : m.load (p + BitVec.ofNat 32 c.pPaddr) c.addrSize = (readPhdr m p c).pPaddr := by
    rw [← field_eq_load]
    cases c <;> rfl
  have hap : Apart (p + BitVec.ofNat 32 c.pPaddr) c.addrSize (p + BitVec.ofNat 32 c.pVaddr) c.addrSize := by
    cases c <;> exact apart_offset (by decide) (by decide) (by decide)
  obtain ⟨m₁, hm₁⟩ : ∃ m₁, m.store (p + BitVec.ofNat 32 c.pPaddr) c.addrSize
      ((readPhdr m p c).pPaddr + d) = m₁ := ⟨_, rfl⟩
  have hfirst := Memory.store_add_keeps_iff m _ d hsmall hpaddr P
  have hvaddr : m₁.load (p + BitVec.ofNat 32 c.pVaddr) c.addrSize = (readPhdr m p c).pVaddr := by
    rw [← field_pVaddr, field_eq_load, ← hm₁]
    refine Memory.Same.load_eq (Memory.Same.of_unchanged (fun x hx => ?_) hsmall)
    exact Memory.store_of_not_inSpan _ _ fun h => hap x h hx
  have hsecond := Memory.store_add_keeps_iff m₁ _ d hsmall hvaddr P
  rw [hm₁] at hfirst ⊢
  rw [← hfirst, ← hsecond]
  constructor
  · intro h
    -- a byte of one field is not changed by the store to the other
    have hother : ∀ x, ¬ P x → m₁ x = m x := by
      intro x hx
      by_cases hin : InSpan (p + BitVec.ofNat 32 c.pVaddr) c.addrSize x
      · rw [← hm₁]
        exact Memory.store_of_not_inSpan _ _ fun h' => hap x h' hin
      · rw [← h x hx]
        exact (Memory.store_of_not_inSpan _ _ hin).symm
    exact ⟨hother, fun x hx => (h x hx).trans (hother x hx).symm⟩
  · rintro ⟨h1, h2⟩ x hx
    exact (h2 x hx).trans (h1 x hx)

/-- One round keeps the bytes outside the loaded fields exactly if the changed bytes of its entry are in them. -/
theorem patchStep_keeps_iff {m : Memory 32} {phdrtab : BitVec 32} {phoff i : ℕ} {s : Loader}
    (hs : KeepsSegments c mem ia info.relocationOffset m s.mem) :
    ∃ t, patchStep c info (BitVec.ofNat 32 info.startAddr) phoff phdrtab i s = .next t ∧
      (KeepsSegments c mem ia info.relocationOffset m t.mem ↔ PatchAtHeader c mem ia info phdrtab i s) := by
  unfold patchStep PatchAtHeader
  dsimp only
  generalize tableEntry phdrtab i (readEhdr s.mem (BitVec.ofNat 32 info.startAddr) c).ePhentsize = phdr
  have hrel : ∀ t : Memory 32, KeepsSegments c mem ia info.relocationOffset m t ↔
      ∀ x, ¬ LoadedField c mem ia info.relocationOffset x → t x = s.mem x :=
    fun t => forall_congr' fun x => forall_congr' fun hx => by rw [hs x hx]
  by_cases hm : (readPhdr s.mem phdr c).pMemsz ≠ 0
  · rw [if_pos hm]
    refine ⟨_, rfl, ?_⟩
    have hsmall : c.pPaddr + c.addrSize ≤ 2 ^ 32 ∧ c.pVaddr + c.addrSize ≤ c.pPaddr := by
      cases c <;> decide
    have hv : field (s.mem.store (phdr + BitVec.ofNat 32 c.pPaddr) c.addrSize
        ((readPhdr s.mem phdr c).pPaddr + info.relocationOffset)) phdr c.pVaddr c.addrSize =
          (readPhdr s.mem phdr c).pVaddr := by
      rw [field_store_of_disjoint _ _ _ (by omega) (by omega) (by omega), field_pVaddr]
    unfold Loader.store
    dsimp only
    rw [hv, hrel, stores_keep_iff]
    exact ⟨fun h _ => h, fun h => h hm⟩
  · rw [if_neg hm]
    exact ⟨s, rfl, iff_of_true hs fun h => absurd h hm⟩

theorem patchesFramed_iff (c : ElfClass) (mem : Memory 32) (ia : MemImageAccess) (info : ElfLoadInfo)
    (s : Loader) : PatchesFramed c mem ia info s ↔ PatchesAtHeaders c mem ia info s := by
  unfold PatchesFramed PatchesAtHeaders
  dsimp only
  rw [throughout_iff fun i t ht => patchStep_keeps_iff ht]
  exact and_iff_right fun _ _ => rfl

end patch

/-- The segments lie in memory as the file states them, apart from the fields of loaded program headers. -/
structure StillLoaded (c : ElfClass) (mem : Memory 32) (ia : MemImageAccess) (start : ℕ)
    (dest : BitVec 32) (relocationOffset : ℕ) (m : Memory 32) : Prop where
  bytes : ∀ i < phdrCount c mem ia, (filePhdr c mem ia i).Loadable → ∀ k < (filePhdr c mem ia i).pMemsz,
    ¬ LoadedField c mem ia relocationOffset
      ((filePhdr c mem ia i).place start dest + BitVec.ofNat 32 k) →
    m ((filePhdr c mem ia i).place start dest + BitVec.ofNat 32 k) =
      if k < (filePhdr c mem ia i).loadFilesz then
        mem (ia.image + BitVec.ofNat 32 ((filePhdr c mem ia i).pOffset + k))
      else 0
  frame : ∀ x, (∀ i < phdrCount c mem ia, (filePhdr c mem ia i).Loadable →
    ¬ InSpan ((filePhdr c mem ia i).place start dest) (filePhdr c mem ia i).pMemsz x) → m x = mem x

section placed
variable {c : ElfClass} {mem m m' : Memory 32} {ia : MemImageAccess} {start window size : ℕ}
  {dest : BitVec 32}

/-- A loaded field lies in a segment. -/
theorem LoadedField.inSegment {x : BitVec 32}
    (hx : LoadedField c mem ia (wrap64 (dest.toNat + (2 ^ 64 - start))) x)
    (hp : Placed (filePhdr c mem ia) (phdrCount c mem ia) start window size) :
    ∃ i < phdrCount c mem ia, (filePhdr c mem ia i).Loadable ∧
      InSpan ((filePhdr c mem ia i).place start dest) (filePhdr c mem ia i).pMemsz x := by
  obtain ⟨i, hi, j, _, k, _, hl, hge, hlt, rfl⟩ := hx
  have hlow := hp.low i hi hl
  have hbelow := hp.below i hi hl
  have hsmall := hp.small i hi hl
  have hle := (filePhdr c mem ia i).loadFilesz_le
  refine ⟨i, hi, hl, ?_⟩
  rw [relocated_eq dest (by omega) (by omega), Nat.sub_add_comm hlow, ← add_ofNat_ofNat]
  exact (inSpan_add_ofNat (by omega)).mpr (by omega)

/-- Where the segments are at their places, to keep them is to keep what the file states. -/
theorem SegmentsAt.keepsSegments_iff
    (h : SegmentsAt (filePhdr c mem ia) start ia.image dest mem (phdrCount c mem ia) m)
    (hp : Placed (filePhdr c mem ia) (phdrCount c mem ia) start window size) :
    KeepsSegments c mem ia (wrap64 (dest.toNat + (2 ^ 64 - start))) m m' ↔
      StillLoaded c mem ia start dest (wrap64 (dest.toNat + (2 ^ 64 - start))) m' := by
  constructor
  · intro hk
    constructor
    · intro i hi hl k hkm hx
      rw [hk _ hx]
      exact h.bytes i hi hl k hkm
    · intro x hx
      have hout : ¬ LoadedField c mem ia (wrap64 (dest.toNat + (2 ^ 64 - start))) x := by
        intro hf
        obtain ⟨i, hi, hl, hin⟩ := hf.inSegment hp
        exact hx i hi hl hin
      rw [hk x hout]
      exact h.frame x hx
  · intro hs x hx
    by_cases hin : ∃ i < phdrCount c mem ia, (filePhdr c mem ia i).Loadable ∧
        InSpan ((filePhdr c mem ia i).place start dest) (filePhdr c mem ia i).pMemsz x
    · obtain ⟨i, hi, hl, hspan⟩ := hin
      obtain ⟨k, hk, _, rfl⟩ := hspan.exists_index
      rw [hs.bytes i hi hl k hk hx, h.bytes i hi hl k hk]
    · have hout : ∀ i < phdrCount c mem ia, (filePhdr c mem ia i).Loadable →
          ¬ InSpan ((filePhdr c mem ia i).place start dest) (filePhdr c mem ia i).pMemsz x :=
        fun i hi hl hspan => hin ⟨i, hi, hl, hspan⟩
      rw [hs.frame x hout, h.frame x hout]

/-- The fields that are patched where the headers are loaded are those of the table. -/
theorem HeadersLoaded.loadedField (hh : HeadersLoaded c mem ia start) (hstart : start < 2 ^ 64)
    (hn : phdrCount c mem ia = (fileEhdr c mem ia).ePhnum) {n : ℕ} (hle : n ≤ phdrCount c mem ia)
    {x : BitVec 32}
    (hx : Patched c (filePhdr c mem ia) (fileEhdr c mem ia).ePhoff n (x - dest).toNat) :
    LoadedField c mem ia (wrap64 (dest.toNat + (2 ^ 64 - start))) x := by
  obtain ⟨l, hl, hload, hpa, hoff, _, hend⟩ := hh.lowest
  obtain ⟨j, hj, _, hge, hlt⟩ := hx
  have hrec : c.pVaddr + 2 * c.addrSize ≤ c.phdrSize := by cases c <;> decide
  have hentry : (j + 1) * c.phdrSize ≤ (fileEhdr c mem ia).ePhnum * c.phdrSize :=
    Nat.mul_le_mul_right _ (by omega)
  rw [Nat.succ_mul] at hentry
  have hat : (fileEhdr c mem ia).ePhoff + j * c.phdrSize + c.pVaddr +
      ((x - dest).toNat - ((fileEhdr c mem ia).ePhoff + j * c.phdrSize + c.pVaddr)) =
        (x - dest).toNat := by omega
  refine ⟨l, by omega, j, by omega,
    (x - dest).toNat - ((fileEhdr c mem ia).ePhoff + j * c.phdrSize + c.pVaddr), by omega, ?_⟩
  rw [hh.entsize, hat]
  refine ⟨hload, by omega, by omega, ?_⟩
  unfold relocated wrap64
  rw [hpa, hoff]
  apply BitVec.eq_of_toNat_eq
  have hx' := x.isLt
  have hd := dest.isLt
  rw [BitVec.toNat_ofNat, BitVec.toNat_sub]
  omega

/-- There every round is at a loaded program header. -/
theorem HeadersLoaded.patchesAtHeaders {info : ElfLoadInfo} {s : Loader}
    (hh : HeadersLoaded c mem ia start) (hstart : start < 2 ^ 64)
    (hn : phdrCount c mem ia = (fileEhdr c mem ia).ePhnum)
    (h : SegmentsAt (filePhdr c mem ia) start ia.image dest mem (phdrCount c mem ia) s.mem)
    (hs : info.startAddr = dest.toNat) (hr : info.relocationOffset = wrap64 (dest.toNat + (2 ^ 64 - start)))
    (hend : (fileEhdr c mem ia).ePhoff + (fileEhdr c mem ia).ePhnum * c.phdrSize ≤ 2 ^ 32) :
    PatchesAtHeaders c mem ia info s := by
  have hdest : BitVec.ofNat 32 info.startAddr = dest := by
    rw [hs, BitVec.ofNat_toNat, BitVec.setWidth_eq]
  obtain ⟨heh, hph⟩ := hh.readHeaders hn h
  obtain ⟨hoff, _⟩ := hh.same hn h
  rw [← patchesFramed_iff]
  unfold PatchesFramed
  dsimp only
  rw [BitVec.ofNat_add, hdest, heh]
  refine throughout_of_invariant (fun i t => i ≤ phdrCount c mem ia ∧
    HeadersAt c (filePhdr c mem ia) (fileEhdr c mem ia).ePhoff info.relocationOffset dest s.mem i t.mem)
    ⟨Nat.zero_le _, HeadersAt.zero _ _ _ _ _ _⟩ ?_ ?_
  · rintro i t ⟨hi, hat⟩ x hx
    refine hat.frame x fun hpat => hx ?_
    rw [hr]
    exact hh.loadedField hstart hn hi hpat
  · rintro i t u ⟨hi, hat⟩ hc hu
    have hlt : i < phdrCount c mem ia := by
      unfold phdrCond at hc
      rwa [hat.readEhdr_eq hoff, heh] at hc
    have hle : (i + 1) * c.phdrSize ≤ (fileEhdr c mem ia).ePhnum * c.phdrSize :=
      Nat.mul_le_mul_right _ (by omega)
    obtain ⟨v, hv, hat'⟩ := hat.patchStep heh hh.entsize (hph i (by omega)) hoff (by omega)
    cases hv.symm.trans hu
    exact ⟨hlt, hat'⟩

end placed

section measured
variable {c : ElfClass} {s : Loader} {ia : MemImageAccess} {info : ElfLoadInfo} {fuel low max : ℕ}
  {eh : Ehdr}

theorem sectionsInfo_measured : (sectionsInfo c s ia eh info max fuel).1.mem = s.mem ∧
    (sectionsInfo c s ia eh info max fuel).2.1.machineType = info.machineType := by
  unfold sectionsInfo
  dsimp only
  split
  · split
    · exact ⟨rfl, rfl⟩
    · split <;> exact ⟨rfl, rfl⟩
  · exact ⟨rfl, rfl⟩

/-- Whatever tables are asked for, the low address is stored as it was computed. -/
theorem finishInfo_measured (hok : (finishInfo c s ia eh info low max fuel).2.2 = .monOk) :
    (finishInfo c s ia eh info low max fuel).1.mem = s.mem ∧
      (finishInfo c s ia eh info low max fuel).2.1.machineType = info.machineType ∧
      (finishInfo c s ia eh info low max fuel).2.1.startAddr = low := by
  unfold finishInfo at hok ⊢
  split at hok
  next hf =>
    rw [if_pos hf]
    have hsections : (sectionsInfo c s ia eh info max fuel).2.2.2 = .monOk := by
      split at hok
      next heq => rw [heq]
      next _ heq => rw [heq]; exact hok
    obtain ⟨hm, ht⟩ : (sectionsInfo c s ia eh info max fuel).1.mem = s.mem ∧ _ := sectionsInfo_measured
    generalize sectionsInfo c s ia eh info max fuel = r at hsections hm ht ⊢
    obtain ⟨t, info', m, status⟩ := r
    dsimp only at hsections hm ht
    subst hsections
    exact ⟨hm, ht, rfl⟩
  next hf =>
    rw [if_neg hf]
    exact ⟨rfl, rfl, rfl⟩

/-- What has been checked of an image of the class before the optional tables. -/
structure Measured (c : ElfClass) (mem : Memory 32) (ia : MemImageAccess) (info : ElfLoadInfo) : Prop where
  machineType : info.machineType = c
  table : clamp ia (BitVec.ofNat 32 (fileEhdr c mem ia).ePhoff)
    (tableSize (fileEhdr c mem ia).ePhnum (fileEhdr c mem ia).ePhentsize) =
      tableSize (fileEhdr c mem ia).ePhnum (fileEhdr c mem ia).ePhentsize
  start : info.startAddr = (sizes c (filePhdr c mem ia) (phdrCount c mem ia)).1
  aligned : info.startAddr % 4096 = 0

theorem measured_of_getLoadInfo (hok : (getLoadInfo c s ia info fuel).2.2 = .monOk)
    (hc : info.machineType = c) : Measured c s.mem ia (getLoadInfo c s ia info fuel).2.1 ∧
      (getLoadInfo c s ia info fuel).1.mem = s.mem := by
  obtain ⟨t, hm, _, htable, hal, he⟩ := getLoadInfo_of_ok hok
  rw [he] at hok ⊢
  obtain ⟨hmem, ht, hstart⟩ := finishInfo_measured hok
  refine ⟨⟨ht.trans hc, htable, hstart, ?_⟩, hmem.trans hm⟩
  rw [hstart]
  exact hal

/-- Every image that `elf_get_load_info` takes. -/
theorem measured_of_elfGetLoadInfo (hok : (elfGetLoadInfo s ia info fuel).2.2 = .monOk) :
    ∃ c, Measured c s.mem ia (elfGetLoadInfo s ia info fuel).2.1 ∧
      (elfGetLoadInfo s ia info fuel).1.mem = s.mem := by
  unfold elfGetLoadInfo at hok ⊢
  dsimp only at hok ⊢
  split at hok
  next => cases hok
  next hn =>
    rw [if_neg hn]
    split at hok
    next h1 =>
      rw [if_pos h1]
      exact ⟨.elfclass32, measured_of_getLoadInfo hok rfl⟩
    next h1 =>
      split at hok
      next h2 =>
        rw [if_neg h1, if_pos h2]
        exact ⟨.elfclass64, measured_of_getLoadInfo hok rfl⟩
      next => cases hok

end measured

theorem patchHeaders_of_beforeTables {c : ElfClass} {s s₁ s₂ : Loader} {ia : MemImageAccess}
    {info : ElfLoadInfo} (hseg : loadSegments c s ia info = .next (s₁, none))
    (h : beforeTables c s ia info = some s₂) : patchHeaders c s₁ info = .next s₂ := by
  unfold beforeTables at h
  rw [hseg] at h
  dsimp only at h
  split at h
  next t ht =>
    cases h
    exact ht
  next => cases h

/-- Both classes are loaded by the one body. -/
theorem elfLoadExecutable_eq (s : Loader) (ia : MemImageAccess) (info : ElfLoadInfo)
    (dest : BitVec 32) (fuel : ℕ) : elfLoadExecutable s ia info dest fuel =
      ((loadExecutable info.machineType s ia (info.relocate dest) fuel).1, info.relocate dest,
        (loadExecutable info.machineType s ia (info.relocate dest) fuel).2) := by
  obtain ⟨machineType⟩ := info
  cases machineType with
  | elfclass32 => rfl
  | elfclass64 => rfl

/-- An accepted image in which the loop finds no dynamic section: the loop over the loaded headers keeps
every byte outside the loaded program headers exactly if each of its rounds is at one, as where the lowest
segment brings them. The memory before the optional copies is then as the segments have left it there, and
where they do not overlap as the file states. -/
theorem headerPatches_iff (s : Loader) (ia : MemImageAccess) (info : ElfLoadInfo) (fuel : ℕ)
    (dest : BitVec 32) (hok : (elfGetLoadInfo s ia info fuel).2.2 = .monOk) :
    let r := elfGetLoadInfo s ia info fuel
    let c := r.2.1.machineType
    let info' := r.2.1.relocate dest
    ∀ s₁, loadSegments c r.1 ia info' = .next (s₁, none) →
      (PatchesFramed c s.mem ia info' s₁ ↔ PatchesAtHeaders c s.mem ia info' s₁) ∧
      (∀ s₂, beforeTables c r.1 ia info' = some s₂ →
        (PatchesAtHeaders c s.mem ia info' s₁ →
          KeepsSegments c s.mem ia info'.relocationOffset s₁.mem s₂.mem) ∧
        (info'.copySectionHeaders = false → info'.copySymbolTables = false →
          ∀ fuel', elfLoadExecutable r.1 ia r.2.1 dest fuel' = (s₂, info', .monOk))) ∧
      ∀ window, Loads c s.mem ia r.2.1.startAddr dest window →
        (∀ m, KeepsSegments c s.mem ia info'.relocationOffset s₁.mem m ↔
          StillLoaded c s.mem ia r.2.1.startAddr dest info'.relocationOffset m) ∧
        (HeadersLoaded c s.mem ia r.2.1.startAddr → PatchesAtHeaders c s.mem ia info' s₁) := by
  intro r c info' s₁ hseg
  obtain ⟨c', hm, hmem⟩ := measured_of_elfGetLoadInfo hok
  have hc : c = c' := hm.machineType
  rw [← hc] at hm
  refine ⟨patchesFramed_iff _ _ _ _ _, fun s₂ hbefore => ?_, fun window hl => ?_⟩
  · have hrun := patchHeaders_of_beforeTables hseg hbefore
    refine ⟨fun hat => ?_, fun hh hs fuel' => ?_⟩
    · have hframed := (patchesFramed_iff c s.mem ia info' s₁).mpr hat
      exact hframed.run hrun
    · have hload : loadExecutable c r.1 ia info' fuel' = (s₂, .monOk) := by
        unfold loadExecutable copyTables
        rw [hseg]
        dsimp only
        rw [hrun]
        simp [hh, hs]
      rw [elfLoadExecutable_eq]
      exact congrArg (fun q => (q.1, info', q.2)) hload
  · obtain ⟨t, ht, hat, _⟩ := hl.loadSegments hm.table hmem
    cases ht.symm.trans hseg
    have hstart : r.2.1.startAddr < 2 ^ 64 := by
      rw [hm.start]
      exact sizes_low_lt _ _ _ _
    have hn := phdrCount_eq_of_aligned (hm.start ▸ hm.aligned)
    refine ⟨fun m => hat.keepsSegments_iff hl.placed, fun hh => ?_⟩
    refine hh.patchesAtHeaders hstart hn hat (relocate_startAddr hstart) rfl ?_
    obtain ⟨i, hi, hload, _, hoff, _, hend⟩ := hh.lowest
    have hfile := hl.placed.fileRange i (by omega) hload
    have hsize := ia.size.isLt
    omega

/-- A well-formed image comes to the optional copies with its segments at their places. -/
theorem WellFormed.beforeTables {c : ElfClass} {s : Loader} {ia : MemImageAccess} {info : ElfLoadInfo}
    {dest : BitVec 32} {mem : Memory 32} (hw : WellFormed c mem ia info.startAddr)
    (ha : HeadersAccepted c mem ia info) (he : EndsBelow c mem ia info.endAddr)
    (hfit : info.endAddr - info.startAddr ≤ 2 ^ 32)
    (hap : Apart dest (info.endAddr - info.startAddr) ia.image ia.size.toNat) (hs : s.mem = mem) :
    ∃ s₁ s₂, loadSegments c s ia (info.relocate dest) = .next (s₁, none) ∧
      beforeTables c s ia (info.relocate dest) = some s₂ ∧
      LoadedAt c mem ia info.startAddr dest (info.relocate dest).relocationOffset s₂.mem := by
  obtain ⟨s₁, s₂, hseg, hpatch, hat⟩ := hw.loops ha he hfit hap hs
  rw [dynamicPhdr_none hw.noDynamic] at hseg
  refine ⟨s₁, s₂, hseg, ?_, hat⟩
  unfold Ld.beforeTables
  rw [hseg]
  dsimp only
  rw [hpatch]

/-- The small executable brings its headers, and is loaded behind itself. -/
theorem headerPatches_iff_tinyElf32 :
    let s : Loader := ⟨Memory.ofBytes 0x1000 tinyElf32, []⟩
    let ia : MemImageAccess := ⟨0x1000, 84⟩
    let r := elfGetLoadInfo s ia ElfLoadInfo.cleared 0
    let info' := r.2.1.relocate 0x2000
    ∃ s₁ s₂, loadSegments r.2.1.machineType r.1 ia info' = .next (s₁, none) ∧
      PatchesFramed r.2.1.machineType s.mem ia info' s₁ ∧
      elfLoadExecutable r.1 ia r.2.1 0x2000 0 = (s₂, info', .monOk) ∧
      StillLoaded r.2.1.machineType s.mem ia r.2.1.startAddr 0x2000 info'.relocationOffset s₂.mem := by
  intro s ia r info'
  have hr : r.2 = (⟨.elfclass32, 0, 0x60, 0x34, 0, 0, false, false⟩, .monOk) := by decide +kernel
  have hok : r.2.2 = .monOk := congrArg Prod.snd hr
  have hc : r.2.1.machineType = .elfclass32 := congrArg (fun q => q.1.machineType) hr
  have hstart : r.2.1.startAddr = 0 := congrArg (fun q => q.1.startAddr) hr
  have hspan : r.2.1.endAddr - r.2.1.startAddr = 0x60 :=
    congrArg (fun q => q.1.endAddr - q.1.startAddr) hr
  obtain ⟨c, ha, hmem⟩ := accepted_of_elfGetLoadInfo rfl rfl hok
  have hc' : c = .elfclass32 := ha.machineType.symm.trans hc
  subst hc'
  have hw : WellFormed .elfclass32 s.mem ia r.2.1.startAddr := hstart ▸ wellFormed_tinyElf32
  have hloads : Loads .elfclass32 s.mem ia r.2.1.startAddr 0x2000 (r.2.1.endAddr - r.2.1.startAddr) :=
    hw.loads ha.toHeadersAccepted (hw.endsBelow ha) (by omega)
      (hspan ▸ (apart_of_le (a := 0x1000) (m := 84) (by decide) (by decide)).symm)
  obtain ⟨s₁, s₂, hseg, hbefore, _⟩ := hw.beforeTables ha.toHeadersAccepted (hw.endsBelow ha)
    (by omega) hloads.apart hmem
  have hall := headerPatches_iff s ia ElfLoadInfo.cleared 0 0x2000 hok
  change ∀ s₁, loadSegments r.2.1.machineType r.1 ia info' = _ → _ at hall
  rw [hc] at hall ⊢
  obtain ⟨hframed, hrest, hplaced⟩ := hall s₁ hseg
  obtain ⟨hkeeps, hheaders⟩ := hplaced _ hloads
  have hat := hheaders hw.toHeadersLoaded
  obtain ⟨hkept, hresult⟩ := hrest s₂ hbefore
  exact ⟨s₁, s₂, hseg, hframed.mpr hat,
    hresult ha.noSectionHeaders ha.noSymbolTables 0, (hkeeps _).mp (hkept hat)⟩

/-- The headers of `tinyElf32`, but its segment is what follows them, and there the bytes read as a table of
one entry in use. -/
def misplacedElf32 : List (BitVec 8) :=
  ((tinyElf32.set 0x38 0x54).set 0x44 0x60) ++
    ((((List.replicate 0x60 0).set 0x1c 0x34).set 0x2a 0x20).set 0x2c 1).set 0x48 1

/-- A byte of the segment is changed. -/
theorem headerPatches_misplaced :
    let s : Loader := ⟨Memory.ofBytes 0x100000 misplacedElf32, []⟩
    let ia : MemImageAccess := ⟨0x100000, 0xb4⟩
    let r := elfGetLoadInfo s ia ElfLoadInfo.cleared 0
    let q := elfLoadExecutable r.1 ia r.2.1 0x200000 0
    r.2.2 = .monOk ∧ q.2.2 = .monOk ∧
      (∀ i < phdrCount .elfclass32 s.mem ia, (filePhdr .elfclass32 s.mem ia i).pType ≠ PT_DYNAMIC) ∧
      (filePhdr .elfclass32 s.mem ia 0).Brings q.2.1.relocationOffset 0x96 0x200042 ∧
      ¬ LoadedField .elfclass32 s.mem ia q.2.1.relocationOffset 0x200042 ∧
      s.mem (ia.image + 0x96) = 0 ∧ q.1.mem 0x200042 = 0x20 := by
  decide +kernel

end IkgtLoader.Ld
