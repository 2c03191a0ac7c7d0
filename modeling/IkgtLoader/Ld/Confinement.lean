import IkgtLoader.Ld.Load

/-! Which bytes of the file a load takes. The clamp of the accessors adds and subtracts in
wrapping arithmetic; a request that does not wrap is answered truthfully, and a load whose
requests are all of that kind stays inside the image. -/
namespace IkgtLoader.Ld
open Flat Loop

/-- What a caller concludes from the count that an accessor returns. -/
structure CountRight (ia : MemImageAccess) (offset count returned : BitVec 32) : Prop where
  full : returned = count → offset.toNat + count.toNat ≤ ia.size.toNat
  short : returned ≠ count →
    offset.toNat + returned.toNat ≤ ia.size.toNat ∨ returned = 0

/-- The offset is not past the end, and if the sum passes `2^32` the wrapped sum is still
greater than the size. -/
def Fits (ia : MemImageAccess) (offset count : ℕ) : Prop :=
  offset ≤ ia.size.toNat ∧ (offset + count < 2 ^ 32 ∨ ia.size.toNat < offset + count - 2 ^ 32)

instance (ia : MemImageAccess) (offset count : ℕ) : Decidable (Fits ia offset count) :=
  inferInstanceAs (Decidable (_ ∧ _))

section clamp
variable {ia : MemImageAccess} {o n : BitVec 32}

theorem countRight_of_fits (h : Fits ia o.toNat n.toNat) : CountRight ia o n (clamp ia o n) := by
  have hs := ia.size.isLt
  have ho := o.isLt
  have hn := n.isLt
  obtain ⟨h1, h2⟩ := h
  rcases clamp_cases ia o n with ⟨hlt, hc⟩ | ⟨hle, hc⟩
  · have hval : (clamp ia o n).toNat = ia.size.toNat - o.toNat := by omega
    refine ⟨fun he => ?_, fun _ => .inl (by omega)⟩
    rw [he] at hval
    omega
  · exact ⟨fun _ => by omega, fun hne => absurd hc hne⟩

theorem fits_of_countRight (h : CountRight ia o n (clamp ia o n)) : Fits ia o.toNat n.toNat := by
  have hs := ia.size.isLt
  have ho := o.isLt
  have hn := n.isLt
  rcases clamp_cases ia o n with ⟨hlt, hc⟩ | ⟨hle, hc⟩
  · by_cases he : clamp ia o n = n
    · have := h.full he
      exact ⟨by omega, by omega⟩
    · rcases h.short he with hle | hz
      · exact ⟨by omega, by omega⟩
      · rw [hz, show (0 : BitVec 32).toNat = 0 from rfl] at hc
        exact ⟨by omega, by omega⟩
  · have := h.full hc
    exact ⟨by omega, by omega⟩

end clamp

/-- What the environment of one access has to provide: a request that does not wrap, an
entry inside the table that was mapped. -/
def Event.Meets (ia : MemImageAccess) : Event → Prop
  | .map offset count => Fits ia offset count.toNat
  | .read offset count => Fits ia offset count.toNat
  | .entry tableSize offset size => offset + size ≤ tableSize
  | .take _ _ => True
  | .write _ _ _ => True

instance (ia : MemImageAccess) : (e : Event) → Decidable (e.Meets ia)
  | .map offset count => inferInstanceAs (Decidable (Fits ia offset count.toNat))
  | .read offset count => inferInstanceAs (Decidable (Fits ia offset count.toNat))
  | .entry _ _ _ => inferInstanceAs (Decidable (_ ≤ _))
  | .take _ _ => isTrue trivial
  | .write _ _ _ => isTrue trivial

def AllMeet (ia : MemImageAccess) (s : Loader) : Prop := ∀ e ∈ s.trace, e.Meets ia

/-- Every byte taken is a byte of the image. -/
def Confined (ia : MemImageAccess) (s : Loader) : Prop :=
  ∀ offset length, Event.take offset length ∈ s.trace → offset + length ≤ ia.size.toNat

/-- The invariant of the load. -/
def Safe (ia : MemImageAccess) (s : Loader) : Prop := AllMeet ia s → Confined ia s

section steps
variable {ia : MemImageAccess} {s : Loader}

theorem AllMeet.of_emit {e : Event} (h : AllMeet ia (s.emit e)) : AllMeet ia s :=
  fun f hf => h f (List.mem_cons_of_mem e hf)

theorem Safe.emit (h : Safe ia s) {e : Event} (he : ∀ o n, e ≠ .take o n) :
    Safe ia (s.emit e) := by
  intro hm o n ht
  rcases List.mem_cons.mp ht with heq | ht
  · exact absurd heq.symm (he o n)
  · exact h hm.of_emit o n ht

theorem Safe.take (h : Safe ia s) {o n : ℕ} (hfit : AllMeet ia s → o + n ≤ ia.size.toNat) :
    Safe ia (s.emit (.take o n)) := by
  intro hm o' n' ht
  rcases List.mem_cons.mp ht with heq | ht
  · cases heq
    exact hfit hm.of_emit
  · exact h hm.of_emit o' n' ht

theorem Safe.map (h : Safe ia s) (o : ℕ) (n : BitVec 32) : Safe ia (s.map ia o n).1 :=
  h.emit (by simp)

theorem Safe.store (h : Safe ia s) (site : Site) (dest : BitVec 32) (n v : ℕ) :
    Safe ia (s.store site dest n v) :=
  h.emit (e := .write site dest n) (by simp)

/-- A request that meets its condition and came back complete. -/
theorem le_size_of_full {o : ℕ} {n : BitVec 32} (hf : Fits ia o n.toNat)
    (hc : clamp ia (BitVec.ofNat 32 o) n = n) : o + n.toNat ≤ ia.size.toNat := by
  have hs := ia.size.isLt
  have ho : (BitVec.ofNat 32 o).toNat = o := toNat_ofNat_of_lt (by have := hf.1; omega)
  have := (countRight_of_fits (o := BitVec.ofNat 32 o) (by rwa [ho])).full hc
  omega

/-- A request that meets its condition never yields more than the image has. -/
theorem le_size_of_fits {o : ℕ} {n : BitVec 32} (hf : Fits ia o n.toNat) :
    o + (clamp ia (BitVec.ofNat 32 o) n).toNat ≤ ia.size.toNat := by
  by_cases hc : clamp ia (BitVec.ofNat 32 o) n = n
  · rw [hc]
    exact le_size_of_full hf hc
  · have hs := ia.size.isLt
    have hle := hf.1
    have ho : (BitVec.ofNat 32 o).toNat = o := toNat_ofNat_of_lt (by omega)
    rcases (countRight_of_fits (o := BitVec.ofNat 32 o) (by rwa [ho])).short hc with h | h
    · omega
    · rw [h]
      simpa using hle

theorem Safe.read (h : Safe ia s) (site : Site) (dest : BitVec 32) (o : ℕ) (n : BitVec 32) :
    Safe ia (s.read ia site dest o n).1 := by
  have hr : Safe ia (s.emit (.read o n)) := h.emit (by simp)
  have ht : Safe ia ((s.emit (.read o n)).emit (.take o (clamp ia (BitVec.ofNat 32 o) n).toNat)) :=
    hr.take fun hm => le_size_of_fits (hm (.read o n) List.mem_cons_self)
  exact ht.emit (e := .write site dest (clamp ia (BitVec.ofNat 32 o) n).toNat) (by simp)

/-- An entry of a table that came back complete. -/
theorem Safe.entry (h : Safe ia s) {table : ℕ} {size : BitVec 32} {o n : ℕ}
    (hfit : AllMeet ia s → table + size.toNat ≤ ia.size.toNat) :
    Safe ia ((s.emit (.entry size.toNat o n)).emit (.take (table + o) n)) := by
  have he : Safe ia (s.emit (.entry size.toNat o n)) := h.emit (by simp)
  refine he.take fun hm => ?_
  have h1 : o + n ≤ size.toNat := hm (.entry size.toNat o n) List.mem_cons_self
  have h2 := hfit hm.of_emit
  omega

end steps

/-- The state of a loop over a table of the file that came back complete. -/
def SafeTable (ia : MemImageAccess) (table : ℕ) (size : BitVec 32) (s : Loader) : Prop :=
  Safe ia s ∧ (AllMeet ia s → table + size.toNat ≤ ia.size.toNat)

section tables
variable {ia : MemImageAccess} {s : Loader} {table : ℕ} {size : BitVec 32}

theorem SafeTable.emit (h : SafeTable ia table size s) {e : Event} (he : ∀ o n, e ≠ .take o n) :
    SafeTable ia table size (s.emit e) :=
  ⟨h.1.emit he, fun hm => h.2 hm.of_emit⟩

theorem SafeTable.entry (h : SafeTable ia table size s) (o n : ℕ) :
    SafeTable ia table size ((s.emit (.entry size.toNat o n)).emit (.take (table + o) n)) :=
  ⟨h.1.entry h.2, fun hm => h.2 hm.of_emit.of_emit⟩

theorem SafeTable.read (h : SafeTable ia table size s) (site : Site) (dest : BitVec 32) (o : ℕ)
    (n : BitVec 32) : SafeTable ia table size (s.read ia site dest o n).1 :=
  ⟨h.1.read site dest o n, fun hm => h.2 fun e he =>
    hm e (List.mem_cons_of_mem _ (List.mem_cons_of_mem _ (List.mem_cons_of_mem _ he)))⟩

/-- A mapping that came back complete. -/
theorem SafeTable.of_map (h : Safe ia s) {o : ℕ} {n : BitVec 32}
    (hc : (s.map ia o n).2.2 = n) : SafeTable ia o n (s.map ia o n).1 :=
  ⟨h.map o n, fun hm => le_size_of_full (hm (.map o n) List.mem_cons_self) hc⟩

/-- The header of a class, mapped and used. -/
theorem Safe.header (h : Safe ia s) {n : BitVec 32} (hc : (s.map ia 0 n).2.2 = n) {k : ℕ}
    (hk : k = n.toNat) : Safe ia ((s.map ia 0 n).1.emit (.take 0 k)) :=
  (h.map 0 n).take fun hm => hk ▸ (SafeTable.of_map h hc).2 hm

theorem SafeTable.sizeLoop (c : ElfClass) (eh : Ehdr) (phdrtab : BitVec 32)
    (h : SafeTable ia eh.ePhoff size s) (n : ℕ) :
    SafeTable ia eh.ePhoff size (sizeLoop c s eh phdrtab size n).1 := by
  induction n with
  | zero => exact h
  | succ n ih => exact ih.entry (n * eh.ePhentsize) c.phdrSize

theorem SafeTable.loadSegment (h : SafeTable ia table size s) (relocationOffset : ℕ) (ph : Phdr) :
    (loadSegment ia relocationOffset ph s).All (SafeTable ia table size) (SafeTable ia table size)
      (SafeTable ia table size) := by
  have hr := h.read (.segment ph.pPaddr) (relocated ph.pPaddr relocationOffset) ph.pOffset
    (BitVec.ofNat 32 ph.loadFilesz)
  unfold Ld.loadSegment
  dsimp only
  split
  · exact hr
  · split
    · exact hr.emit (e := .write _ _ _) (by simp)
    · exact hr

theorem SafeTable.segmentStep (c : ElfClass) (relocationOffset : ℕ) (ehdr phdrtab : BitVec 32)
    (i : ℕ) {st : Loader × Option (BitVec 32)} (h : SafeTable ia table size st.1) :
    (segmentStep c ia relocationOffset ehdr table phdrtab size i st).All
      (fun t => SafeTable ia table size t.1) (fun t => SafeTable ia table size t.1)
      (fun t => SafeTable ia table size t.1) := by
  obtain ⟨s, dyn⟩ := st
  have he := h.entry (i * (readEhdr s.mem ehdr c).ePhentsize) c.phdrSize
  unfold Ld.segmentStep
  dsimp only
  split
  · exact he
  · split
    · exact he
    · rw [Outcome.all_map]
      exact he.loadSegment relocationOffset _

end tables

section load
variable {ia : MemImageAccess} {s : Loader}

theorem Safe.mapHeader (c : ElfClass) (h : Safe ia s) : Safe ia (mapHeader c s ia).1 := by
  unfold Ld.mapHeader
  dsimp only
  split
  · exact h.map 0 _
  next hc => exact h.header (not_not.mp hc) (by cases c <;> rfl)

/-- The table of program headers is inside the image once it is mapped. -/
theorem SafeTable.mapPhdrs (h : Safe ia s) (eh : Ehdr) :
    Safe ia (mapPhdrs s ia eh).1 ∧ ∀ p, (mapPhdrs s ia eh).2 = some p →
      SafeTable ia eh.ePhoff (tableSize eh.ePhnum eh.ePhentsize) (mapPhdrs s ia eh).1 := by
  unfold Ld.mapPhdrs
  dsimp only
  split
  · exact ⟨h.map _ _, fun _ he => by cases he⟩
  next hc => exact ⟨h.map _ _, fun _ _ => SafeTable.of_map h (not_not.mp hc)⟩

theorem Safe.loadSegments (c : ElfClass) (h : Safe ia s) (info : ElfLoadInfo) :
    (loadSegments c s ia info).All (fun t => Safe ia t.1) (fun t => Safe ia t.1)
      (fun t => Safe ia t.1) := by
  have hh := h.mapHeader c
  unfold Ld.loadSegments
  split
  next he => rw [he] at hh; exact hh
  next s₁ ehdr he =>
    rw [he] at hh
    obtain ⟨h1, h2⟩ := SafeTable.mapPhdrs hh (readEhdr s₁.mem ehdr c)
    dsimp only
    split
    next hp => rw [hp] at h1; exact h1
    next s₂ phdrtab hp =>
      rw [hp] at h2
      let I : Loader × Option (BitVec 32) → Prop := fun st => SafeTable ia
        (readEhdr s₁.mem ehdr c).ePhoff
        (tableSize (readEhdr s₁.mem ehdr c).ePhnum (readEhdr s₁.mem ehdr c).ePhentsize) st.1
      have hI : ∀ st, I st → Safe ia st.1 := fun _ hs => hs.1
      refine Outcome.All.mono ?_ hI hI hI
      exact run_keeps I (fun i st hs => hs.segmentStep c _ _ _ i) (h2 phdrtab rfl)

theorem Safe.patchStep (c : ElfClass) (h : Safe ia s) (info : ElfLoadInfo) (ehdr : BitVec 32)
    (phoff : ℕ) (phdrtab : BitVec 32) (i : ℕ) :
    (patchStep c info ehdr phoff phdrtab i s).All (Safe ia) (Safe ia) (Safe ia) := by
  unfold Ld.patchStep
  dsimp only
  split
  · exact (h.store _ _ _ _).store _ _ _ _
  · exact h

theorem Safe.patchHeaders (c : ElfClass) (h : Safe ia s) (info : ElfLoadInfo) :
    (patchHeaders c s info).All (Safe ia) (Safe ia) (Safe ia) :=
  run_keeps (Safe ia) (fun i _ hs => hs.patchStep c info _ _ _ i) h

theorem Safe.relocate (h : Safe ia s) (step : ℕ → Loader → Outcome Loader) (n : ℕ)
    (hstep : ∀ i t, Safe ia t → (step i t).All (Safe ia) (Safe ia) (Safe ia)) :
    Safe ia (relocate step n s).1 := by
  have hr : (Loop.run (fun i _ => i < n) step n 0 s).All (Safe ia) (Safe ia) (Safe ia) :=
    run_keeps (Safe ia) hstep h
  unfold Ld.relocate
  split
  next he => rw [he] at hr; exact hr
  next he => rw [he] at hr; exact hr
  next he => rw [he] at hr; exact hr

theorem Safe.rela32Step (h : Safe ia s) (rela symtab r : BitVec 32) (i : ℕ) :
    (rela32Step rela symtab r i s).All (Safe ia) (Safe ia) (Safe ia) := by
  unfold Ld.rela32Step
  dsimp only
  split
  · exact (h.store _ _ _ _).store _ _ _ _
  · exact h.store _ _ _ _
  · exact h
  · exact h

theorem Safe.rel32Step (h : Safe ia s) (rel symtab r : BitVec 32) (i : ℕ) :
    (rel32Step rel symtab r i s).All (Safe ia) (Safe ia) (Safe ia) := by
  unfold Ld.rel32Step
  dsimp only
  split
  · exact (h.store _ _ _ _).store _ _ _ _
  · exact h.store _ _ _ _
  · exact h

theorem Safe.rela64Step (h : Safe ia s) (rela symtab : BitVec 32) (r i : ℕ) :
    (rela64Step rela symtab r i s).All (Safe ia) (Safe ia) (Safe ia) := by
  unfold Ld.rela64Step
  dsimp only
  split
  · exact (h.store _ _ _ _).store _ _ _ _
  · exact h.store _ _ _ _
  · exact h
  · exact h

theorem Safe.mapDynamic (h : Safe ia s) (ph : Phdr) : Safe ia (mapDynamic s ia ph).1 := by
  unfold Ld.mapDynamic
  dsimp only
  split
  · exact h.map _ _
  next hc =>
    have ht := SafeTable.of_map h (not_not.mp hc)
    exact ht.1.take ht.2

theorem Safe.doRelocation (c : ElfClass) (h : Safe ia s) (info : ElfLoadInfo) (ph : Phdr) :
    Safe ia (doRelocation c s ia info ph).1 := by
  have hm := h.mapDynamic ph
  cases c with
  | elfclass32 =>
    change Safe ia (elf32DoRelocation s ia info ph).1
    unfold elf32DoRelocation
    split
    next he => rw [he] at hm; exact hm
    next he =>
      rw [he] at hm
      dsimp only at hm ⊢
      split
      · exact hm.relocate (Ld.rela32Step _ _ _) _ fun i t ht => ht.rela32Step _ _ _ i
      · split
        · exact hm.relocate (Ld.rel32Step _ _ _) _ fun i t ht => ht.rel32Step _ _ _ i
        · exact hm
  | elfclass64 =>
    change Safe ia (elf64DoRelocation s ia info ph).1
    unfold elf64DoRelocation
    split
    next he => rw [he] at hm; exact hm
    next he =>
      rw [he] at hm
      dsimp only at hm ⊢
      split
      · exact hm
      · exact hm.relocate (Ld.rela64Step _ _ _) _ fun i t ht => ht.rela64Step _ _ _ i

theorem Safe.copySectionHeaderTable (c : ElfClass) (h : Safe ia s) (info : ElfLoadInfo) :
    Safe ia (copySectionHeaderTable c s ia info).1 := by
  unfold Ld.copySectionHeaderTable
  dsimp only
  split
  · exact h
  · split
    · exact h.read _ _ _ _
    · exact (h.read _ _ _ _).store _ _ _ _

theorem Safe.copySectionStep (c : ElfClass) (info : ElfLoadInfo) (i : ℕ) {st : Loader × ℕ}
    (h : Safe ia st.1) :
    (copySectionStep c ia info i st).All (fun t => Safe ia t.1) (fun t => Safe ia t.1)
      (fun t => Safe ia t.1) := by
  obtain ⟨s, a⟩ := st
  unfold Ld.copySectionStep
  dsimp only
  split
  · exact h.store _ _ _ _
  · split
    · exact h
    · split <;> split
      all_goals first | exact h.read _ _ _ _ | exact (h.read _ _ _ _).store _ _ _ _

theorem Safe.sectionRun (c : ElfClass) (h : Safe ia s) (info : ElfLoadInfo) (fuel a : ℕ) :
    (Loop.run
      (fun i st => (BitVec.ofNat 16 i).toInt <
        ((readEhdr st.1.mem (BitVec.ofNat 32 info.startAddr) c).eShnum : ℤ))
      (Ld.copySectionStep c ia info) fuel 0 (s, a)).All (fun t => Safe ia t.1)
        (fun t => Safe ia t.1) (fun t => Safe ia t.1) :=
  run_keeps (fun st : Loader × ℕ => Safe ia st.1) (fun i _ hs => hs.copySectionStep c info i) h

theorem Safe.copySections (c : ElfClass) (h : Safe ia s) (info : ElfLoadInfo) (fuel : ℕ) :
    Safe ia (copySections c s ia info fuel).1 := by
  unfold Ld.copySections
  dsimp only
  generalize c.wrap (info.sectionsAddr + _) = a
  have hr := Safe.sectionRun c h info fuel a
  split
  next he => rw [he] at hr; exact hr
  next he => rw [he] at hr; exact hr
  next he => rw [he] at hr; exact hr

theorem Safe.copyTables (c : ElfClass) (h : Safe ia s) (info : ElfLoadInfo) (fuel : ℕ) :
    Safe ia (copyTables c s ia info fuel).1 := by
  have ht : Safe ia (if info.copySectionHeaders ∨ info.copySymbolTables then
      Ld.copySectionHeaderTable c s ia info else (s, .monOk)).1 := by
    split
    · exact h.copySectionHeaderTable c info
    · exact h
  unfold Ld.copyTables
  dsimp only
  split
  · exact ht.copySections c info fuel
  · exact ht

theorem Safe.loadExecutable (c : ElfClass) (h : Safe ia s) (info : ElfLoadInfo) (fuel : ℕ) :
    Safe ia (loadExecutable c s ia info fuel).1 := by
  have hl := h.loadSegments c info
  unfold Ld.loadExecutable
  split
  next he => rw [he] at hl; exact hl
  next he => rw [he] at hl; exact hl
  next s₁ phdrDyn he =>
    rw [he] at hl
    have hp := Safe.patchHeaders c hl info
    split
    next hq => rw [hq] at hp; exact hp
    next hq => rw [hq] at hp; exact hp
    next s₂ hq =>
      rw [hq] at hp
      cases phdrDyn with
      | none => exact Safe.copyTables c hp info fuel
      | some phdr =>
        have hd := Safe.doRelocation c hp info (readPhdr s₂.mem phdr c)
        dsimp only
        split
        next hr => rw [hr] at hd; exact Safe.copyTables c hd info fuel
        next hr => rw [hr] at hd; exact hd

theorem Safe.sectionsInfo (c : ElfClass) (h : Safe ia s) (eh : Ehdr) (info : ElfLoadInfo)
    (maxAddr fuel : ℕ) : Safe ia (sectionsInfo c s ia eh info maxAddr fuel).1 := by
  unfold Ld.sectionsInfo
  dsimp only
  split
  · split
    · exact h.map _ _
    · split <;> exact h.map _ _
  · exact h

theorem Safe.finishInfo (c : ElfClass) (h : Safe ia s) (eh : Ehdr) (info : ElfLoadInfo)
    (lowAddr maxAddr fuel : ℕ) : Safe ia (finishInfo c s ia eh info lowAddr maxAddr fuel).1 := by
  have hs := h.sectionsInfo c eh info maxAddr fuel
  unfold Ld.finishInfo
  split
  · split
    next he => rw [he] at hs; exact hs
    next he => rw [he] at hs; exact hs
  · exact h

theorem Safe.getLoadInfo (c : ElfClass) (h : Safe ia s) (info : ElfLoadInfo) (fuel : ℕ) :
    Safe ia (getLoadInfo c s ia info fuel).1 := by
  have hh := h.mapHeader c
  unfold Ld.getLoadInfo
  split
  next he => rw [he] at hh; exact hh
  next s₁ ehdr he =>
    rw [he] at hh
    dsimp only
    split
    · exact hh
    · obtain ⟨h1, h2⟩ := SafeTable.mapPhdrs hh (readEhdr s₁.mem ehdr c)
      split
      next hp => rw [hp] at h1; exact h1
      next s₂ phdrtab hp =>
        rw [hp] at h2
        have hs := ((h2 phdrtab rfl).sizeLoop c _ phdrtab (int16Bound
          (readEhdr s₁.mem ehdr c).ePhnum)).1
        split
        · exact hs
        · exact hs.finishInfo c _ _ _ _ _

theorem Safe.elfGetLoadInfo (h : Safe ia s) (info : ElfLoadInfo) (fuel : ℕ) :
    Safe ia (elfGetLoadInfo s ia info fuel).1 := by
  unfold Ld.elfGetLoadInfo
  dsimp only
  split
  · exact h.map _ _
  next hc =>
    have hh := h.header (not_not.mp hc) (show 64 = (64 : BitVec 32).toNat from rfl)
    split
    · exact hh.getLoadInfo .elfclass32 _ _
    · split
      · exact hh.getLoadInfo .elfclass64 _ _
      · exact hh

end load

theorem safe_start (ia : MemImageAccess) (mem : Memory 32) : Safe ia ⟨mem, []⟩ :=
  fun _ _ _ ht => absurd ht List.not_mem_nil

/-- The counts returned by the accessors are right exactly for the requests that fit; a load
made of such requests takes no byte from outside the image. -/
theorem source_confined (ia : MemImageAccess) :
    (∀ mem dest offset count,
      CountRight ia offset count (memImageRead ia mem dest offset count).2 ↔
        Fits ia offset.toNat count.toNat) ∧
    (∀ offset count, CountRight ia offset count (memImageMapToMem ia offset count).2 ↔
      Fits ia offset.toNat count.toNat) ∧
    (∀ mem info fuel, AllMeet ia (elfGetLoadInfo ⟨mem, []⟩ ia info fuel).1 →
      Confined ia (elfGetLoadInfo ⟨mem, []⟩ ia info fuel).1) ∧
    (∀ mem info fuel, AllMeet ia (elf32LoadExecutable ⟨mem, []⟩ ia info fuel).1 →
      Confined ia (elf32LoadExecutable ⟨mem, []⟩ ia info fuel).1) ∧
    ∀ mem info fuel, AllMeet ia (elf64LoadExecutable ⟨mem, []⟩ ia info fuel).1 →
      Confined ia (elf64LoadExecutable ⟨mem, []⟩ ia info fuel).1 := by
  refine ⟨fun mem dest o n => ⟨fits_of_countRight, countRight_of_fits⟩,
    fun o n => ⟨fits_of_countRight, countRight_of_fits⟩, fun mem info fuel => ?_,
    fun mem info fuel => ?_, fun mem info fuel => ?_⟩
  · exact (safe_start ia mem).elfGetLoadInfo info fuel
  · exact (safe_start ia mem).loadExecutable .elfclass32 info fuel
  · exact (safe_start ia mem).loadExecutable .elfclass64 info fuel

instance (ia : MemImageAccess) (s : Loader) : Decidable (AllMeet ia s) :=
  inferInstanceAs (Decidable (∀ e ∈ s.trace, e.Meets ia))

/-- Reading the headers of the small executable and loading it. -/
theorem source_confined_tinyElf32 :
    Confined ⟨0x1000, 84⟩
        (elfGetLoadInfo ⟨Memory.ofBytes 0x1000 tinyElf32, []⟩ ⟨0x1000, 84⟩ ElfLoadInfo.cleared 0).1 ∧
      Confined ⟨0x1000, 84⟩
        (elf32LoadExecutable ⟨Memory.ofBytes 0x1000 tinyElf32, []⟩ ⟨0x1000, 84⟩
          (ElfLoadInfo.cleared.relocate 0x2000) 0).1 :=
  ⟨(source_confined ⟨0x1000, 84⟩).2.2.1 _ _ _ (by decide +kernel),
    (source_confined ⟨0x1000, 84⟩).2.2.2.1 _ _ _ (by decide +kernel)⟩

/-- A request just below `2^32` wraps and is answered with the full count. -/
theorem mapToMem_wraps :
    (memImageMapToMem ⟨0x1000, 84⟩ 0xfffffff0 0x20).2 = 0x20 ∧
      ¬ (0xfffffff0 + 0x20 ≤ 84) ∧
      ¬ CountRight ⟨0x1000, 84⟩ 0xfffffff0 0x20
        (memImageMapToMem ⟨0x1000, 84⟩ 0xfffffff0 0x20).2 :=
  ⟨by decide, by decide, fun h => absurd (h.full (by decide)) (by decide)⟩

end IkgtLoader.Ld
