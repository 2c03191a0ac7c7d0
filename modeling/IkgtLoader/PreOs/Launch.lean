import IkgtLoader.Flat.Seen
import IkgtLoader.PreOs.Expansion
import Mathlib.Tactic.MkIffOfInductiveProp

/-! Which memory `launch_linux_kernel` depends on: two memories that differ behind the array of the
modules only, and what is still read once the loader has stored. -/
namespace IkgtLoader
open Flat Loop

/-- The record `i` behind `mods_addr`. -/
def moduleEntry (mem : Memory 32) (mbi : BitVec 32) (i : ℕ) : BitVec 32 :=
  MultibootInfo.modsAddr mem mbi + BitVec.ofNat 32 (i * moduleSize)

/-- The image of the module `i`. -/
def moduleImage (mem : Memory 32) (mbi : BitVec 32) (i : ℕ) : BitVec 32 :=
  moduleStart mem (moduleEntry mem mbi i)

/-- `mod_end - mod_start` of the module `i`. -/
def moduleBytes (mem : Memory 32) (mbi : BitVec 32) (i : ℕ) : BitVec 32 :=
  moduleEnd mem (moduleEntry mem mbi i) - moduleStart mem (moduleEntry mem mbi i)

/-- The header of the kernel. -/
def kernelImage (mem : Memory 32) (mbi : BitVec 32) : BitVec 32 :=
  moduleStart mem (getMbiModule mem mbi MVMLINUZ)

/-- The image and the size that are given for the initrd. -/
def givenInitrd (mem : Memory 32) (mbi : BitVec 32) : BitVec 32 × BitVec 32 :=
  let m := getMbiModule mem mbi MINITRD
  if m = NULL then (NULL, 0) else (moduleStart mem m, moduleEnd mem m - moduleStart mem m)

/-- A byte of the string at `a`, up to its zero. -/
def InString (mem : Memory 32) (a x : BitVec 32) : Prop :=
  ∃ k, x = a + BitVec.ofNat 32 k ∧ ∀ j < k, mem (a + BitVec.ofNat 32 j) ≠ 0

/-- The bytes that the boot loader hands over, and those of the heap. -/
inductive Listed (s : Machine) (mbi x : BitVec 32) : Prop
  | info (h : InSpan mbi MultibootInfo.span x)
  | record (i : ℕ) (hi : i < (MultibootInfo.modsCount s.mem mbi).toNat)
      (h : InSpan (moduleEntry s.mem mbi i) moduleSize x)
  | contents (i : ℕ) (hi : i < (MultibootInfo.modsCount s.mem mbi).toNat)
      (h : InSpan (moduleImage s.mem mbi i) (moduleBytes s.mem mbi i).toNat x)
  | line (i : ℕ) (hi : i < (MultibootInfo.modsCount s.mem mbi).toNat)
      (h : InString s.mem (moduleCmdline s.mem (moduleEntry s.mem mbi i)) x)
  | map (h : InSpan (MultibootInfo.mmapAddr s.mem mbi) (MultibootInfo.mmapLength s.mem mbi).toNat x)
  | heap (h : InSpan s.heapBase (s.heapTops - s.heapBase).toNat x)

/-- A byte of a slot behind the records that overlaps nothing listed. -/
def Unlisted (s : Machine) (mbi x : BitVec 32) : Prop :=
  ∃ i, (MultibootInfo.modsCount s.mem mbi).toNat ≤ i ∧ InSpan (moduleEntry s.mem mbi i) moduleSize x ∧
    ∀ y, InSpan (moduleEntry s.mem mbi i) moduleSize y → ¬ Listed s mbi y

/-- The same heap, and a memory that differs in such slots only. -/
structure DifferUnlisted (s s' : Machine) (mbi : BitVec 32) : Prop where
  heapBase : s.heapBase = s'.heapBase
  heapCurrent : s.heapCurrent = s'.heapCurrent
  heapTops : s.heapTops = s'.heapTops
  mem : ∀ x, s.mem x ≠ s'.mem x → Unlisted s mbi x

/-- The same decision, and the same boot parameters. -/
def SameLaunch : Option (Machine × Option Boot) → Option (Machine × Option Boot) → Prop
  | none, none => True
  | some (_, none), some (_, none) => True
  | some (s, some b), some (s', some b') =>
    b = b' ∧ Memory.Same s.mem b.bootParams s'.mem b.bootParams BootParams.size
  | _, _ => False

/-- The records of the map that the search for the place of an initrd goes over. -/
def ReadSearch (m : Memory 32) (mbi x : BitVec 32) : Prop :=
  ∃ i < (recordsOf m mbi).length, InSpan (mapEntry (MultibootInfo.mmapAddr m mbi) i) memoryMapSize x

/-- What is read once the header is complete, beside the information and the header: the pointer to
the command line, the line, the map and the boot parameters. -/
inductive ReadLast (s : Machine) (mbi hdr initrdImage n x : BitVec 32) : Prop
  | pointer (h : InSpan (getMbiModule (completedMem s mbi hdr initrdImage n) mbi MVMLINUZ + 8) 4 x)
  | line (h : InString (completedMem s mbi hdr initrdImage n)
      (kernelLine (completedMem s mbi hdr initrdImage n) mbi) x)
  | map (length : ℕ) (hlength : strlen (completedMem s mbi hdr initrdImage n)
        (kernelLine (completedMem s mbi hdr initrdImage n) mbi) addressSpace = some length)
      (i : ℕ) (hi : i < bootRounds (headedMem s mbi hdr initrdImage n length) mbi s.heapCurrent)
      (h : InSpan (mapEntry (MultibootInfo.mmapAddr (headedMem s mbi hdr initrdImage n length) mbi) i)
        memoryMapSize x)
  | params (h : InSpan s.heapCurrent BootParams.size x)

/-- The place of the initrd in the end. -/
def InTarget (s : Machine) (mbi hdr initrdImage n x : BitVec 32) : Prop :=
  InSpan (initrdTarget s mbi hdr initrdImage n).1 (initrdTarget s mbi hdr initrdImage n).2.toNat x

/-- What is read after the first stores is not in a slot behind the array, unless the copy of the
initrd has been there. -/
structure ReadsListed (s : Machine) (mbi : BitVec 32) : Prop where
  search : WithInitrd (givenInitrd s.mem mbi).1 (givenInitrd s.mem mbi).2 →
    ∀ x, ReadSearch (readyMem s (kernelImage s.mem mbi)) mbi x → ¬ Unlisted s mbi x
  last : ∀ x, ReadLast s mbi (kernelImage s.mem mbi) (givenInitrd s.mem mbi).1
      (givenInitrd s.mem mbi).2 x → Unlisted s mbi x →
    InTarget s mbi (kernelImage s.mem mbi) (givenInitrd s.mem mbi).1 (givenInitrd s.mem mbi).2 x

/-- Two machines that are equal on the addresses that are seen. -/
structure Alike (seen : Set (BitVec 32)) (s s' : Machine) : Prop where
  mem : Set.EqOn s.mem s'.mem seen
  heapBase : s.heapBase = s'.heapBase
  heapCurrent : s.heapCurrent = s'.heapCurrent
  heapTops : s.heapTops = s'.heapTops

namespace Alike
variable {seen : Set (BitVec 32)} {s s' : Machine} {hdr linuxSize n : BitVec 32}

theorem put (h : Alike seen s s') {bits : ℕ} (p : BitVec 32) (o : ℕ) (v : BitVec bits) :
    Alike seen (s.put p o v) (s'.put p o v) :=
  ⟨Memory.eqOn_setField h.mem p o v, h.heapBase, h.heapCurrent, h.heapTops⟩

theorem field (h : Alike seen s s') {p : BitVec 32} {k : ℕ} (hp : ∀ x, InSpan p k x → x ∈ seen)
    (bits o : ℕ) (ho : o + bits / 8 ≤ k) (hk : k ≤ 2 ^ 32) :
    s.mem.field bits p o = s'.mem.field bits p o :=
  Memory.field_of_eqOn h.mem hp ho hk

theorem allocate (h : Alike seen s s') (n : BitVec 32) :
    (allocateMemory s n).2 = (allocateMemory s' n).2 ∧
      Alike seen (allocateMemory s n).1 (allocateMemory s' n).1 := by
  unfold allocateMemory
  rw [← h.heapCurrent]
  by_cases hlt : s.heapTops < s.heapCurrent + n
  · rw [reserve_refused _ _ _ hlt, reserve_refused _ _ _ (h.heapTops ▸ hlt)]
    exact ⟨rfl, h⟩
  · rw [reserve_served _ _ _ hlt, reserve_served _ _ _ (h.heapTops ▸ hlt)]
    exact ⟨rfl, Memory.eqOn_fill h.mem _ _ _, h.heapBase, rfl, h.heapTops⟩

/-- The header is read only if the file is long enough to hold it. -/
theorem prepareHeader (h : Alike seen s s')
    (hhdr : SetupHeader.kernelHeaderSize ≤ linuxSize.toNat →
      ∀ x, InSpan hdr SetupHeader.kernelHeaderSize x → x ∈ seen) :
    (prepareHeader s hdr linuxSize).2 = (prepareHeader s' hdr linuxSize).2 ∧
      Alike seen (prepareHeader s hdr linuxSize).1 (prepareHeader s' hdr linuxSize).1 := by
  unfold IkgtLoader.prepareHeader
  by_cases hargs : hdr = NULL ∨ linuxSize = 0 ∨
      linuxSize < BitVec.ofNat 32 SetupHeader.kernelHeaderSize
  · rw [if_pos hargs, if_pos hargs]
    exact ⟨rfl, h⟩
  rw [if_neg hargs, if_neg hargs]
  rw [not_or, not_or, BitVec.lt_def] at hargs
  have hseen := hhdr (Nat.le_of_not_lt hargs.2.2)
  have hread : ∀ {t t' : Machine}, Alike seen t t' → ∀ bits o,
      o + bits / 8 ≤ SetupHeader.kernelHeaderSize →
      t'.mem.field bits hdr o = t.mem.field bits hdr o :=
    fun ht bits o ho => (ht.field hseen bits o ho (by decide)).symm
  have hsects : Alike seen
      (if s.mem.field 8 hdr SetupHeader.setupSects = 0 then
        s.put hdr SetupHeader.setupSects DEFAULT_SECTOR_NUM else s)
      (if s'.mem.field 8 hdr SetupHeader.setupSects = 0 then
        s'.put hdr SetupHeader.setupSects DEFAULT_SECTOR_NUM else s') := by
    rw [hread h 8 _ (by decide)]
    split
    · exact h.put _ _ _
    · exact h
  generalize (if s.mem.field 8 hdr SetupHeader.setupSects = 0 then
    s.put hdr SetupHeader.setupSects DEFAULT_SECTOR_NUM else s) = t at hsects ⊢
  generalize (if s'.mem.field 8 hdr SetupHeader.setupSects = 0 then
    s'.put hdr SetupHeader.setupSects DEFAULT_SECTOR_NUM else s') = t' at hsects ⊢
  dsimp only
  rw [hread hsects 8 _ (by decide), hread hsects 32 SetupHeader.header (by decide),
    hread hsects 8 SetupHeader.loadflags (by decide),
    hread hsects 32 SetupHeader.cmdlineSize (by decide)]
  split
  · exact ⟨rfl, hsects⟩
  obtain ⟨hblock, halloc⟩ := hsects.allocate
    (BitVec.ofNat 32 BootParams.size + t.mem.field 32 hdr SetupHeader.cmdlineSize)
  generalize allocateMemory t _ = r at hblock halloc ⊢
  generalize allocateMemory t' _ = r' at hblock halloc ⊢
  obtain ⟨u, bootParams⟩ := r
  obtain ⟨u', bootParams'⟩ := r'
  obtain rfl : bootParams = bootParams' := hblock
  dsimp only at halloc ⊢
  split
  · exact ⟨rfl, halloc⟩
  have hptr := halloc.put hdr SetupHeader.cmdLinePtr (bootParams + BitVec.ofNat 32 BootParams.size)
  rw [hread hptr 16 _ (by decide), hread hptr 32 _ (by decide)]
  split
  · exact ⟨rfl, hptr⟩
  have htype := hptr.put hdr SetupHeader.typeOfLoader GRUB_LINUX_BOOT_LOADER_TYPE
  rw [hread htype 8 _ (by decide)]
  exact ⟨rfl, htype.put _ _ _⟩

end Alike

theorem InString.succ {m : Memory 32} {a x : BitVec 32} (ha : m a ≠ 0) (hx : InString m (a + 1) x) :
    InString m a x := by
  obtain ⟨k, rfl, hk⟩ := hx
  refine ⟨k + 1, (Memory.add_ofNat_succ a k).symm, fun j hj => ?_⟩
  cases j with
  | zero => simpa using ha
  | succ j =>
    rw [Memory.add_ofNat_succ]
    exact hk j (by omega)

theorem InString.of_zero {m : Memory 32} {a x : BitVec 32} (ha : m a = 0) (hx : InString m a x) :
    x = a := by
  obtain ⟨k, rfl, hk⟩ := hx
  cases k with
  | zero => exact BitVec.add_zero a
  | succ k => exact absurd ((congrArg m (BitVec.add_zero a)).trans ha) (hk 0 k.succ_pos)

/-- The length depends on the bytes of the string only, also if it has no end. -/
theorem strlen_of_inString {m m' : Memory 32} {a : BitVec 32} {fuel : ℕ}
    (h : ∀ x, InString m a x → m' x = m x) : strlen m' a fuel = strlen m a fuel := by
  induction fuel generalizing a with
  | zero => rfl
  | succ fuel ih =>
    have hfirst : m' a = m a := h a ⟨0, by simp, fun j hj => absurd hj (Nat.not_lt_zero j)⟩
    unfold strlen
    rw [hfirst]
    split
    · rfl
    next hne => rw [ih fun x hx => h x (hx.succ hne)]

/-- The bytes before the zero. -/
theorem inString_of_strlen {m : Memory 32} {a x : BitVec 32} {fuel length : ℕ}
    (h : strlen m a fuel = some length) (hx : InSpan a length x) : InString m a x := by
  induction fuel generalizing a length with
  | zero => cases h
  | succ fuel ih =>
    unfold strlen at h
    split at h
    · cases h
      exact absurd hx (not_inSpan_zero a x)
    next hne =>
      obtain ⟨k, hk, rfl⟩ := Option.map_eq_some_iff.mp h
      rcases inSpan_succ.mp hx with rfl | hx
      · exact ⟨0, by simp, fun j hj => absurd hj (Nat.not_lt_zero j)⟩
      · exact (ih hk hx).succ hne

section alike
variable {seen : Set (BitVec 32)} {m m' : Memory 32} {mbi hdr bootParams mmap : BitVec 32}

/-- The information, in two memories that are equal there. -/
theorem mbi_of_eqOn (h : Set.EqOn m m' seen) (hinfo : ∀ x, InSpan mbi MultibootInfo.span x → x ∈ seen)
    {o : ℕ} (ho : o + 32 / 8 ≤ MultibootInfo.span) : m'.field 32 mbi o = m.field 32 mbi o :=
  (Memory.field_of_eqOn h hinfo ho (by decide)).symm

theorem getMbiModule_of_eqOn (h : Set.EqOn m m' seen)
    (hinfo : ∀ x, InSpan mbi MultibootInfo.span x → x ∈ seen) (k : BitVec 32) :
    getMbiModule m' mbi k = getMbiModule m mbi k := by
  have hcount : MultibootInfo.modsCount m' mbi = MultibootInfo.modsCount m mbi :=
    mbi_of_eqOn h hinfo (by decide)
  have haddr : MultibootInfo.modsAddr m' mbi = MultibootInfo.modsAddr m mbi :=
    mbi_of_eqOn h hinfo (by decide)
  unfold getMbiModule
  rw [hcount, haddr]

/-- The records of the map, in two memories that are equal there. -/
theorem recordsOf_of_eqOn (h : Set.EqOn m m' seen)
    (hinfo : ∀ x, InSpan mbi MultibootInfo.span x → x ∈ seen)
    (hmap : ∀ x, ReadSearch m mbi x → x ∈ seen) : recordsOf m' mbi = recordsOf m mbi := by
  have hlength : MultibootInfo.mmapLength m' mbi = MultibootInfo.mmapLength m mbi :=
    mbi_of_eqOn h hinfo (by decide)
  have haddr : MultibootInfo.mmapAddr m' mbi = MultibootInfo.mmapAddr m mbi :=
    mbi_of_eqOn h hinfo (by decide)
  unfold recordsOf
  rw [hlength, haddr]
  apply List.map_congr_left
  intro i hin
  apply (readMap_congr (Memory.same_of_eqOn h _ (by decide))).symm
  intro x hx
  refine hmap x ⟨i, ?_, hx⟩
  rw [length_recordsOf]
  exact List.mem_range.mp hin

theorem setupScreen_eqOn (h : Set.EqOn m m' seen) (bootParams : BitVec 32) :
    Set.EqOn (setupScreen m bootParams) (setupScreen m' bootParams) seen := by
  unfold setupScreen
  iterate 8 apply Memory.eqOn_setField
  exact h

variable (bootParams) in
/-- One round, with the record of either memory. -/
theorem bootMapStep_rel (c : ℕ) {i : ℕ} {mmap : BitVec 32} (h : Set.EqOn m m' seen)
    (hmap : ∀ x, InSpan (mapEntry mmap i) memoryMapSize x → x ∈ seen) :
    (bootMapStep bootParams mmap i (m, c)).Rel (fun s t => Set.EqOn s.1 t.1 seen ∧ s.2 = t.2)
      (bootMapStep bootParams mmap i (m', c)) := by
  have hread : ∀ {u u' : Memory 32}, Set.EqOn u u' seen →
      readMap u (mapEntry mmap i) = readMap u' (mapEntry mmap i) :=
    fun hu => readMap_congr (Memory.same_of_eqOn hu hmap (by decide))
  refine ⟨?_, rfl⟩
  dsimp only
  rw [hread h]
  have haddr := Memory.eqOn_setField h (bootParams + BitVec.ofNat 32 (BootParams.e820Map +
    i * BootParams.e820EntrySize)) 0 (readMap m' (mapEntry mmap i)).addr
  rw [hread haddr]
  have hlen := Memory.eqOn_setField haddr (bootParams + BitVec.ofNat 32 (BootParams.e820Map +
    i * BootParams.e820EntrySize)) 8 (readMap (m'.setField (bootParams + BitVec.ofNat 32
      (BootParams.e820Map + i * BootParams.e820EntrySize)) 0 (readMap m' (mapEntry mmap i)).addr)
        (mapEntry mmap i)).len
  rw [hread hlen]
  exact Memory.eqOn_setField hlen _ _ _

/-- The loop over the map, with the records of either memory. -/
theorem bootMapLoop_eqOn {fuel i : ℕ} (h : Set.EqOn m m' seen)
    (hinfo : ∀ x, InSpan mbi MultibootInfo.span x → x ∈ seen)
    (hmap : ∀ j, i ≤ j → j < (bootMapLoop mbi bootParams mmap fuel i m).state.2 →
      ∀ x, InSpan (mapEntry mmap j) memoryMapSize x → x ∈ seen) :
    (bootMapLoop mbi bootParams mmap fuel i m).Rel (fun s t => Set.EqOn s.1 t.1 seen ∧ s.2 = t.2)
      (bootMapLoop mbi bootParams mmap fuel i m') := by
  have hlength : MultibootInfo.mmapLength m' mbi = MultibootInfo.mmapLength m mbi :=
    mbi_of_eqOn h hinfo (by decide)
  induction fuel generalizing i m m' with
  | zero =>
    unfold bootMapLoop run
    rw [hlength]
    split
    · exact ⟨h, rfl⟩
    · exact ⟨h, rfl⟩
  | succ fuel ih =>
    by_cases hlt : i < (MultibootInfo.mmapLength m mbi).toNat / memoryMapSize
    · obtain ⟨u, hu, _⟩ := bootMapStep_writes bootParams mmap i (m, i)
      obtain ⟨u', hu', _⟩ := bootMapStep_writes bootParams mmap i (m', i)
      have hnext : bootMapLoop mbi bootParams mmap (fuel + 1) i m =
          bootMapLoop mbi bootParams mmap fuel (i + 1) u := by
        unfold bootMapLoop
        rw [run, if_pos hlt, hu]
      have hnext' : bootMapLoop mbi bootParams mmap (fuel + 1) i m' =
          bootMapLoop mbi bootParams mmap fuel (i + 1) u' := by
        unfold bootMapLoop
        rw [run, hlength, if_pos hlt, hu']
      rw [hnext] at hmap ⊢
      rw [hnext']
      -- the round is one of those that are made
      have hrel := bootMapStep_rel bootParams i h (hmap i le_rfl (Nat.lt_of_succ_le bootMapLoop_le))
      rw [hu, hu'] at hrel
      exact ih hrel.1 (fun j hj => hmap j (Nat.le_of_succ_le hj))
        (mbi_of_eqOn hrel.1 hinfo (by decide))
    · unfold bootMapLoop
      rw [run, if_neg hlt, run, hlength, if_neg hlt]
      exact ⟨h, rfl⟩

theorem setupBootParams_eqOn (h : Set.EqOn m m' seen)
    (hinfo : ∀ x, InSpan mbi MultibootInfo.span x → x ∈ seen)
    (hheader : ∀ x, InSpan hdr SetupHeader.kernelHeaderSize x → x ∈ seen)
    (hmap : ∀ i < bootRounds (m.copy (bootParams + BitVec.ofNat 32 SetupHeader.setupSects)
        (hdr + BitVec.ofNat 32 SetupHeader.setupSects) SetupHeader.size) mbi bootParams,
      ∀ x, InSpan (mapEntry (MultibootInfo.mmapAddr (m.copy
        (bootParams + BitVec.ofNat 32 SetupHeader.setupSects)
        (hdr + BitVec.ofNat 32 SetupHeader.setupSects) SetupHeader.size) mbi) i) memoryMapSize x →
          x ∈ seen) :
    (setupBootParams m mbi bootParams hdr).2 = (setupBootParams m' mbi bootParams hdr).2 ∧
      Set.EqOn (setupBootParams m mbi bootParams hdr).1 (setupBootParams m' mbi bootParams hdr).1
        seen := by
  have hsrc : ∀ x, InSpan (hdr + BitVec.ofNat 32 SetupHeader.setupSects) SetupHeader.size x →
      x ∈ seen := fun x hx => hheader x (hx.of_offset (by decide) (by decide))
  have hcopy := Memory.eqOn_copy h hsrc (bootParams + BitVec.ofNat 32 SetupHeader.setupSects)
  unfold setupBootParams
  unfold bootRounds at hmap
  dsimp only
  generalize m.copy _ _ _ = u at hcopy hmap ⊢
  generalize m'.copy _ _ _ = u' at hcopy ⊢
  have hflags : MultibootInfo.flags u' mbi = MultibootInfo.flags u mbi :=
    mbi_of_eqOn hcopy hinfo (by decide)
  have haddr : MultibootInfo.mmapAddr u' mbi = MultibootInfo.mmapAddr u mbi :=
    mbi_of_eqOn hcopy hinfo (by decide)
  rw [hflags, haddr]
  split
  · exact ⟨rfl, hcopy⟩
  refine ⟨rfl, ?_⟩
  obtain ⟨hmem, hcount⟩ := (bootMapLoop_eqOn hcopy hinfo fun j _ => hmap j).state
  rw [hcount]
  exact setupScreen_eqOn (Memory.eqOn_setField hmem _ _ _) _

/-- What is seen when the last part begins with the complete header in `m`. -/
structure LastSeen (seen : Set (BitVec 32)) (m : Memory 32) (mbi hdr bootParams : BitVec 32) :
    Prop where
  info : ∀ x, InSpan mbi MultibootInfo.span x → x ∈ seen
  header : ∀ x, InSpan hdr SetupHeader.kernelHeaderSize x → x ∈ seen
  params : ∀ x, InSpan bootParams BootParams.size x → x ∈ seen
  pointer : ∀ x, InSpan (getMbiModule m mbi MVMLINUZ + 8) 4 x → x ∈ seen
  line : ∀ x, InString m (kernelLine m mbi) x → x ∈ seen
  map : ∀ length, strlen m (kernelLine m mbi) addressSpace = some length → ∀ u : Memory 32,
    (m.copy (m.field 32 hdr SetupHeader.cmdLinePtr) (kernelLine m mbi) length).copy
      (bootParams + BitVec.ofNat 32 SetupHeader.setupSects)
      (hdr + BitVec.ofNat 32 SetupHeader.setupSects) SetupHeader.size = u →
    ∀ i < bootRounds u mbi bootParams,
      ∀ x, InSpan (mapEntry (MultibootInfo.mmapAddr u mbi) i) memoryMapSize x → x ∈ seen

theorem finishedHeader_eqOn (h : Set.EqOn m m' seen) (hdr base ramdiskImage ramdiskSize : BitVec 32) :
    Set.EqOn (finishedHeader m hdr base ramdiskImage ramdiskSize)
      (finishedHeader m' hdr base ramdiskImage ramdiskSize) seen := by
  unfold finishedHeader
  iterate 4 apply Memory.eqOn_setField
  exact h

/-- The command line is looked up in the same place. -/
theorem LastSeen.kernelLine (hs : LastSeen seen m mbi hdr bootParams) (h : Set.EqOn m m' seen) :
    kernelLine m' mbi = kernelLine m mbi := by
  unfold IkgtLoader.kernelLine moduleCmdline
  rw [getMbiModule_of_eqOn h hs.info]
  exact Memory.field_of_unchanged (fun x hx => (h (hs.pointer x hx)).symm) (by decide)

/-- The last part, on two memories that are equal where it reads. -/
theorem finishLinux_same {s s' : Machine} {base ramdiskImage ramdiskSize : BitVec 32}
    (h : Set.EqOn s.mem s'.mem seen)
    (hs : LastSeen seen (finishedHeader s.mem hdr base ramdiskImage ramdiskSize) mbi hdr bootParams) :
    SameLaunch (finishLinux s mbi hdr bootParams base ramdiskImage ramdiskSize)
      (finishLinux s' mbi hdr bootParams base ramdiskImage ramdiskSize) := by
  have hdone := finishedHeader_eqOn h hdr base ramdiskImage ramdiskSize
  have hptr : (finishedHeader s.mem hdr base ramdiskImage ramdiskSize).field 32 hdr
      SetupHeader.cmdLinePtr = s.mem.field 32 hdr SetupHeader.cmdLinePtr := finishedHeader_cmdLinePtr
  have hmax : s.mem.field 32 hdr SetupHeader.cmdlineSize =
      s'.mem.field 32 hdr SetupHeader.cmdlineSize :=
    Memory.field_of_eqOn h hs.header (by decide) (by decide)
  have hptr' : s.mem.field 32 hdr SetupHeader.cmdLinePtr =
      s'.mem.field 32 hdr SetupHeader.cmdLinePtr :=
    Memory.field_of_eqOn h hs.header (by decide) (by decide)
  rw [finishLinux_eq, finishLinux_eq, ← hmax, ← hptr', ← hptr]
  generalize finishedHeader s.mem hdr base ramdiskImage ramdiskSize = m at hs hdone ⊢
  generalize finishedHeader s'.mem hdr base ramdiskImage ramdiskSize = m' at hdone ⊢
  rw [hs.kernelLine hdone, strlen_of_inString fun x hx => (hdone (hs.line x hx)).symm]
  cases hlength : strlen m (kernelLine m mbi) addressSpace with
  | none => trivial
  | some length =>
    dsimp only
    split
    · trivial
    have hcopy := Memory.eqOn_copy hdone (fun x hx => hs.line x (inString_of_strlen hlength hx))
      (m.field 32 hdr SetupHeader.cmdLinePtr)
    obtain ⟨hset, hmem⟩ := setupBootParams_eqOn hcopy hs.info hs.header (hs.map length hlength _ rfl)
    generalize setupBootParams (m.copy _ _ _) _ _ _ = r at hset hmem ⊢
    generalize setupBootParams (m'.copy _ _ _) _ _ _ = r' at hset hmem ⊢
    obtain ⟨v, ok⟩ := r
    obtain ⟨v', ok'⟩ := r'
    obtain rfl : ok = ok' := hset
    cases ok with
    | false => trivial
    | true =>
      refine ⟨?_, Memory.same_of_eqOn hmem hs.params (by decide)⟩
      rw [Memory.field_of_eqOn hmem hs.params (by decide) (by decide)]

end alike

section launch
variable {seen : Set (BitVec 32)} {s s' : Machine} {mbi linuxImage linuxSize initrdImage n : BitVec 32}

/-- The place of the initrd is seen from its copy on. -/
theorem lastSeen_completedMem (hinfo : ∀ x, InSpan mbi MultibootInfo.span x → x ∈ seen)
    (hheader : ∀ x, InSpan linuxImage SetupHeader.kernelHeaderSize x → x ∈ seen)
    (hlast : ∀ x, ReadLast s mbi linuxImage initrdImage n x →
      x ∈ seen ∨ InTarget s mbi linuxImage initrdImage n x) :
    LastSeen (seen ∪ {x | InTarget s mbi linuxImage initrdImage n x})
      (completedMem s mbi linuxImage initrdImage n) mbi linuxImage s.heapCurrent := by
  have hptr : (completedMem s mbi linuxImage initrdImage n).field 32 linuxImage
      SetupHeader.cmdLinePtr = (laidMem s mbi linuxImage initrdImage n).field 32 linuxImage
        SetupHeader.cmdLinePtr := finishedHeader_cmdLinePtr
  refine ⟨fun x hx => .inl (hinfo x hx), fun x hx => .inl (hheader x hx),
    fun x hx => hlast x (.params hx), fun x hx => hlast x (.pointer hx),
    fun x hx => hlast x (.line hx), ?_⟩
  rw [hptr]
  rintro length hlength u rfl i hi x hx
  exact hlast x (.map length hlength i hi hx)

/-- The last part, once it is known where the initrd goes. -/
theorem finishLinux_laid {s₁ s₁' t t' : Machine} {p : LinuxSetup} {base size : BitVec 32}
    (hready : Prepared s linuxImage linuxSize s₁ p) (h : Set.EqOn s₁.mem s₁'.mem seen)
    (hfinal : LastSeen (seen ∪ {x | InTarget s mbi linuxImage initrdImage n x})
      (completedMem s mbi linuxImage initrdImage n) mbi linuxImage s.heapCurrent)
    (ht : t.mem = s₁.mem.copy base initrdImage size.toNat)
    (ht' : t'.mem = s₁'.mem.copy base initrdImage size.toNat)
    (htarget : initrdTarget s mbi linuxImage initrdImage n = (base, size))
    (hsrc : ∀ x, InSpan initrdImage size.toNat x → x ∈ seen) :
    SameLaunch
      (finishLinux t mbi linuxImage p.bootParams (linuxImage + p.realModeSize) base size)
      (finishLinux t' mbi linuxImage p.bootParams (linuxImage + p.realModeSize) base size) := by
  have hplace : {x | InTarget s mbi linuxImage initrdImage n x} = {x | InSpan base size.toNat x} := by
    unfold InTarget
    rw [htarget]
  apply finishLinux_same
  · rw [ht, ht']
    exact Memory.eqOn_copy_union h hsrc base
  · rw [ht, hready.laid htarget, hready.kernelEntry, hready.bootParams, ← hplace]
    rw [completedMem, htarget] at hfinal
    exact hfinal

/-- The place of the initrd depends on the map and one field of the header. -/
theorem Alike.findInitrdBase (h : Alike seen s s')
    (hinfo : ∀ x, InSpan mbi MultibootInfo.span x → x ∈ seen)
    (hheader : ∀ x, InSpan linuxImage SetupHeader.kernelHeaderSize x → x ∈ seen)
    (hsearch : ∀ x, ReadSearch s.mem mbi x → x ∈ seen) :
    findInitrdBase s'.mem mbi linuxImage n = findInitrdBase s.mem mbi linuxImage n := by
  unfold IkgtLoader.findInitrdBase
  rw [getHighestSizedRam_eq, getHighestSizedRam_eq, recordsOf_of_eqOn h.mem hinfo hsearch,
    h.field hheader 32 SetupHeader.initrdAddrMax (by decide) (by decide)]

/-- The header is seen as far as the file holds it. -/
theorem Alike.expandLinuxImage (h : Alike seen s s')
    (hinfo : ∀ x, InSpan mbi MultibootInfo.span x → x ∈ seen)
    (hheader : SetupHeader.kernelHeaderSize ≤ linuxSize.toNat →
      ∀ x, InSpan linuxImage SetupHeader.kernelHeaderSize x → x ∈ seen)
    (himage : ∀ x, InSpan initrdImage n.toNat x → x ∈ seen)
    (hsearch : WithInitrd initrdImage n → ∀ x, ReadSearch (readyMem s linuxImage) mbi x → x ∈ seen)
    (hlast : ∀ x, ReadLast s mbi linuxImage initrdImage n x →
      x ∈ seen ∨ InTarget s mbi linuxImage initrdImage n x) :
    SameLaunch (expandLinuxImage s mbi linuxImage linuxSize initrdImage n)
      (expandLinuxImage s' mbi linuxImage linuxSize initrdImage n) := by
  obtain ⟨hsetup, halike⟩ := h.prepareHeader hheader
  unfold IkgtLoader.expandLinuxImage
  cases hp : IkgtLoader.prepareHeader s linuxImage linuxSize with
  | mk s₁ o =>
    cases hp' : IkgtLoader.prepareHeader s' linuxImage linuxSize with
    | mk s₁' o' =>
      rw [hp, hp'] at hsetup halike
      obtain rfl : o = o' := hsetup
      dsimp only at halike ⊢
      cases o with
      | none => trivial
      | some p =>
        have hready := prepareHeader_prepared hp
        have hheader := hheader hready.size
        have hfinal := lastSeen_completedMem hinfo hheader hlast
        have hrel := halike.field hheader 8 SetupHeader.relocatableKernel (by decide) (by decide)
        dsimp only
        rw [← hrel]
        by_cases hw : WithInitrd initrdImage n
        · rw [if_pos hw, if_pos hw,
            halike.findInitrdBase hinfo hheader (hready.mem ▸ hsearch hw)]
          cases hfound : IkgtLoader.findInitrdBase s₁.mem mbi linuxImage n with
          | none => trivial
          | some base =>
            dsimp only
            split
            · trivial
            split
            · trivial
            apply finishLinux_laid hready halike.mem hfinal rfl rfl _ himage
            unfold initrdTarget
            rw [if_pos hw, ← hready.mem, hfound, Option.getD_some]
        · rw [if_neg hw, if_neg hw]
          split
          · trivial
          apply finishLinux_laid hready halike.mem hfinal rfl rfl (if_neg hw)
          exact fun x hx => absurd hx (not_inSpan_zero _ _)

theorem Listed.not_unlisted {x : BitVec 32} (h : Listed s mbi x) : ¬ Unlisted s mbi x :=
  fun ⟨_, _, hin, hout⟩ => hout x hin h

theorem DifferUnlisted.alike (h : DifferUnlisted s s' mbi) : Alike {x | ¬ Unlisted s mbi x} s s' := by
  refine ⟨fun x hx => ?_, h.heapBase, h.heapCurrent, h.heapTops⟩
  by_contra hne
  exact hx (h.mem x hne)

/-- The modules are those of the array. -/
theorem getMbiModule_eq {mem : Memory 32} {k : BitVec 32}
    (hzero : MultibootInfo.modsCount mem mbi ≠ 0) (hk : ¬ MultibootInfo.modsCount mem mbi < k) :
    getMbiModule mem mbi k = moduleEntry mem mbi k.toNat := by
  unfold getMbiModule moduleEntry
  rw [if_neg hzero, if_neg hk, BitVec.ofNat_mul, BitVec.ofNat_toNat, BitVec.setWidth_eq]

theorem launchLinuxKernel_eq (s : Machine) (mbi : BitVec 32) :
    launchLinuxKernel s mbi = if getMbiModule s.mem mbi MVMLINUZ = NULL then some (s, none) else
      expandLinuxImage s mbi (kernelImage s.mem mbi)
        (moduleEnd s.mem (getMbiModule s.mem mbi MVMLINUZ) - kernelImage s.mem mbi)
        (givenInitrd s.mem mbi).1 (givenInitrd s.mem mbi).2 := by
  unfold launchLinuxKernel givenInitrd kernelImage
  dsimp only
  split
  · rfl
  · split <;> rfl

/-- The records of the kernel and of the initrd are the first two of the array. -/
theorem getMbiModule_of_two (htwo : 2 ≤ (MultibootInfo.modsCount s.mem mbi).toNat) :
    getMbiModule s.mem mbi MVMLINUZ = moduleEntry s.mem mbi 0 ∧
      getMbiModule s.mem mbi MINITRD = moduleEntry s.mem mbi 1 := by
  have hzero : MultibootInfo.modsCount s.mem mbi ≠ 0 := by
    intro h
    rw [h] at htwo
    exact absurd htwo (by decide)
  constructor
  · apply getMbiModule_eq hzero
    rw [BitVec.lt_def]
    exact Nat.not_lt_zero _
  · apply getMbiModule_eq hzero
    rw [BitVec.lt_def]
    change ¬ _ < 1
    omega

/-- With a second record in the array, or no record at all, only what is listed is read. -/
theorem launchLinuxKernel_same (hcount : MultibootInfo.modsCount s.mem mbi ≠ 1)
    (hr : ReadsListed s mbi) (hd : DifferUnlisted s s' mbi) :
    SameLaunch (launchLinuxKernel s mbi) (launchLinuxKernel s' mbi) := by
  have ha := hd.alike
  have hinfo : ∀ x, InSpan mbi MultibootInfo.span x → ¬ Unlisted s mbi x :=
    fun x hx => (Listed.info hx).not_unlisted
  rw [launchLinuxKernel_eq, launchLinuxKernel_eq]
  unfold kernelImage givenInitrd
  dsimp only
  rw [getMbiModule_of_eqOn ha.mem hinfo, getMbiModule_of_eqOn ha.mem hinfo]
  by_cases hzero : MultibootInfo.modsCount s.mem mbi = 0
  · have hnull : getMbiModule s.mem mbi MVMLINUZ = NULL := if_pos hzero
    rw [if_pos hnull, if_pos hnull]
    trivial
  have htwo : 2 ≤ (MultibootInfo.modsCount s.mem mbi).toNat := by
    have h0 : (MultibootInfo.modsCount s.mem mbi).toNat ≠ (0 : BitVec 32).toNat :=
      BitVec.toNat_ne_iff_ne.mpr hzero
    have h1 : (MultibootInfo.modsCount s.mem mbi).toNat ≠ (1 : BitVec 32).toNat :=
      BitVec.toNat_ne_iff_ne.mpr hcount
    change _ ≠ 0 at h0
    change _ ≠ 1 at h1
    omega
  obtain ⟨hkernel, hinitrd⟩ := getMbiModule_of_two htwo
  have hsearch := hr.search
  have hlast := hr.last
  unfold kernelImage givenInitrd at hsearch hlast
  dsimp only at hsearch hlast
  rw [hkernel, hinitrd] at hsearch hlast ⊢
  -- the fields of a record of the array
  have hfield : ∀ i, i < (MultibootInfo.modsCount s.mem mbi).toNat → ∀ o, o + 32 / 8 ≤ moduleSize →
      s'.mem.field 32 (moduleEntry s.mem mbi i) o = s.mem.field 32 (moduleEntry s.mem mbi i) o :=
    fun i hi o ho => (ha.field (fun x hx => (Listed.record i hi hx).not_unlisted) 32 o ho
      (by decide)).symm
  unfold moduleStart moduleEnd at *
  rw [hfield 0 (by omega) 0 (by decide), hfield 0 (by omega) 4 (by decide),
    hfield 1 (by omega) 0 (by decide), hfield 1 (by omega) 4 (by decide)]
  split
  · trivial
  apply Alike.expandLinuxImage ha hinfo _ _ hsearch
  · intro x hx
    exact Classical.or_iff_not_imp_left.mpr fun hu => hlast x hx (not_not.mp hu)
  · exact fun hsize x hx => (Listed.contents 0 (by omega) (hx.mono hsize)).not_unlisted
  · split
    · exact fun x hx => absurd hx (not_inSpan_zero _ _)
    · exact fun x hx => (Listed.contents 1 (by omega) hx).not_unlisted

end launch

/-- What is claimed of the launch: it depends on what is listed only, and with one module there is no
initrd. -/
structure OnlyListedMatter (s : Machine) (mbi : BitVec 32) : Prop where
  same : ∀ s', DifferUnlisted s s' mbi →
    SameLaunch (launchLinuxKernel s mbi) (launchLinuxKernel s' mbi)
  alone : MultibootInfo.modsCount s.mem mbi = 1 → ∀ s' b,
    launchLinuxKernel s mbi = some (s', some b) → b.ramdiskImage = 0 ∧ b.ramdiskSize = 0

/-- The slot behind the record of the only module overlaps nothing listed, and with some contents of
it the kernel boots. -/
structure StrayBoots (s : Machine) (mbi : BitVec 32) : Prop where
  slot : moduleEntry s.mem mbi 1 ≠ NULL
  unlisted : ∀ x, InSpan (moduleEntry s.mem mbi 1) moduleSize x → ¬ Listed s mbi x
  boots : ∃ s₀ s' b, DifferUnlisted s s₀ mbi ∧ launchLinuxKernel s₀ mbi = some (s', some b)

/-- The memory with another start and end in the slot. -/
def withSlot (s : Machine) (slot slotStart slotEnd : BitVec 32) : Machine :=
  (s.put slot 0 slotStart).put slot 4 slotEnd

section stray
variable {s s' t : Machine} {mbi slot slotStart slotEnd : BitVec 32} {b : Boot}
  {l l' : Option (Machine × Option Boot)}

/-- The same launches boot with the same. -/
theorem SameLaunch.boots (h : SameLaunch l l') :
    (∃ t, l = some (t, some b)) ↔ ∃ t, l' = some (t, some b) := by
  rcases l with _ | ⟨t, _ | c⟩ <;> rcases l' with _ | ⟨t', _ | c'⟩
  case some.some.some.some =>
    obtain ⟨rfl, -⟩ := h
    simp
  all_goals simp [SameLaunch] at h ⊢

theorem withSlot_of_outside {x : BitVec 32} (hx : ¬ InSpan slot moduleSize x) :
    (withSlot s slot slotStart slotEnd).mem x = s.mem x := by
  unfold withSlot Machine.put
  dsimp only
  rw [Memory.setField_of_outside _ _ hx (by decide) (by decide),
    Memory.setField_of_outside _ _ hx (by decide) (by decide)]

/-- What the only record is followed by is taken for the record of an initrd. -/
theorem givenInitrd_withSlot (hcount : MultibootInfo.modsCount s.mem mbi = 1)
    (hslot : moduleEntry s.mem mbi 1 ≠ NULL)
    (hout : ∀ x, InSpan (moduleEntry s.mem mbi 1) moduleSize x → ¬ Listed s mbi x) :
    givenInitrd (withSlot s (moduleEntry s.mem mbi 1) slotStart slotEnd).mem mbi =
      (slotStart, slotEnd - slotStart) := by
  have hsame : Set.EqOn s.mem (withSlot s (moduleEntry s.mem mbi 1) slotStart slotEnd).mem
      {x | Listed s mbi x} :=
    fun x hx => (withSlot_of_outside fun hin => hout x hin hx).symm
  have hrecord : getMbiModule s.mem mbi MINITRD = moduleEntry s.mem mbi 1 := by
    apply getMbiModule_eq
    · rw [hcount]
      decide
    · rw [hcount]
      decide
  unfold givenInitrd
  dsimp only
  rw [getMbiModule_of_eqOn hsame (fun x hx => Listed.info hx), hrecord, if_neg hslot]
  unfold moduleStart moduleEnd withSlot Machine.put
  dsimp only
  rw [Memory.field_setField _ _ _ _ rfl (by decide),
    Memory.field_setField_of_ne _ _ (by decide) (by decide) (by decide),
    Memory.field_setField _ _ _ _ rfl (by decide)]

theorem launchLinuxKernel_ramdiskSize (h : launchLinuxKernel s mbi = some (s', some b)) :
    b.ramdiskSize = if WithInitrd (givenInitrd s.mem mbi).1 (givenInitrd s.mem mbi).2 then
      (givenInitrd s.mem mbi).2 else 0 := by
  rw [launchLinuxKernel_eq] at h
  split at h
  · cases h
  · obtain ⟨length, he⟩ := expandLinuxImage_expanded h
    exact he.ramdiskSize.trans (initrdTarget_size _ _ _ _ _)

/-- The slot decides how long the initrd is. -/
theorem StrayBoots.not_same (h : StrayBoots s mbi) (hcount : MultibootInfo.modsCount s.mem mbi = 1) :
    ¬ ∀ s', DifferUnlisted s s' mbi →
      SameLaunch (launchLinuxKernel s mbi) (launchLinuxKernel s' mbi) := by
  intro hsame
  obtain ⟨s₀, t, b, hdiffer, hboots⟩ := h.boots
  -- two initrds of different sizes, of which one is not what is booted
  have hsize : ∀ n : BitVec 32, n ≠ 0 → b.ramdiskSize = n := by
    intro n hn
    have hdiffer' : DifferUnlisted s (withSlot s (moduleEntry s.mem mbi 1) 1 (1 + n)) mbi := by
      refine ⟨rfl, rfl, rfl, fun x hne => ⟨1, ?_, ?_, h.unlisted⟩⟩
      · rw [hcount]
        decide
      · by_contra hout
        exact hne (withSlot_of_outside hout).symm
    obtain ⟨u, hu⟩ := (hsame _ hdiffer).boots.mpr ⟨t, hboots⟩
    obtain ⟨t', ht'⟩ := (hsame _ hdiffer').boots.mp ⟨u, hu⟩
    have hramdisk := launchLinuxKernel_ramdiskSize ht'
    rw [givenInitrd_withSlot hcount h.slot h.unlisted] at hramdisk
    have hdiff : 1 + n - 1 = n := by rw [BitVec.add_comm, BitVec.add_sub_cancel]
    dsimp only at hramdisk
    rwa [hdiff, if_pos ⟨by decide, hn⟩] at hramdisk
  exact absurd ((hsize 1 (by decide)).symm.trans (hsize 2 (by decide))) (by decide)

end stray

/-- A kernel of 612 bytes with an empty command line, and `slot` behind its record, the only one. -/
def loneMachine (slotStart slotEnd : BitVec 32) : Machine :=
  { roomyMachine with
    mem := (((roomyMachine.mem.setField 0x1380 4 (0x1264 : BitVec 32)).setField 0x1380 8
      (0x1400 : BitVec 32)).setField 0x1390 0 slotStart).setField 0x1390 4 slotEnd }

theorem loneMachine_zero (slotStart slotEnd : BitVec 32) {x p : BitVec 32} {k : ℕ}
    (hp : 0x3001 ≤ p.toNat) (hk : p.toNat + k ≤ 2 ^ 32) (hx : InSpan p k x) :
    (loneMachine slotStart slotEnd).mem x = 0 := by
  have hout : ¬ InSpan (0x1380 : BitVec 32) 0x20 x :=
    fun hin => apart_of_le (le_trans (by decide) hp) hk x hin hx
  have hslot : ¬ InSpan (0x1390 : BitVec 32) moduleSize x :=
    fun hin => apart_of_le (le_trans (by decide) hp) hk x hin hx
  unfold loneMachine
  dsimp only
  rw [Memory.setField_of_outside _ _ hslot (by decide) (by decide),
    Memory.setField_of_outside _ _ hslot (by decide) (by decide),
    Memory.setField_of_outside _ _ hout (by decide) (by decide),
    Memory.setField_of_outside _ _ hout (by decide) (by decide)]
  apply bootMachine_zero _ _ _ (le_trans (by decide) hp) hk hx
  exact fun hin => apart_of_le hp hk 0x3000 (inSpan_self.mpr (by decide : 0 < 1)) hin

/-- The boot loader tells of a kernel, of `count` modules and of a map; the slot behind the record of
the kernel holds the two bounds. -/
@[mk_iff]
structure ModulesAt (m : Memory 32) (count slotStart slotEnd : BitVec 32) : Prop where
  header : HeaderAt m 0x1000 0x2000
  count : MultibootInfo.modsCount m 0x1300 = count
  entry : moduleEntry m 0x1300 0 = 0x1380
  slot : moduleEntry m 0x1300 1 = 0x1390
  kernel : getMbiModule m 0x1300 MVMLINUZ = 0x1380
  initrd : getMbiModule m 0x1300 MINITRD = 0x1390
  start : moduleStart m 0x1380 = 0x1000
  stop : moduleEnd m 0x1380 = 0x1264
  slotStart : moduleStart m 0x1390 = slotStart
  slotEnd : moduleEnd m 0x1390 = slotEnd
  line : moduleCmdline m 0x1380 = 0x1400
  lineEnd : m 0x1400 = 0
  map : MultibootInfo.mmapAddr m 0x1300 = 0x1340
  mapBytes : MultibootInfo.mmapLength m 0x1300 = 24

instance (m : Memory 32) (count slotStart slotEnd : BitVec 32) :
    Decidable (ModulesAt m count slotStart slotEnd) :=
  decidable_of_iff _ (modulesAt_iff m count slotStart slotEnd).symm

section modulesAt
variable {m : Memory 32} {s : Machine} {count slotStart slotEnd : BitVec 32}

theorem ModulesAt.kernelImage (h : ModulesAt m count slotStart slotEnd) :
    kernelImage m 0x1300 = 0x1000 := by
  rw [IkgtLoader.kernelImage, h.kernel, h.start]

theorem ModulesAt.givenInitrd (h : ModulesAt m count slotStart slotEnd) :
    givenInitrd m 0x1300 = (slotStart, slotEnd - slotStart) := by
  unfold IkgtLoader.givenInitrd
  dsimp only
  rw [h.initrd, if_neg (by decide), h.slotStart, h.slotEnd]

/-- All of it stands in one page. -/
theorem ModulesAt.congr {m' : Memory 32} (h : ModulesAt m count slotStart slotEnd)
    (hsame : ∀ x, InSpan 0x1000 0x1000 x → m' x = m x) : ModulesAt m' count slotStart slotEnd := by
  have hfield : ∀ {p : BitVec 32} {bits o : ℕ}, 0x1000 ≤ (p + BitVec.ofNat 32 o).toNat →
      (p + BitVec.ofNat 32 o).toNat + bits / 8 ≤ 0x2000 → m'.field bits p o = m.field bits p o :=
    fun hp hk => Memory.field_of_unchanged (fun x hx => hsame x (hx.of_le hp hk (by decide)))
      (by omega)
  have hcount : MultibootInfo.modsCount m' 0x1300 = MultibootInfo.modsCount m 0x1300 :=
    hfield (by decide) (by decide)
  have haddr : MultibootInfo.modsAddr m' 0x1300 = MultibootInfo.modsAddr m 0x1300 :=
    hfield (by decide) (by decide)
  have hentry : ∀ i, moduleEntry m' 0x1300 i = moduleEntry m 0x1300 i := by
    intro i
    unfold moduleEntry
    rw [haddr]
  have hmodule : ∀ k, getMbiModule m' 0x1300 k = getMbiModule m 0x1300 k := by
    intro k
    unfold getMbiModule
    rw [hcount, haddr]
  obtain ⟨hsects, hmagic, hload, hversion, hline, hinit⟩ := h.header
  exact {
    header := ⟨(hfield (by decide) (by decide)).trans hsects,
      (hfield (by decide) (by decide)).trans hmagic, (hfield (by decide) (by decide)).trans hload,
      (hfield (by decide) (by decide)).trans hversion, (hfield (by decide) (by decide)).trans hline,
      (hfield (by decide) (by decide)).trans hinit⟩
    count := hcount.trans h.count
    entry := (hentry 0).trans h.entry
    slot := (hentry 1).trans h.slot
    kernel := (hmodule _).trans h.kernel
    initrd := (hmodule _).trans h.initrd
    start := (hfield (by decide) (by decide)).trans h.start
    stop := (hfield (by decide) (by decide)).trans h.stop
    slotStart := (hfield (by decide) (by decide)).trans h.slotStart
    slotEnd := (hfield (by decide) (by decide)).trans h.slotEnd
    line := (hfield (by decide) (by decide)).trans h.line
    lineEnd := (hsame 0x1400 (by decide)).trans h.lineEnd
    map := (hfield (by decide) (by decide)).trans h.map
    mapBytes := (hfield (by decide) (by decide)).trans h.mapBytes }

theorem ModulesAt.launch (h : ModulesAt s.mem count slotStart slotEnd) :
    launchLinuxKernel s 0x1300 =
      expandLinuxImage s 0x1300 0x1000 0x264 slotStart (slotEnd - slotStart) := by
  unfold launchLinuxKernel
  dsimp only
  rw [h.kernel, if_neg (by decide), h.initrd, if_neg (by decide), h.start, h.stop, h.slotStart,
    h.slotEnd]
  rfl

end modulesAt

example : MultibootInfo.modsCount (loneMachine 0 0).mem 0x1300 = 1 := by decide +kernel

theorem lone_modules : ModulesAt (loneMachine 0 0).mem 1 0 0 := by
  rw [loneMachine, roomyMachine, bootMachine_eq]
  decide +kernel

theorem lone_prepared : prepareHeader (loneMachine 0 0) 0x1000 0x264 =
    ({ loneMachine 0 0 with
        mem := preparedMem (loneMachine 0 0).mem 0x1000 0x8000, heapCurrent := 0x8000 + 0x1010 },
      some ⟨0x8000, 0x1010, 0x400, 0x2000⟩) :=
  lone_modules.header.prepareHeader (by decide) rfl rfl
    fun _ hx => loneMachine_zero 0 0 (by decide) (by decide) hx

section run
variable {s s₁ : Machine} {mbi linuxImage linuxSize initrdImage n : BitVec 32} {p : LinuxSetup}

theorem expandLinuxImage_without (hp : prepareHeader s linuxImage linuxSize = (s₁, some p))
    (hw : ¬ WithInitrd initrdImage n)
    (hrel : s₁.mem.field 8 linuxImage SetupHeader.relocatableKernel ≠ 0) :
    expandLinuxImage s mbi linuxImage linuxSize initrdImage n =
      finishLinux s₁ mbi linuxImage p.bootParams (linuxImage + p.realModeSize) 0 0 := by
  unfold expandLinuxImage
  rw [hp]
  dsimp only
  rw [if_neg hw, if_neg hrel]

end run

/-- With an empty slot the kernel is booted without an initrd. -/
theorem lone_launch : ∃ s₁ b, launchLinuxKernel (loneMachine 0 0) 0x1300 = some (s₁, some b) ∧
    b.ramdiskSize = 0 := by
  have hrel : (preparedMem (loneMachine 0 0).mem 0x1000 0x8000).field 8 0x1000
      SetupHeader.relocatableKernel ≠ 0 := by
    rw [loneMachine, roomyMachine, bootMachine_eq]
    decide +kernel
  have hrun : expandLinuxImage (loneMachine 0 0) 0x1300 0x1000 0x264 0 0 =
      finishLinux _ _ _ _ _ _ _ :=
    expandLinuxImage_without lone_prepared (by decide) hrel
  obtain ⟨s₁, b, h⟩ : ∃ s₁ b, expandLinuxImage (loneMachine 0 0) 0x1300 0x1000 0x264 0 0 =
      some (s₁, some b) := by
    rw [hrun]
    refine finishLinux_succeeds (?_ : _ = some 0) ?_ ?_
    all_goals
      rw [loneMachine, roomyMachine, bootMachine_eq]
      decide +kernel
  exact ⟨s₁, b, lone_modules.launch.trans h, (finishLinux_boot (hrun.symm.trans h)).2.2.1⟩

/-- The initrd that the slot tells of is booted. -/
theorem stray_launch : ∃ s₁ b, launchLinuxKernel (loneMachine 0x3000 0x3010) 0x1300 =
    some (s₁, some b) ∧ b.ramdiskImage = 0x200000 ∧ b.ramdiskSize = 16 := by
  obtain ⟨hmodules, hbase, hrel⟩ :
      ModulesAt (loneMachine 0x3000 0x3010).mem 1 0x3000 0x3010 ∧
      findInitrdBase (preparedMem (loneMachine 0x3000 0x3010).mem 0x1000 0x8000) 0x1300 0x1000 16 =
          some 0x200000 ∧
        (preparedMem (loneMachine 0x3000 0x3010).mem 0x1000 0x8000).field 8 0x1000
          SetupHeader.relocatableKernel ≠ 0 := by
    rw [loneMachine, roomyMachine, bootMachine_eq]
    decide +kernel
  have hprepared : prepareHeader (loneMachine 0x3000 0x3010) 0x1000 0x264 =
      ({ loneMachine 0x3000 0x3010 with
          mem := preparedMem (loneMachine 0x3000 0x3010).mem 0x1000 0x8000
          heapCurrent := 0x8000 + 0x1010 },
        some ⟨0x8000, 0x1010, 0x400, 0x2000⟩) :=
    hmodules.header.prepareHeader (by decide) rfl rfl
      fun _ hx => loneMachine_zero 0x3000 0x3010 (by decide) (by decide) hx
  have hrun : expandLinuxImage (loneMachine 0x3000 0x3010) 0x1300 0x1000 0x264 0x3000 16 =
      finishLinux _ _ _ _ _ _ _ :=
    expandLinuxImage_of_prepared hprepared (by decide) hbase hrel (by decide)
  obtain ⟨s₁, b, h⟩ : ∃ s₁ b, expandLinuxImage (loneMachine 0x3000 0x3010) 0x1300 0x1000 0x264
      0x3000 16 = some (s₁, some b) := by
    rw [hrun]
    refine finishLinux_succeeds (?_ : _ = some 0) ?_ ?_
    all_goals
      rw [loneMachine, roomyMachine, bootMachine_eq]
      decide +kernel
  obtain ⟨-, himage, hsize, -⟩ := finishLinux_boot (hrun.symm.trans h)
  exact ⟨s₁, b, hmodules.launch.trans h, himage, hsize⟩

/-- The slot behind the record overlaps nothing listed. -/
theorem lone_slot {y : BitVec 32} (hy : InSpan 0x1390 moduleSize y) :
    ¬ Listed (loneMachine 0 0) 0x1300 y := by
  have hmodules := lone_modules
  intro hl
  cases hl with
  | info h => exact apart_of_le (by decide) (by decide) y h hy
  | record i hi h =>
    rw [hmodules.count] at hi
    obtain rfl : i = 0 := Nat.lt_one_iff.mp hi
    rw [hmodules.entry] at h
    exact apart_of_le (by decide) (by decide) y h hy
  | contents i hi h =>
    rw [hmodules.count] at hi
    obtain rfl : i = 0 := Nat.lt_one_iff.mp hi
    unfold moduleImage moduleBytes at h
    rw [hmodules.entry, hmodules.start, hmodules.stop] at h
    exact apart_of_le (by decide) (by decide) y h hy
  | line i hi h =>
    rw [hmodules.count] at hi
    obtain rfl : i = 0 := Nat.lt_one_iff.mp hi
    rw [hmodules.entry, hmodules.line] at h
    rw [h.of_zero hmodules.lineEnd] at hy
    exact absurd hy (by decide)
  | map h =>
    rw [hmodules.map, hmodules.mapBytes] at h
    exact apart_of_le (by decide) (by decide) y h hy
  | heap h => exact apart_of_le (by decide) (by decide) y hy h

theorem lone_stray : StrayBoots (loneMachine 0 0) 0x1300 := by
  obtain ⟨s', b, h, _⟩ := lone_launch
  refine ⟨?_, ?_, loneMachine 0 0, s', b, ⟨rfl, rfl, rfl, fun x hne => absurd rfl hne⟩, h⟩
  · rw [lone_modules.slot]
    decide
  · rw [lone_modules.slot]
    exact fun x hx => lone_slot hx

theorem lone_differ : DifferUnlisted (loneMachine 0 0) (loneMachine 0x3000 0x3010) 0x1300 := by
  refine ⟨rfl, rfl, rfl, fun x hne => ⟨1, ?_, ?_, ?_⟩⟩
  · rw [lone_modules.count]
    decide
  · rw [lone_modules.slot]
    by_contra hout
    apply hne
    unfold loneMachine
    dsimp only
    rw [Memory.setField_of_outside _ _ hout (by decide) (by decide),
      Memory.setField_of_outside _ _ hout (by decide) (by decide),
      Memory.setField_of_outside _ _ hout (by decide) (by decide),
      Memory.setField_of_outside _ _ hout (by decide) (by decide)]
  · rw [lone_modules.slot]
    exact fun y hy => lone_slot hy

/-- The same kernel, with the empty slot as the record of a second module. -/
def pairMachine : Machine :=
  { loneMachine 0 0 with mem := (loneMachine 0 0).mem.setField 0x1300 20 (2 : BitVec 32) }

example : MultibootInfo.modsCount pairMachine.mem 0x1300 = 2 := by decide +kernel

theorem pair_modules : ModulesAt pairMachine.mem 2 0 0 := by
  rw [pairMachine, loneMachine, roomyMachine, bootMachine_eq]
  decide +kernel

theorem pair_ready : readyMem pairMachine 0x1000 = preparedMem pairMachine.mem 0x1000 0x8000 := by
  apply pair_modules.header.ready
  intro x hx
  have hout : ¬ InSpan (0x1300 : BitVec 32) MultibootInfo.span x :=
    fun hin => apart_of_le (by decide) (by decide) x hin hx
  unfold pairMachine
  dsimp only
  rw [Memory.setField_of_outside _ _ hout (by decide) (by decide)]
  exact loneMachine_zero 0 0 (by decide) (by decide) hx

theorem pair_completed : completedMem pairMachine 0x1300 0x1000 0 0 =
    finishedHeader (preparedMem pairMachine.mem 0x1000 0x8000) 0x1000 0x1400 0 0 := by
  have hentry : kernelEntry pairMachine.mem 0x1000 = 0x1400 := by
    unfold kernelEntry effectiveSects
    rw [pair_modules.header.1]
    rfl
  have htarget : initrdTarget pairMachine 0x1300 0x1000 0 0 = (0, 0) := if_neg (by decide)
  rw [completedMem, laidMem, htarget, pair_ready, hentry]
  rfl

/-- What is read when the first stores have been made. -/
theorem pair_completed_info :
    getMbiModule (completedMem pairMachine 0x1300 0x1000 0 0) 0x1300 MVMLINUZ = 0x1380 ∧
    kernelLine (completedMem pairMachine 0x1300 0x1000 0 0) 0x1300 = 0x1400 ∧
    completedMem pairMachine 0x1300 0x1000 0 0 0x1400 = 0 ∧
    strlen (completedMem pairMachine 0x1300 0x1000 0 0) 0x1400 addressSpace = some 0 ∧
    MultibootInfo.mmapAddr (completedMem pairMachine 0x1300 0x1000 0 0) 0x1300 = 0x1340 ∧
    (MultibootInfo.mmapLength (completedMem pairMachine 0x1300 0x1000 0 0) 0x1300).toNat /
      memoryMapSize = 1 := by
  rw [pair_completed, pairMachine, loneMachine, roomyMachine, bootMachine_eq]
  decide +kernel

theorem pair_map {u : Memory 32}
    (hu : headedMem pairMachine 0x1300 0x1000 0 0 0 = u) :
    MultibootInfo.mmapAddr u 0x1300 = 0x1340 ∧ bootRounds u 0x1300 pairMachine.heapCurrent = 1 := by
  have hsame : Memory.Same u 0x1300 (completedMem pairMachine 0x1300 0x1000 0 0) 0x1300
      MultibootInfo.span := by
    apply Memory.Same.of_unchanged _ (by decide)
    intro x hx
    rw [← hu, headedMem, linedMem_zero]
    apply Memory.copy_of_not_inSpan
    exact fun hin => apart_of_le (by decide) (by decide) x hx hin
  have haddr : MultibootInfo.mmapAddr u 0x1300 =
      MultibootInfo.mmapAddr (completedMem pairMachine 0x1300 0x1000 0 0) 0x1300 :=
    Memory.field_congr hsame (by decide)
  have hlength : MultibootInfo.mmapLength u 0x1300 =
      MultibootInfo.mmapLength (completedMem pairMachine 0x1300 0x1000 0 0) 0x1300 :=
    Memory.field_congr hsame (by decide)
  obtain ⟨-, -, -, -, hmap, hrounds⟩ := pair_completed_info
  refine ⟨haddr.trans hmap, bootRounds_eq ?_ (hlength ▸ hrounds)⟩
  exact (apart_of_le (by decide) (by decide)).symm

theorem pair_reads : ReadsListed pairMachine 0x1300 := by
  have hmodules := pair_modules
  have hinitrd : givenInitrd pairMachine.mem 0x1300 = (0, 0) := hmodules.givenInitrd
  obtain ⟨hmodule, hline, hzero, hstrlen, -⟩ := pair_completed_info
  have hfirst : 0 < (MultibootInfo.modsCount pairMachine.mem 0x1300).toNat := by
    rw [hmodules.count]
    decide
  constructor
  · rw [hinitrd]
    exact fun hw => absurd rfl hw.1
  · rw [hmodules.kernelImage, hinitrd]
    intro x hx hu
    refine absurd hu (Listed.not_unlisted ?_)
    cases hx with
    | pointer h =>
      rw [hmodule] at h
      apply Listed.record 0 hfirst
      rw [hmodules.entry]
      exact h.of_le (by decide) (by decide) (by decide)
    | line h =>
      rw [hline] at h
      apply Listed.line 0 hfirst
      rw [hmodules.entry, hmodules.line, h.of_zero hzero]
      exact ⟨0, rfl, fun j hj => absurd hj (Nat.not_lt_zero j)⟩
    | map length hlength i hi h =>
      rw [hline, hstrlen] at hlength
      cases hlength
      obtain ⟨haddr, hrounds⟩ := pair_map rfl
      rw [hrounds] at hi
      obtain rfl : i = 0 := Nat.lt_one_iff.mp hi
      apply Listed.map
      rw [hmodules.map, hmodules.mapBytes]
      rwa [haddr] at h
    | params h => exact .heap (h.of_le (by decide) (by decide) (by decide))

end IkgtLoader
