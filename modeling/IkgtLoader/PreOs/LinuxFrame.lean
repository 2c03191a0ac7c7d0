import IkgtLoader.PreOs.RamSearch

/-! What `expand_linux_image` writes: the header of the kernel, the block of the boot parameters
and the command line, and the initrd. -/
namespace IkgtLoader
open Flat Loop

/-- The entries that end within the boot parameters, beyond the end of the array. -/
def BootParams.mapRoom : ℕ := 168

/-- The bytes from the boot parameters on that are written for a map of `n` records. -/
def BootParams.span (n : ℕ) : ℕ :=
  max BootParams.size (BootParams.e820Map + n * BootParams.e820EntrySize)

theorem BootParams.span_le {n : ℕ} (hn : n * memoryMapSize < 2 ^ 32) :
    BootParams.span n ≤ 2 ^ 32 := by
  unfold BootParams.span BootParams.size BootParams.e820Map BootParams.e820EntrySize
  unfold memoryMapSize at hn
  omega

theorem BootParams.span_mapRoom {n : ℕ} (hn : n ≤ BootParams.mapRoom) :
    BootParams.span n = BootParams.size := by
  unfold BootParams.mapRoom at hn
  unfold BootParams.span BootParams.size BootParams.e820Map BootParams.e820EntrySize
  omega

section frames
variable {m m' : Memory 32} {bootParams mbi hdr : BitVec 32} {x : BitVec 32}

/-- A round writes its entry only. -/
theorem bootMapStep_writes (bootParams mmap : BitVec 32) (i : ℕ) (s : Memory 32 × ℕ) :
    ∃ m, bootMapStep bootParams mmap i s = .next (m, i + 1) ∧
      ∀ x, ¬ InSpan (bootParams + BitVec.ofNat 32 (BootParams.e820Map +
        i * BootParams.e820EntrySize)) BootParams.e820EntrySize x → m x = s.1 x := by
  have hs : BootParams.e820EntrySize ≤ 2 ^ 32 := by decide
  refine ⟨_, rfl, fun x hx => ?_⟩
  rw [Memory.setField_of_outside _ _ hx (by decide) hs,
    Memory.setField_of_outside _ _ hx (by decide) hs,
    Memory.setField_of_outside _ _ hx (by decide) hs]

theorem bootMapStep_frame {i n : ℕ} (hi : i < n) (hn : BootParams.span n ≤ 2 ^ 32)
    (mmap : BitVec 32) (s : Memory 32 × ℕ) :
    ∃ m, bootMapStep bootParams mmap i s = .next (m, i + 1) ∧
      ∀ x, ¬ InSpan bootParams (BootParams.span n) x → m x = s.1 x := by
  obtain ⟨m, hm, hframe⟩ := bootMapStep_writes bootParams mmap i s
  refine ⟨m, hm, fun x hx => hframe x fun hin => hx ?_⟩
  apply hin.of_offset _ hn
  unfold BootParams.span BootParams.e820EntrySize
  omega

end frames

/-- The stores to the header before the initrd is looked at. -/
def preparedMem (mem : Memory 32) (hdr bootParams : BitVec 32) : Memory 32 :=
  let mem := mem.setField hdr SetupHeader.cmdLinePtr (bootParams + BitVec.ofNat 32 BootParams.size)
  let mem := mem.setField hdr SetupHeader.typeOfLoader GRUB_LINUX_BOOT_LOADER_TYPE
  mem.setField hdr SetupHeader.loadflags
    (mem.field 8 hdr SetupHeader.loadflags &&& ~~~FLAG_CAN_USE_HEAP)

theorem preparedMem_frame {m : Memory 32} {hdr bootParams x : BitVec 32}
    (hx : ¬ InSpan hdr SetupHeader.kernelHeaderSize x) : preparedMem m hdr bootParams x = m x := by
  have hs : SetupHeader.kernelHeaderSize ≤ 2 ^ 32 := by decide
  unfold preparedMem
  rw [Memory.setField_of_outside _ _ hx (by decide) hs, Memory.setField_of_outside _ _ hx (by decide) hs,
    Memory.setField_of_outside _ _ hx (by decide) hs]

theorem preparedMem_cmdLinePtr (m : Memory 32) (hdr bootParams : BitVec 32) :
    (preparedMem m hdr bootParams).field 32 hdr SetupHeader.cmdLinePtr =
      bootParams + BitVec.ofNat 32 BootParams.size := by
  unfold preparedMem
  dsimp only
  rw [Memory.field_setField_of_ne _ _ (by decide) (by decide) (by decide),
    Memory.field_setField_of_ne _ _ (by decide) (by decide) (by decide),
    Memory.field_setField _ _ _ _ rfl (by decide)]

/-- `setup_sects` as it is used: none means the default. -/
def effectiveSects (mem : Memory 32) (hdr : BitVec 32) : BitVec 8 :=
  if mem.field 8 hdr SetupHeader.setupSects = 0 then DEFAULT_SECTOR_NUM
  else mem.field 8 hdr SetupHeader.setupSects

/-- The size of the block, as the header of the kernel has it. -/
def bootBlockSize (mem : Memory 32) (hdr : BitVec 32) : BitVec 32 :=
  BitVec.ofNat 32 BootParams.size + mem.field 32 hdr SetupHeader.cmdlineSize

/-- A header without a number of sectors is given the default. -/
def sectsMem (mem : Memory 32) (hdr : BitVec 32) : Memory 32 :=
  if mem.field 8 hdr SetupHeader.setupSects = 0 then
    mem.setField hdr SetupHeader.setupSects DEFAULT_SECTOR_NUM
  else mem

/-- The memory of the entry with the stores that come before the initrd is looked at: the block is
zero, and the header is stored to. -/
def readyMem (s : Machine) (hdr : BitVec 32) : Memory 32 :=
  preparedMem (zeroMem (sectsMem s.mem hdr) s.heapCurrent (bootBlockSize s.mem hdr)) hdr
    s.heapCurrent

/-- What is known of a header that is accepted. -/
structure Prepared (s : Machine) (hdr linuxSize : BitVec 32) (s₁ : Machine) (p : LinuxSetup) :
    Prop where
  size : SetupHeader.kernelHeaderSize ≤ linuxSize.toNat
  bootParams : p.bootParams = s.heapCurrent
  bootSize : p.bootSize = bootBlockSize s.mem hdr
  realModeSize : p.realModeSize = ((effectiveSects s.mem hdr).setWidth 32 + 1) * SECTOR_SIZE
  mem : s₁.mem = readyMem s hdr

section prepare
variable {s s₁ : Machine} {hdr linuxSize : BitVec 32} {p : LinuxSetup}

theorem sectsMem_field {bits o : ℕ} (m : Memory 32) (hdr : BitVec 32)
    (ho : o + bits / 8 ≤ SetupHeader.setupSects ∨ SetupHeader.setupSects + 1 ≤ o)
    (hfit : o + bits / 8 ≤ 2 ^ 32) : (sectsMem m hdr).field bits hdr o = m.field bits hdr o := by
  unfold sectsMem
  split
  · exact Memory.field_setField_of_ne _ _ ho hfit (by decide)
  · rfl

theorem sectsMem_setupSects (m : Memory 32) (hdr : BitVec 32) :
    (sectsMem m hdr).field 8 hdr SetupHeader.setupSects = effectiveSects m hdr := by
  unfold sectsMem effectiveSects
  split
  · exact Memory.field_setField _ _ _ _ rfl (by decide)
  · rfl

theorem sectsMem_frame {m : Memory 32} {x : BitVec 32}
    (hx : ¬ InSpan hdr SetupHeader.kernelHeaderSize x) : sectsMem m hdr x = m x := by
  unfold sectsMem
  split
  · exact Memory.setField_of_outside _ _ hx (by decide) (by decide)
  · rfl

/-- A header that is accepted: the block is served, and then three fields are stored. -/
theorem prepareHeader_prepared (h : prepareHeader s hdr linuxSize = (s₁, some p)) :
    Prepared s hdr linuxSize s₁ p := by
  unfold prepareHeader at h
  split at h
  next => cases h
  next hargs =>
    rw [not_or, not_or, BitVec.lt_def] at hargs
    have hput : (if s.mem.field 8 hdr SetupHeader.setupSects = 0 then
        s.put hdr SetupHeader.setupSects DEFAULT_SECTOR_NUM else s) =
          { s with mem := sectsMem s.mem hdr } := by
      unfold sectsMem
      split <;> rfl
    rw [hput] at h
    obtain ⟨s₀, hs₀⟩ : ∃ s₀ : Machine, { s with mem := sectsMem s.mem hdr } = s₀ := ⟨_, rfl⟩
    have hmem : s₀.mem = sectsMem s.mem hdr := hs₀ ▸ rfl
    have hheap : s₀.heapCurrent = s.heapCurrent := hs₀ ▸ rfl
    rw [hs₀] at h
    dsimp only at h
    have hline : (sectsMem s.mem hdr).field 32 hdr SetupHeader.cmdlineSize =
        s.mem.field 32 hdr SetupHeader.cmdlineSize :=
      sectsMem_field _ _ (.inr (by decide)) (by decide)
    rw [hmem, sectsMem_setupSects, hline] at h
    split at h
    next => cases h
    next =>
      unfold allocateMemory at h
      by_cases hlt : s₀.heapTops < s₀.heapCurrent +
          (BitVec.ofNat 32 BootParams.size + s.mem.field 32 hdr SetupHeader.cmdlineSize)
      · rw [reserve_refused _ _ _ hlt] at h
        dsimp only at h
        rw [if_pos rfl] at h
        cases h
      · rw [reserve_served _ _ _ hlt] at h
        dsimp only at h
        split at h
        next => cases h
        next =>
          split at h
          next => cases h
          next =>
            cases h
            refine ⟨Nat.le_of_not_lt hargs.2.2, hheap, rfl, rfl, ?_⟩
            unfold readyMem bootBlockSize
            rw [← hmem, ← hheap]
            rfl

/-- Only the header and the block are written. -/
theorem readyMem_frame {x : BitVec 32} (hx : ¬ InSpan hdr SetupHeader.kernelHeaderSize x)
    (hblock : ¬ InSpan s.heapCurrent (bootBlockSize s.mem hdr).toNat x) :
    readyMem s hdr x = s.mem x := by
  unfold readyMem
  rw [preparedMem_frame hx]
  exact (Memory.fill_of_not_inSpan _ 0 hblock).trans (sectsMem_frame hx)

theorem readyMem_cmdLinePtr (s : Machine) (hdr : BitVec 32) :
    (readyMem s hdr).field 32 hdr SetupHeader.cmdLinePtr =
      s.heapCurrent + BitVec.ofNat 32 BootParams.size := preparedMem_cmdLinePtr _ _ _

/-- A field behind the pointer to the command line is that of the entry, if the block is elsewhere. -/
theorem readyMem_field {o : ℕ} (ho : SetupHeader.cmdLinePtr + 4 ≤ o)
    (hfit : o + 4 ≤ SetupHeader.kernelHeaderSize)
    (hap : Apart s.heapCurrent (bootBlockSize s.mem hdr).toNat hdr SetupHeader.kernelHeaderSize) :
    (readyMem s hdr).field 32 hdr o = s.mem.field 32 hdr o := by
  have hw : o + 4 ≤ 2 ^ 32 := hfit.trans (by decide)
  have hsame : Memory.Same (zeroMem (sectsMem s.mem hdr) s.heapCurrent (bootBlockSize s.mem hdr)) hdr
      (sectsMem s.mem hdr) hdr SetupHeader.kernelHeaderSize := by
    apply Memory.Same.of_unchanged _ (by decide)
    exact fun x hx => Memory.fill_of_not_inSpan _ 0 (hap.symm x hx)
  unfold readyMem preparedMem
  dsimp only
  rw [Memory.field_setField_of_ne _ _ (.inr (le_trans (by decide) ho)) hw (by decide),
    Memory.field_setField_of_ne _ _ (.inr (le_trans (by decide) ho)) hw (by decide),
    Memory.field_setField_of_ne _ _ (.inr ho) hw (by decide),
    Memory.field_congr hsame hfit, sectsMem_field _ _ (.inr (le_trans (by decide) ho)) hw]

theorem zeroMem_of_zero {m : Memory 32} {q n : BitVec 32} (hz : ∀ x, InSpan q n.toNat x → m x = 0) :
    zeroMem m q n = m := by
  funext x
  unfold zeroMem
  rw [Memory.fill_apply _ _ _ 0 (Nat.le_of_lt n.isLt)]
  split
  next hx => exact (hz x hx).symm
  next => rfl

theorem allocateMemory_of_zero {n : BitVec 32} (hlt : ¬ s.heapTops < s.heapCurrent + n)
    (hz : ∀ x, InSpan s.heapCurrent n.toNat x → s.mem x = 0) :
    allocateMemory s n = ({ s with heapCurrent := s.heapCurrent + n }, s.heapCurrent) := by
  unfold allocateMemory
  rw [reserve_served _ _ _ hlt, zeroMem_of_zero hz]

/-- The first stores, on a heap that is zero already. -/
theorem readyMem_of_zero (hsects : s.mem.field 8 hdr SetupHeader.setupSects ≠ 0)
    (hz : ∀ x, InSpan s.heapCurrent (bootBlockSize s.mem hdr).toNat x → s.mem x = 0) :
    readyMem s hdr = preparedMem s.mem hdr s.heapCurrent := by
  unfold readyMem sectsMem
  rw [if_neg hsects, zeroMem_of_zero hz]

/-- A header that is accepted, on a heap that is zero already. -/
theorem prepareHeader_of_zero {size realModeSize initSize : BitVec 32}
    (hargs : ¬ (hdr = NULL ∨ linuxSize = 0 ∨
      linuxSize < BitVec.ofNat 32 SetupHeader.kernelHeaderSize))
    (hsects : s.mem.field 8 hdr SetupHeader.setupSects ≠ 0)
    (hhdr : ¬ (MAX_SECTOR_NUM < s.mem.field 8 hdr SetupHeader.setupSects ∨
      s.mem.field 32 hdr SetupHeader.header ≠ HDRS_MAGIC ∨
      s.mem.field 8 hdr SetupHeader.loadflags &&& FLAG_LOAD_HIGH = 0))
    (hversion : ¬ s.mem.field 16 hdr SetupHeader.version < 0x020a)
    (hsize : BitVec.ofNat 32 BootParams.size + s.mem.field 32 hdr SetupHeader.cmdlineSize = size)
    (hreal : ((s.mem.field 8 hdr SetupHeader.setupSects).setWidth 32 + 1) * SECTOR_SIZE =
      realModeSize)
    (hinit : s.mem.field 32 hdr SetupHeader.initSize = initSize)
    (hlt : ¬ s.heapTops < s.heapCurrent + size) (hnull : s.heapCurrent ≠ NULL)
    (hz : ∀ x, InSpan s.heapCurrent size.toNat x → s.mem x = 0) :
    prepareHeader s hdr linuxSize =
      ({ s with mem := preparedMem s.mem hdr s.heapCurrent, heapCurrent := s.heapCurrent + size },
        some ⟨s.heapCurrent, size, realModeSize, initSize⟩) := by
  have hne : (s.mem.setField hdr SetupHeader.cmdLinePtr
      (s.heapCurrent + BitVec.ofNat 32 BootParams.size)).field 16 hdr SetupHeader.version =
        s.mem.field 16 hdr SetupHeader.version :=
    Memory.field_setField_of_ne _ _ (by decide) (by decide) (by decide)
  have hne' : (s.mem.setField hdr SetupHeader.cmdLinePtr
      (s.heapCurrent + BitVec.ofNat 32 BootParams.size)).field 32 hdr SetupHeader.initSize =
        s.mem.field 32 hdr SetupHeader.initSize :=
    Memory.field_setField_of_ne _ _ (by decide) (by decide) (by decide)
  unfold prepareHeader
  rw [if_neg hargs, if_neg hsects]
  dsimp only
  rw [if_neg hhdr, hsize, allocateMemory_of_zero hlt hz]
  dsimp only
  rw [if_neg hnull]
  unfold Machine.put
  dsimp only
  rw [hne, if_neg hversion, hne', hinit, hreal]
  rfl

end prepare

/-- The stores to the header after the initrd is in place. -/
def finishedHeader (mem : Memory 32) (hdr base ramdiskImage ramdiskSize : BitVec 32) : Memory 32 :=
  let mem := mem.setField hdr SetupHeader.ramdiskImage ramdiskImage
  let mem := mem.setField hdr SetupHeader.ramdiskSize ramdiskSize
  let mem := mem.setField hdr SetupHeader.code32Start base
  mem.setField hdr SetupHeader.vidMode GRUB_LINUX_VID_MODE_NORMAL

section finish
variable {s s' : Machine} {mbi hdr bootParams base ramdiskImage ramdiskSize bootSize : BitVec 32}
  {b : Boot} {m : Memory 32} {x : BitVec 32}

theorem finishedHeader_frame (hx : ¬ InSpan hdr SetupHeader.kernelHeaderSize x) :
    finishedHeader m hdr base ramdiskImage ramdiskSize x = m x := by
  have hs : SetupHeader.kernelHeaderSize ≤ 2 ^ 32 := by decide
  unfold finishedHeader
  rw [Memory.setField_of_outside _ _ hx (by decide) hs, Memory.setField_of_outside _ _ hx (by decide) hs,
    Memory.setField_of_outside _ _ hx (by decide) hs, Memory.setField_of_outside _ _ hx (by decide) hs]

theorem finishedHeader_cmdLinePtr :
    (finishedHeader m hdr base ramdiskImage ramdiskSize).field 32 hdr SetupHeader.cmdLinePtr =
      m.field 32 hdr SetupHeader.cmdLinePtr := by
  unfold finishedHeader
  dsimp only
  rw [Memory.field_setField_of_ne _ _ (by decide) (by decide) (by decide),
    Memory.field_setField_of_ne _ _ (by decide) (by decide) (by decide),
    Memory.field_setField_of_ne _ _ (by decide) (by decide) (by decide),
    Memory.field_setField_of_ne _ _ (by decide) (by decide) (by decide)]

theorem finishedHeader_cmdlineSize :
    (finishedHeader m hdr base ramdiskImage ramdiskSize).field 32 hdr SetupHeader.cmdlineSize =
      m.field 32 hdr SetupHeader.cmdlineSize := by
  unfold finishedHeader
  dsimp only
  rw [Memory.field_setField_of_ne _ _ (by decide) (by decide) (by decide),
    Memory.field_setField_of_ne _ _ (by decide) (by decide) (by decide),
    Memory.field_setField_of_ne _ _ (by decide) (by decide) (by decide),
    Memory.field_setField_of_ne _ _ (by decide) (by decide) (by decide)]

/-- The command line of the kernel. -/
def kernelLine (mem : Memory 32) (mbi : BitVec 32) : BitVec 32 :=
  moduleCmdline mem (getMbiModule mem mbi MVMLINUZ)

/-- The last part, with the header complete. -/
theorem finishLinux_eq (s : Machine) (mbi hdr bootParams base ramdiskImage ramdiskSize : BitVec 32) :
    finishLinux s mbi hdr bootParams base ramdiskImage ramdiskSize =
      match strlen (finishedHeader s.mem hdr base ramdiskImage ramdiskSize)
        (kernelLine (finishedHeader s.mem hdr base ramdiskImage ramdiskSize) mbi) addressSpace with
      | none => none
      | some length =>
        if (s.mem.field 32 hdr SetupHeader.cmdlineSize).toNat < length then
          some ({ s with mem := finishedHeader s.mem hdr base ramdiskImage ramdiskSize }, none)
        else
          match setupBootParams ((finishedHeader s.mem hdr base ramdiskImage ramdiskSize).copy
            (s.mem.field 32 hdr SetupHeader.cmdLinePtr)
            (kernelLine (finishedHeader s.mem hdr base ramdiskImage ramdiskSize) mbi) length) mbi
              bootParams hdr with
          | (mem, false) => some ({ s with mem := mem }, none)
          | (mem, true) => some ({ s with mem := mem },
              some ⟨bootParams, mem.field 32 bootParams SetupHeader.code32Start, ramdiskImage,
                ramdiskSize, base⟩) := by
  have hptr : (finishedHeader s.mem hdr base ramdiskImage ramdiskSize).field 32 hdr
      SetupHeader.cmdLinePtr = s.mem.field 32 hdr SetupHeader.cmdLinePtr := finishedHeader_cmdLinePtr
  have hsize : (finishedHeader s.mem hdr base ramdiskImage ramdiskSize).field 32 hdr
      SetupHeader.cmdlineSize = s.mem.field 32 hdr SetupHeader.cmdlineSize := finishedHeader_cmdlineSize
  rw [← hptr, ← hsize]
  rfl

end finish

end IkgtLoader
