import IkgtLoader.PreOs.BootMap
import IkgtLoader.PreOs.Initrd

/-! What a success of `expand_linux_image` goes through, with an initrd or without, and where in the
file of the kernel its entry point lies. -/
namespace IkgtLoader
open Flat Loop

/-- Base and size of the initrd in the end, zeros if there is none. -/
def initrdTarget (s : Machine) (mbi hdr initrdImage n : BitVec 32) : BitVec 32 × BitVec 32 :=
  if WithInitrd initrdImage n then ((findInitrdBase (readyMem s hdr) mbi hdr n).getD 0, n) else (0, 0)

/-- The memory when the initrd is in place. -/
def laidMem (s : Machine) (mbi hdr initrdImage n : BitVec 32) : Memory 32 :=
  (readyMem s hdr).copy (initrdTarget s mbi hdr initrdImage n).1 initrdImage
    (initrdTarget s mbi hdr initrdImage n).2.toNat

/-- Where the code of the kernel begins. -/
def kernelEntry (mem : Memory 32) (hdr : BitVec 32) : BitVec 32 :=
  hdr + ((effectiveSects mem hdr).setWidth 32 + 1) * SECTOR_SIZE

/-- The memory when the initrd is in place and the header complete. -/
def completedMem (s : Machine) (mbi hdr initrdImage n : BitVec 32) : Memory 32 :=
  finishedHeader (laidMem s mbi hdr initrdImage n) hdr (kernelEntry s.mem hdr)
    (initrdTarget s mbi hdr initrdImage n).1 (initrdTarget s mbi hdr initrdImage n).2

/-- The memory when the command line is copied as well. -/
def linedMem (s : Machine) (mbi hdr initrdImage n : BitVec 32) (length : ℕ) : Memory 32 :=
  (completedMem s mbi hdr initrdImage n).copy
    ((laidMem s mbi hdr initrdImage n).field 32 hdr SetupHeader.cmdLinePtr)
    (kernelLine (completedMem s mbi hdr initrdImage n) mbi) length

/-- The memory when the header is copied to the boot parameters as well. -/
def headedMem (s : Machine) (mbi hdr initrdImage n : BitVec 32) (length : ℕ) : Memory 32 :=
  (linedMem s mbi hdr initrdImage n length).copy
    (s.heapCurrent + BitVec.ofNat 32 SetupHeader.setupSects)
    (hdr + BitVec.ofNat 32 SetupHeader.setupSects) SetupHeader.size

/-- The steps of a success; without an initrd no byte is copied. -/
structure Expanded (s : Machine) (mbi linuxImage linuxSize initrdImage n : BitVec 32) (s' : Machine)
    (b : Boot) (length : ℕ) : Prop where
  size : SetupHeader.kernelHeaderSize ≤ linuxSize.toNat
  bootParams : b.bootParams = s.heapCurrent
  code32Start : b.code32Start = kernelEntry s.mem linuxImage
  ramdiskImage : b.ramdiskImage = (initrdTarget s mbi linuxImage initrdImage n).1
  ramdiskSize : b.ramdiskSize = (initrdTarget s mbi linuxImage initrdImage n).2
  line : strlen (completedMem s mbi linuxImage initrdImage n)
    (kernelLine (completedMem s mbi linuxImage initrdImage n) mbi) addressSpace = some length
  short : length ≤ ((laidMem s mbi linuxImage initrdImage n).field 32 linuxImage
    SetupHeader.cmdlineSize).toNat
  setup : setupBootParams (linedMem s mbi linuxImage initrdImage n length) mbi b.bootParams
    linuxImage = (s'.mem, true)
  entryPoint : b.entryPoint = s'.mem.field 32 b.bootParams SetupHeader.code32Start

section expanded
variable {s s' s₁ : Machine} {mbi linuxImage linuxSize initrdImage n : BitVec 32} {b : Boot}
  {p : LinuxSetup} {length : ℕ}

theorem initrdTarget_size (s : Machine) (mbi hdr initrdImage n : BitVec 32) :
    (initrdTarget s mbi hdr initrdImage n).2 = if WithInitrd initrdImage n then n else 0 := by
  unfold initrdTarget
  split <;> rfl

theorem linedMem_zero (s : Machine) (mbi hdr initrdImage n : BitVec 32) :
    linedMem s mbi hdr initrdImage n 0 = completedMem s mbi hdr initrdImage n := by
  unfold linedMem
  rw [Memory.copy]

/-- What the success of the last part says. -/
theorem finishLinux_expanded {hdr bootParams base ramdiskImage ramdiskSize : BitVec 32}
    (h : finishLinux s mbi hdr bootParams base ramdiskImage ramdiskSize = some (s', some b)) :
    ∃ length, strlen (finishedHeader s.mem hdr base ramdiskImage ramdiskSize)
        (kernelLine (finishedHeader s.mem hdr base ramdiskImage ramdiskSize) mbi) addressSpace =
          some length ∧
      length ≤ (s.mem.field 32 hdr SetupHeader.cmdlineSize).toNat ∧
      setupBootParams ((finishedHeader s.mem hdr base ramdiskImage ramdiskSize).copy
          (s.mem.field 32 hdr SetupHeader.cmdLinePtr)
          (kernelLine (finishedHeader s.mem hdr base ramdiskImage ramdiskSize) mbi) length) mbi
        bootParams hdr = (s'.mem, true) ∧
      b.entryPoint = s'.mem.field 32 bootParams SetupHeader.code32Start := by
  rw [finishLinux_eq] at h
  split at h
  next => cases h
  next length hlen =>
    split at h
    next => cases h
    next hle =>
      split at h
      next => cases h
      next mem hset =>
        cases h
        exact ⟨length, hlen, Nat.le_of_not_lt hle, hset, rfl⟩

/-- The last part succeeds on a command line that the header allows, if there is a map. -/
theorem finishLinux_succeeds {hdr bootParams base ramdiskImage ramdiskSize : BitVec 32}
    (hlen : strlen (finishedHeader s.mem hdr base ramdiskImage ramdiskSize)
      (kernelLine (finishedHeader s.mem hdr base ramdiskImage ramdiskSize) mbi) addressSpace =
        some length)
    (hle : length ≤ (s.mem.field 32 hdr SetupHeader.cmdlineSize).toNat)
    (hflags : MultibootInfo.flags (((finishedHeader s.mem hdr base ramdiskImage ramdiskSize).copy
        (s.mem.field 32 hdr SetupHeader.cmdLinePtr)
        (kernelLine (finishedHeader s.mem hdr base ramdiskImage ramdiskSize) mbi) length).copy
      (bootParams + BitVec.ofNat 32 SetupHeader.setupSects)
      (hdr + BitVec.ofNat 32 SetupHeader.setupSects) SetupHeader.size) mbi &&& MBI_MEMMAP ≠ 0) :
    ∃ s' b, finishLinux s mbi hdr bootParams base ramdiskImage ramdiskSize = some (s', some b) := by
  obtain ⟨m', hm'⟩ := setupBootParams_succeeds hflags
  rw [finishLinux_eq, hlen]
  dsimp only
  rw [if_neg (Nat.not_lt.mpr hle), hm']
  exact ⟨_, _, rfl⟩

/-- The memory that the last part begins with. -/
theorem Prepared.laid (hp : Prepared s linuxImage linuxSize s₁ p) {base ramdiskSize : BitVec 32}
    (htarget : initrdTarget s mbi linuxImage initrdImage n = (base, ramdiskSize)) :
    s₁.mem.copy base initrdImage ramdiskSize.toNat = laidMem s mbi linuxImage initrdImage n := by
  rw [hp.mem, laidMem, htarget]

theorem Prepared.kernelEntry (hp : Prepared s linuxImage linuxSize s₁ p) :
    linuxImage + p.realModeSize = kernelEntry s.mem linuxImage := by
  rw [hp.realModeSize]
  rfl

/-- A success of the last part, on the memory with the initrd in place. -/
theorem finishLinux_expands (hp : Prepared s linuxImage linuxSize s₁ p) {t : Machine}
    {base ramdiskSize : BitVec 32} (ht : t.mem = s₁.mem.copy base initrdImage ramdiskSize.toNat)
    (htarget : initrdTarget s mbi linuxImage initrdImage n = (base, ramdiskSize))
    (h : finishLinux t mbi linuxImage p.bootParams (linuxImage + p.realModeSize) base ramdiskSize =
      some (s', some b)) :
    ∃ length, Expanded s mbi linuxImage linuxSize initrdImage n s' b length := by
  obtain ⟨hb, himage, hsize, hstart⟩ := finishLinux_boot h
  obtain ⟨length, hline, hshort, hsetup, hentry⟩ := finishLinux_expanded h
  have hlaid := ht.trans (hp.laid htarget)
  have hdone : finishedHeader t.mem linuxImage (linuxImage + p.realModeSize) base ramdiskSize =
      completedMem s mbi linuxImage initrdImage n := by
    rw [hlaid, hp.kernelEntry, completedMem, htarget]
  rw [hdone] at hline hsetup
  rw [hlaid] at hshort hsetup
  rw [← hb] at hsetup hentry
  refine ⟨length, hp.size, hb.trans hp.bootParams, hstart.trans hp.kernelEntry, ?_, ?_, hline, hshort,
    hsetup, hentry⟩
  · rw [himage, htarget]
  · rw [hsize, htarget]

theorem expandLinuxImage_expanded
    (h : expandLinuxImage s mbi linuxImage linuxSize initrdImage n = some (s', some b)) :
    ∃ length, Expanded s mbi linuxImage linuxSize initrdImage n s' b length := by
  unfold expandLinuxImage at h
  dsimp only at h
  split at h
  next => cases h
  next s₁ p hp =>
    have hp := prepareHeader_prepared hp
    split at h
    next hw =>
      split at h
      next => cases h
      next base hbase =>
        split at h
        next => cases h
        next =>
          split at h
          next => cases h
          next =>
            apply finishLinux_expands hp rfl _ h
            unfold initrdTarget
            rw [if_pos hw, ← hp.mem, hbase, Option.getD_some]
    next hw =>
      split at h
      next => cases h
      next => exact finishLinux_expands hp rfl (if_neg hw) h

/-- A header that is complete has the entry point. -/
theorem finishedHeader_code32Start {m : Memory 32} {hdr base ramdiskImage ramdiskSize : BitVec 32} :
    (finishedHeader m hdr base ramdiskImage ramdiskSize).field 32 hdr SetupHeader.code32Start =
      base := by
  unfold finishedHeader
  dsimp only
  rw [Memory.field_setField_of_ne _ _ (by decide) (by decide) (by decide)]
  exact Memory.field_setField _ _ _ _ rfl (by decide)

/-- Control goes to what the header has for the entry point when the command line is copied, if the
boot parameters lie apart from it. -/
theorem Expanded.entryPoint_eq
    (h : Expanded s mbi linuxImage linuxSize initrdImage n s' b length)
    (hblock : Apart s.heapCurrent BootParams.size linuxImage SetupHeader.kernelHeaderSize) :
    b.entryPoint = (linedMem s mbi linuxImage initrdImage n length).field 32 linuxImage
      SetupHeader.code32Start := by
  have hsame := setupBootParams_header (h.bootParams ▸ hblock) h.setup
  rw [h.entryPoint, Memory.field_congr_at hsame (by decide) (by decide)]

theorem Expanded.entryPoint_iff
    (h : Expanded s mbi linuxImage linuxSize initrdImage n s' b length)
    (hblock : Apart s.heapCurrent BootParams.size linuxImage SetupHeader.kernelHeaderSize) :
    b.entryPoint = b.code32Start ↔
      Memory.Same (linedMem s mbi linuxImage initrdImage n length)
        (linuxImage + BitVec.ofNat 32 SetupHeader.code32Start)
        (completedMem s mbi linuxImage initrdImage n)
        (linuxImage + BitVec.ofNat 32 SetupHeader.code32Start) 4 := by
  have hcode : (completedMem s mbi linuxImage initrdImage n).field 32 linuxImage
      SetupHeader.code32Start = b.code32Start := finishedHeader_code32Start.trans h.code32Start.symm
  rw [h.entryPoint_eq hblock, ← hcode]
  exact Memory.field_eq_iff_same rfl

end expanded

section image
variable {s s' s₁ : Machine} {hdr linuxSize : BitVec 32} {p : LinuxSetup}

/-- The sectors before the code. -/
theorem toNat_realModeSize (mem : Memory 32) (hdr : BitVec 32) :
    (((effectiveSects mem hdr).setWidth 32 + 1) * SECTOR_SIZE : BitVec 32).toNat =
      ((effectiveSects mem hdr).toNat + 1) * 512 := by
  have hlt := (effectiveSects mem hdr).isLt
  unfold SECTOR_SIZE
  rw [BitVec.toNat_mul, BitVec.toNat_add, BitVec.toNat_setWidth]
  change ((_ % 2 ^ 32 + 1) % 2 ^ 32) * 512 % 2 ^ 32 = _
  omega

end image

/-- The header that is read and written, and the entry point, lie in the file of the kernel. -/
structure KernelConfined (modStart modEnd : BitVec 32) (b : Boot) : Prop where
  header : ∀ x, InSpan modStart SetupHeader.kernelHeaderSize x →
    modStart.toNat ≤ x.toNat ∧ x.toNat < modEnd.toNat
  entry : modStart.toNat ≤ b.code32Start.toNat ∧ b.code32Start.toNat < modEnd.toNat

section confined
variable {s s' : Machine} {mbi modStart modEnd initrdImage n : BitVec 32} {b : Boot}

/-- A success keeps to the file of the kernel exactly if the sectors before the code do not fill
it; and where the boot parameters lie apart from the header, control goes to the entry point exactly
if the copy of the command line leaves its four bytes in the header. -/
theorem kernelConfined_iff (hle : modStart.toNat ≤ modEnd.toNat)
    (h : expandLinuxImage s mbi modStart (modEnd - modStart) initrdImage n = some (s', some b)) :
    (KernelConfined modStart modEnd b ↔
      modStart.toNat + ((effectiveSects s.mem modStart).toNat + 1) * 512 < modEnd.toNat) ∧
    ∃ length, strlen (completedMem s mbi modStart initrdImage n)
        (kernelLine (completedMem s mbi modStart initrdImage n) mbi) addressSpace = some length ∧
      (Apart s.heapCurrent BootParams.size modStart SetupHeader.kernelHeaderSize →
        (b.entryPoint = b.code32Start ↔
          Memory.Same (linedMem s mbi modStart initrdImage n length)
            (modStart + BitVec.ofNat 32 SetupHeader.code32Start)
            (completedMem s mbi modStart initrdImage n)
            (modStart + BitVec.ofNat 32 SetupHeader.code32Start) 4)) := by
  obtain ⟨length, he⟩ := expandLinuxImage_expanded h
  have hheader := he.size
  have hlt := modEnd.isLt
  have hsub : (modEnd - modStart).toNat = modEnd.toNat - modStart.toNat :=
    BitVec.toNat_sub_of_le (BitVec.le_def.mpr hle)
  rw [hsub] at hheader
  have hin : ∀ {x : BitVec 32}, InSpan modStart (modEnd.toNat - modStart.toNat) x ↔
      modStart.toNat ≤ x.toNat ∧ x.toNat < modEnd.toNat := by
    intro x
    rw [inSpan_iff (by omega), Nat.add_sub_cancel' hle]
  refine ⟨?_, length, he.line, he.entryPoint_iff⟩
  have hentry : InSpan modStart (modEnd.toNat - modStart.toNat) b.code32Start ↔
      ((effectiveSects s.mem modStart).toNat + 1) * 512 < modEnd.toNat - modStart.toNat := by
    unfold InSpan
    rw [he.code32Start, kernelEntry, BitVec.add_comm, BitVec.add_sub_cancel, toNat_realModeSize]
  constructor
  · intro hc
    have hlt := hentry.mp (hin.mpr hc.entry)
    omega
  · intro hroom
    exact ⟨fun x hx => hin.mp (hx.mono hheader), hin.mp (hentry.mpr (by omega))⟩

end confined

section short
variable {s : Machine} {mbi hdr initrdImage n size size' : BitVec 32}

/-- After the check of the header the size of the file is not looked at any more. -/
theorem prepareHeader_size (hsize : SetupHeader.kernelHeaderSize ≤ size.toNat)
    (hsize' : SetupHeader.kernelHeaderSize ≤ size'.toNat) :
    prepareHeader s hdr size = prepareHeader s hdr size' := by
  have hne : ∀ {k : BitVec 32}, SetupHeader.kernelHeaderSize ≤ k.toNat →
      (k = 0 ∨ k < BitVec.ofNat 32 SetupHeader.kernelHeaderSize ↔ False) := by
    intro k hk
    rw [BitVec.lt_def, iff_false, not_or]
    refine ⟨?_, Nat.not_lt.mpr hk⟩
    rintro rfl
    exact absurd hk (by decide)
  unfold prepareHeader
  simp only [hne hsize, hne hsize']

theorem expandLinuxImage_size (hsize : SetupHeader.kernelHeaderSize ≤ size.toNat)
    (hsize' : SetupHeader.kernelHeaderSize ≤ size'.toNat) :
    expandLinuxImage s mbi hdr size initrdImage n = expandLinuxImage s mbi hdr size' initrdImage n := by
  unfold expandLinuxImage
  rw [prepareHeader_size hsize hsize']

end short

/-- The block of the kernels at 0x1000 is zero already. -/
theorem HeaderAt.ready {s : Machine} {initSize : BitVec 32} (h : HeaderAt s.mem 0x1000 initSize)
    (hz : ∀ x, InSpan s.heapCurrent 0x1010 x → s.mem x = 0) :
    readyMem s 0x1000 = preparedMem s.mem 0x1000 s.heapCurrent := by
  apply readyMem_of_zero
  · rw [h.1]
    decide
  · unfold bootBlockSize
    rw [h.2.2.2.2.1]
    exact hz

theorem roomy_ready : readyMem roomyMachine 0x1000 = preparedMem roomyMachine.mem 0x1000 0x8000 :=
  roomy_info.1.ready fun _ hx => roomy_zero hx

theorem roomy_target : initrdTarget roomyMachine 0x1300 0x1000 0x3000 16 = (0x200000, 16) := by
  obtain ⟨-, -, -, hbase, -⟩ := roomy_info
  unfold initrdTarget
  rw [roomy_ready, if_pos (by decide)]
  exact congrArg (fun o : Option (BitVec 32) => (o.getD 0, (16 : BitVec 32))) hbase

/-- The command line of the kernel is empty. -/
theorem roomy_line : strlen (completedMem roomyMachine 0x1300 0x1000 0x3000 16)
    (kernelLine (completedMem roomyMachine 0x1300 0x1000 0x3000 16) 0x1300) addressSpace = some 0 := by
  unfold completedMem laidMem
  rw [roomy_target, roomy_ready, roomyMachine, bootMachine_eq]
  decide +kernel

/-- A kernel of 4096 bytes with one sector before the code and an empty command line. -/
theorem kernelConfined_iff_roomy :
    ∃ s' b, expandLinuxImage roomyMachine 0x1300 0x1000 (0x2000 - 0x1000) 0x3000 16 =
        some (s', some b) ∧ KernelConfined 0x1000 0x2000 b ∧ b.entryPoint = b.code32Start := by
  obtain ⟨s', b, h, _⟩ := roomy_boot
  have hle : (0x1000 : BitVec 32).toNat ≤ (0x2000 : BitVec 32).toNat := by decide
  obtain ⟨hfile, length, hline, hentry⟩ := kernelConfined_iff hle h
  refine ⟨s', b, h, hfile.mpr ?_, ?_⟩
  · rw [roomyMachine, bootMachine_eq]
    decide +kernel
  · have hblock : Apart 0x1000 SetupHeader.kernelHeaderSize roomyMachine.heapCurrent
        BootParams.size := apart_of_le (by decide) (by decide)
    apply (hentry hblock.symm).mpr
    rw [roomy_line] at hline
    cases hline
    rw [linedMem_zero]
    exact fun _ _ => rfl

/-- A file of 612 bytes is all header, and its code would begin 1024 bytes behind its beginning. -/
theorem kernel_entry_outside :
    ∃ s' b, expandLinuxImage roomyMachine 0x1300 0x1000 (0x1264 - 0x1000) 0x3000 16 =
        some (s', some b) ∧ b.code32Start = 0x1400 ∧ ¬ KernelConfined 0x1000 0x1264 b := by
  obtain ⟨s', b, h, _, _, hstart, _⟩ := roomy_boot
  refine ⟨s', b, ?_, hstart, fun hc => ?_⟩
  · rw [← h]
    exact expandLinuxImage_size (by decide) (by decide)
  · have hentry := hc.entry
    rw [hstart] at hentry
    exact absurd hentry (by decide)

end IkgtLoader
