import Mathlib.Order.CompletePartialOrder
import Mathlib.Order.Interval.Set.Disjoint
import IkgtLoader.PreOs.LinuxFrame

/-! Where `expand_linux_image` puts the initrd, and what that says about the memory map, the
kernel and the block of the boot parameters. -/
namespace IkgtLoader
open Flat Loop

/-- The page at or below `x - n`, as a pointer. -/
def pageBelow (x n : ℕ) : ℕ := (2 ^ 32 + x - n) % 2 ^ 32 / 4096 * 4096

/-- The place for `n` bytes in a region that ends at `stop`: at the end of the region, or below
`max` if it would end above it there. The end is taken modulo `2 ^ 32`. -/
def initrdPlace (stop max n : ℕ) : ℕ :=
  if max < (pageBelow stop n + n) % 2 ^ 32 then pageBelow max n else pageBelow stop n

theorem toNat_pageDown (x : BitVec 32) : (pageDown x).toNat = x.toNat / 4096 * 4096 :=
  toNat_and_pageMask x

theorem setWidth_pageDown (x : BitVec 64) : (pageDown x).setWidth 32 = pageDown (x.setWidth 32) := by
  unfold pageDown
  rw [BitVec.setWidth_and]
  rfl

theorem toNat_initrdBase (max : BitVec 32) (r : MemoryMap) (n : BitVec 32)
    (hstop : r.stop.toNat ≤ 2 ^ 32) :
    (initrdBase max (r.addr, r.len) n).toNat = initrdPlace r.stop.toNat max.toNat n.toNat := by
  have hn := n.isLt
  have hm := max.isLt
  have hhigh : ((pageDown (r.addr + r.len - n.setWidth 64)).setWidth 32).toNat =
      pageBelow r.stop.toNat n.toNat := by
    rw [setWidth_pageDown, toNat_pageDown, BitVec.toNat_setWidth, BitVec.toNat_sub, toNat_widen]
    change (2 ^ 64 - n.toNat + r.stop.toNat) % 2 ^ 64 % 2 ^ 32 / 4096 * 4096 = _
    unfold pageBelow
    omega
  have hlow : (pageDown (max - n)).toNat = pageBelow max.toNat n.toNat := by
    rw [toNat_pageDown, BitVec.toNat_sub]
    unfold pageBelow
    omega
  have hcond : max < (pageDown (r.addr + r.len - n.setWidth 64)).setWidth 32 + n ↔
      max.toNat < (pageBelow r.stop.toNat n.toNat + n.toNat) % 2 ^ 32 := by
    rw [BitVec.lt_def, BitVec.toNat_add, hhigh]
  unfold initrdBase initrdPlace
  dsimp only
  split
  next h => rw [if_pos (hcond.mp h), hlow]
  next h => rw [if_neg fun h' => h (hcond.mpr h'), hhigh]

/-- The record whose end is looked at first. -/
def initrdRegion (map : List MemoryMap) (n : ℕ) : Option MemoryMap :=
  highestFit n (searched (2 ^ 32) map)

section place
variable {mem : Memory 32} {mbi hdr n base : BitVec 32}

theorem findInitrdBase_cases (h : findInitrdBase mem mbi hdr n = some base) :
    ∃ r, initrdRegion (recordsOf mem mbi) n.toNat = some r ∧ r.stop.toNat ≤ 2 ^ 32 ∧
      base.toNat = initrdPlace r.stop.toNat
        (mem.field 32 hdr SetupHeader.initrdAddrMax).toNat n.toNat := by
  have hlimit : (0x100000000 : BitVec 64).toNat = 2 ^ 32 := rfl
  unfold findInitrdBase at h
  dsimp only at h
  rw [getHighestSizedRam_eq, toNat_widen, hlimit] at h
  cases hr : highestFit n.toNat (searched (2 ^ 32) (recordsOf mem mbi)) with
  | none =>
    rw [hr, if_pos (.inl rfl)] at h
    cases h
  | some r =>
    have hstop := (highestFit_mem hr).2.2
    rw [hr] at h
    split at h
    next => cases h
    next =>
      refine ⟨r, hr, hstop, ?_⟩
      rw [← Option.some.inj h]
      exact toNat_initrdBase _ r n hstop

end place

/-- What a success with an initrd says about the values it was put in place with. -/
structure Placed (s : Machine) (mbi linuxImage linuxSize initrdImage n : BitVec 32)
    (s₁ : Machine) (p : LinuxSetup) (s' : Machine) (b : Boot) : Prop where
  prepared : prepareHeader s linuxImage linuxSize = (s₁, some p)
  found : findInitrdBase s₁.mem mbi linuxImage n = some b.ramdiskImage
  size : b.ramdiskSize = n
  bootParams : b.bootParams = p.bootParams
  code32Start : b.code32Start = linuxImage + p.realModeSize
  guard : ¬ b.ramdiskImage < b.code32Start + alignForward (alignForward p.initSize)
  finished : finishLinux { s₁ with mem := s₁.mem.copy b.ramdiskImage initrdImage n.toNat } mbi
    linuxImage b.bootParams b.code32Start b.ramdiskImage n = some (s', some b)

/-- A run that returns true, with a property of what it leaves. -/
def Succeeds (P : Machine → Boot → Prop) : Option (Machine × Option Boot) → Prop
  | some (s', some b) => P s' b
  | _ => False

instance {P : Machine → Boot → Prop} [∀ s' b, Decidable (P s' b)] :
    (o : Option (Machine × Option Boot)) → Decidable (Succeeds P o)
  | some (s', some b) => inferInstanceAs (Decidable (P s' b))
  | some (_, none) => .isFalse id
  | none => .isFalse id

theorem succeeds_iff {P : Machine → Boot → Prop} {o : Option (Machine × Option Boot)} :
    Succeeds P o ↔ ∃ s' b, o = some (s', some b) ∧ P s' b := by
  constructor
  · intro h
    match o, h with
    | some (s', some b), h => exact ⟨s', b, rfl, h⟩
  · rintro ⟨s', b, rfl, h⟩
    exact h

section expand
variable {s s' : Machine} {mbi linuxImage linuxSize initrdImage n : BitVec 32} {b : Boot}

theorem finishLinux_boot {hdr bootParams base ramdiskImage ramdiskSize : BitVec 32}
    (h : finishLinux s mbi hdr bootParams base ramdiskImage ramdiskSize = some (s', some b)) :
    b.bootParams = bootParams ∧ b.ramdiskImage = ramdiskImage ∧ b.ramdiskSize = ramdiskSize ∧
      b.code32Start = base := by
  rw [finishLinux_eq] at h
  split at h
  next => cases h
  next =>
    split at h
    next => cases h
    next =>
      split at h
      next => cases h
      next =>
        cases h
        exact ⟨rfl, rfl, rfl, rfl⟩

theorem expandLinuxImage_cases
    (h : expandLinuxImage s mbi linuxImage linuxSize initrdImage n = some (s', some b))
    (hw : WithInitrd initrdImage n) :
    ∃ s₁ p, Placed s mbi linuxImage linuxSize initrdImage n s₁ p s' b := by
  unfold expandLinuxImage at h
  dsimp only at h
  split at h
  next => cases h
  next s₁ p hp =>
    rw [if_pos hw] at h
    split at h
    next => cases h
    next base hbase =>
      split at h
      next => cases h
      next =>
        split at h
        next => cases h
        next hg =>
          obtain ⟨h1, h2, h3, h4⟩ := finishLinux_boot h
          refine ⟨s₁, p, hp, ?_, h3, h1, h4, ?_, ?_⟩
          · rw [h2]
            exact hbase
          · rw [h2, h4]
            exact hg
          · rw [h1, h2, h4]
            exact h

theorem expandLinuxImage_of_prepared {s₁ : Machine} {p : LinuxSetup} {base : BitVec 32}
    (hp : prepareHeader s linuxImage linuxSize = (s₁, some p)) (hw : WithInitrd initrdImage n)
    (hbase : findInitrdBase s₁.mem mbi linuxImage n = some base)
    (hrel : s₁.mem.field 8 linuxImage SetupHeader.relocatableKernel ≠ 0)
    (hguard : ¬ base < linuxImage + p.realModeSize + alignForward (alignForward p.initSize)) :
    expandLinuxImage s mbi linuxImage linuxSize initrdImage n =
      finishLinux { s₁ with mem := s₁.mem.copy base initrdImage n.toNat } mbi linuxImage
        p.bootParams (linuxImage + p.realModeSize) base n := by
  unfold expandLinuxImage
  rw [hp]
  dsimp only
  rw [if_pos hw, hbase]
  dsimp only
  rw [if_neg hrel, if_neg hguard]

end expand

/-- The header of a kernel; multiboot information, one AVAILABLE record and one module at 0x300,
0x340 and 0x380. -/
def bootParts (initSize regionAddr regionLen : ℕ) : List (List (BitVec 8)) :=
  [List.replicate 0x1f1 0, [1], List.replicate 16 0,
  Memory.littleEndian 4 0x53726448, [0x0a, 0x02], List.replicate 9 0, [0x01],
  List.replicate 26 0, Memory.littleEndian 4 0x7fffffff, List.replicate 4 0, [1, 0, 0, 0],
  Memory.littleEndian 4 16, List.replicate 36 0, Memory.littleEndian 4 initSize,
  List.replicate 0x9c 0,
  Memory.littleEndian 4 0x40, List.replicate 16 0, Memory.littleEndian 4 1,
  Memory.littleEndian 4 0x1380, List.replicate 16 0, Memory.littleEndian 4 24,
  Memory.littleEndian 4 0x1340, List.replicate 12 0,
  Memory.littleEndian 4 20, Memory.littleEndian 8 regionAddr,
  Memory.littleEndian 8 regionLen, Memory.littleEndian 4 1, List.replicate 40 0,
  Memory.littleEndian 4 0x1000, Memory.littleEndian 4 0x2000, Memory.littleEndian 4 0x1390]

def bootBytes (initSize regionAddr regionLen : ℕ) : List (BitVec 8) :=
  (bootParts initSize regionAddr regionLen).flatten

/-- The bytes at 0x1000, a heap at 0x8000 and an initrd that begins with a byte 1. -/
def bootMachine (initSize regionAddr regionLen : ℕ) (initrdImage : BitVec 32) : Machine :=
  initializeMemoryManager
    ((Memory.ofBytes 0x1000 (bootBytes initSize regionAddr regionLen)).set initrdImage 1) 0x8000 0x2000

theorem bootBytes_length (initSize regionAddr regionLen : ℕ) :
    (bootBytes initSize regionAddr regionLen).length = 908 := by
  unfold bootBytes bootParts
  simp only [List.flatten_cons, List.flatten_nil, List.length_append, List.length_replicate,
    Memory.littleEndian_length, List.length_cons, List.length_nil]

theorem bootMachine_eq (initSize regionAddr regionLen : ℕ) (initrdImage : BitVec 32) :
    bootMachine initSize regionAddr regionLen initrdImage = initializeMemoryManager
      (Memory.set (fun x => Memory.byteAt (bootParts initSize regionAddr regionLen) (x - 0x1000).toNat)
        initrdImage 1) 0x8000 0x2000 := by
  rw [bootMachine, bootBytes, Memory.ofBytes_flatten]

theorem bootMachine_zero (initSize regionAddr regionLen : ℕ) {initrdImage x p : BitVec 32} {k : ℕ}
    (hp : 0x1000 + 908 ≤ p.toNat) (hk : p.toNat + k ≤ 2 ^ 32) (hx : InSpan p k x)
    (himage : ¬ InSpan p k initrdImage) :
    (bootMachine initSize regionAddr regionLen initrdImage).mem x = 0 := by
  have hap : Apart (0x1000 : BitVec 32) (bootBytes initSize regionAddr regionLen).length p k := by
    rw [bootBytes_length]
    exact apart_of_le hp hk
  have hmem : (bootMachine initSize regionAddr regionLen initrdImage).mem x =
      Memory.ofBytes 0x1000 (bootBytes initSize regionAddr regionLen) x := by
    apply Memory.set_of_ne
    rintro rfl
    exact himage hx
  rw [hmem]
  exact Memory.ofBytes_of_not_inSpan fun hin => hap x hin hx

/-- The end of the only region, rounded down, lies below the region, and the kernel's area wraps. -/
def tightMachine : Machine := bootMachine 0xfffff001 0x200f00 0x100 0x1fffff

/-- A region of 16 bytes at a page, and a small kernel. -/
def roomyMachine : Machine := bootMachine 0x2000 0x200000 16 0x3000

example : roomyMachine.mem.field 32 0x1000 SetupHeader.header = HDRS_MAGIC := by decide +kernel

/-- The header has one sector before the code and allows 16 bytes for the command line. -/
def HeaderAt (m : Memory 32) (hdr initSize : BitVec 32) : Prop :=
  m.field 8 hdr SetupHeader.setupSects = 1 ∧ m.field 32 hdr SetupHeader.header = HDRS_MAGIC ∧
    m.field 8 hdr SetupHeader.loadflags = 1 ∧ m.field 16 hdr SetupHeader.version = 0x020a ∧
    m.field 32 hdr SetupHeader.cmdlineSize = 16 ∧ m.field 32 hdr SetupHeader.initSize = initSize

instance (m : Memory 32) (hdr initSize : BitVec 32) : Decidable (HeaderAt m hdr initSize) :=
  inferInstanceAs (Decidable (_ ∧ _))

theorem HeaderAt.prepareHeader {s : Machine} {linuxSize initSize : BitVec 32}
    (h : HeaderAt s.mem 0x1000 initSize)
    (hsize : ¬ (linuxSize = 0 ∨ linuxSize < BitVec.ofNat 32 SetupHeader.kernelHeaderSize))
    (hcurrent : s.heapCurrent = 0x8000) (htops : s.heapTops = 0xa000)
    (hz : ∀ x, InSpan 0x8000 0x1010 x → s.mem x = 0) :
    prepareHeader s 0x1000 linuxSize =
      ({ s with mem := preparedMem s.mem 0x1000 0x8000, heapCurrent := 0x8000 + 0x1010 },
        some ⟨0x8000, 0x1010, 0x400, initSize⟩) := by
  obtain ⟨hsects, hmagic, hload, hversion, hline, hinit⟩ := h
  rw [← hcurrent]
  apply prepareHeader_of_zero
  · exact fun hargs => hsize (hargs.resolve_left (by decide))
  · rw [hsects]
    decide
  · rw [hsects, hmagic, hload]
    decide
  · rw [hversion]
    decide
  · rw [hline]
    decide
  · rw [hsects]
    decide
  · exact hinit
  · rw [htops, hcurrent]
    decide
  · rw [hcurrent]
    decide
  · rw [hcurrent]
    exact hz

theorem tight_info : HeaderAt tightMachine.mem 0x1000 0xfffff001 ∧ tightMachine.mem 0x200000 = 0 ∧
    recordsOf (preparedMem tightMachine.mem 0x1000 0x8000) 0x1300 = [⟨20, 0x200f00, 0x100, 1⟩] ∧
    findInitrdBase (preparedMem tightMachine.mem 0x1000 0x8000) 0x1300 0x1000 16 = some 0x200000 ∧
    (preparedMem tightMachine.mem 0x1000 0x8000).field 8 0x1000
      SetupHeader.relocatableKernel ≠ 0 := by
  rw [tightMachine, bootMachine_eq]
  decide +kernel

theorem roomy_info : HeaderAt roomyMachine.mem 0x1000 0x2000 ∧
    recordsOf (preparedMem roomyMachine.mem 0x1000 0x8000) 0x1300 = [⟨20, 0x200000, 16, 1⟩] ∧
    (preparedMem roomyMachine.mem 0x1000 0x8000).field 32 0x1000 SetupHeader.initrdAddrMax =
      0x7fffffff ∧
    findInitrdBase (preparedMem roomyMachine.mem 0x1000 0x8000) 0x1300 0x1000 16 = some 0x200000 ∧
    (preparedMem roomyMachine.mem 0x1000 0x8000).field 8 0x1000
      SetupHeader.relocatableKernel ≠ 0 := by
  rw [roomyMachine, bootMachine_eq]
  decide +kernel

theorem roomy_zero {x : BitVec 32} (hx : InSpan 0x8000 0x1010 x) : roomyMachine.mem x = 0 :=
  bootMachine_zero _ _ _ (by decide) (by decide) hx (by decide)

theorem tight_prepared : prepareHeader tightMachine 0x1000 0x1000 =
    ({ tightMachine with
        mem := preparedMem tightMachine.mem 0x1000 0x8000, heapCurrent := 0x8000 + 0x1010 },
      some ⟨0x8000, 0x1010, 0x400, 0xfffff001⟩) :=
  tight_info.1.prepareHeader (by decide) rfl rfl
    fun _ hx => bootMachine_zero _ _ _ (by decide) (by decide) hx (by decide)

theorem roomy_prepared : prepareHeader roomyMachine 0x1000 0x1000 =
    ({ roomyMachine with
        mem := preparedMem roomyMachine.mem 0x1000 0x8000, heapCurrent := 0x8000 + 0x1010 },
      some ⟨0x8000, 0x1010, 0x400, 0x2000⟩) :=
  roomy_info.1.prepareHeader (by decide) rfl rfl fun _ hx => roomy_zero hx

/-- The initrd is at 0x200000, the kernel at 0x1400 and the block at 0x8000, and the second byte of
the initrd is `v`. -/
def BootsAt (v : BitVec 8) (s' : Machine) (b : Boot) : Prop :=
  b.ramdiskImage = 0x200000 ∧ b.ramdiskSize = 16 ∧ b.code32Start = 0x1400 ∧
    b.bootParams = 0x8000 ∧ s'.mem 0x200001 = v

instance (v : BitVec 8) (s' : Machine) (b : Boot) : Decidable (BootsAt v s' b) :=
  inferInstanceAs (Decidable (_ ∧ _))

theorem tight_boot : ∃ s' b, expandLinuxImage tightMachine 0x1300 0x1000 0x1000 0x1fffff 16 =
    some (s', some b) ∧ BootsAt 1 s' b := by
  obtain ⟨-, -, -, hbase, hrel⟩ := tight_info
  rw [← succeeds_iff, expandLinuxImage_of_prepared tight_prepared (by decide) hbase hrel (by decide),
    tightMachine, bootMachine_eq]
  decide +kernel

theorem roomy_boot : ∃ s' b, expandLinuxImage roomyMachine 0x1300 0x1000 0x1000 0x3000 16 =
    some (s', some b) ∧ BootsAt 0 s' b := by
  obtain ⟨-, -, -, hbase, hrel⟩ := roomy_info
  rw [← succeeds_iff, expandLinuxImage_of_prepared roomy_prepared (by decide) hbase hrel (by decide),
    roomyMachine, bootMachine_eq]
  decide +kernel

/-- An AVAILABLE record holds `n` bytes from `x` on. -/
def MemoryMap.HoldsAt (r : MemoryMap) (x n : ℕ) : Prop :=
  r.type = MULTIBOOT_MEMORY_AVAILABLE ∧ r.addr.toNat ≤ x ∧ x + n ≤ r.addr.toNat + r.len.toNat

instance (r : MemoryMap) (x n : ℕ) : Decidable (r.HoldsAt x n) :=
  inferInstanceAs (Decidable (_ ∧ _))

/-- The initrd lies in one AVAILABLE record and ends at the highest legal address or below. -/
structure InitrdInRam (map : List MemoryMap) (max : BitVec 32) (b : Boot) : Prop where
  inside : ∃ r ∈ map, r.HoldsAt b.ramdiskImage.toNat b.ramdiskSize.toNat
  below : b.ramdiskImage.toNat + b.ramdiskSize.toNat ≤ max.toNat + 1

/-- A pointer to the end of `n` bytes, over the naturals: the bytes may run up to `2 ^ 32`. -/
def unwrapped (stop n : ℕ) : ℕ := if stop < n then stop + 2 ^ 32 else stop

/-- What the rounding of their start down to a page takes off the end. -/
def pageLoss (stop n : ℕ) : ℕ := (unwrapped stop n - n) % 4096

/-- An AVAILABLE record has room before `stop` for `n` bytes and for what the rounding loses. -/
def MemoryMap.RoomBefore (r : MemoryMap) (stop n : ℕ) : Prop :=
  r.type = MULTIBOOT_MEMORY_AVAILABLE ∧ r.addr.toNat + n + pageLoss stop n ≤ unwrapped stop n ∧
    unwrapped stop n ≤ r.addr.toNat + r.len.toNat + pageLoss stop n

instance (r : MemoryMap) (stop n : ℕ) : Decidable (r.RoomBefore stop n) :=
  inferInstanceAs (Decidable (_ ∧ _))

/-- Before the end of the region there is room, at legal addresses; or the addresses there are
illegal, and there is room before the highest legal one. -/
def InitrdFits (map : List MemoryMap) (max n : ℕ) : Prop :=
  ∃ r, initrdRegion map n = some r ∧
    ((unwrapped r.stop.toNat n - pageLoss r.stop.toNat n ≤ max ∨
        unwrapped r.stop.toNat n - pageLoss r.stop.toNat n = 2 ^ 32 ∧ max + 1 = 2 ^ 32) ∧
        (∃ q ∈ map, q.RoomBefore r.stop.toNat n) ∨
      max < (unwrapped r.stop.toNat n - pageLoss r.stop.toNat n) % 2 ^ 32 ∧ n ≤ max ∧
        ∃ q ∈ map, q.RoomBefore max n)

/-- The initrd has no byte in the area that the kernel runs in, nor in the block of the boot
parameters and the command line. -/
structure InitrdClear (p : LinuxSetup) (b : Boot) : Prop where
  kernel : Disjoint (Set.Ico b.ramdiskImage.toNat (b.ramdiskImage.toNat + b.ramdiskSize.toNat))
    (Set.Ico b.code32Start.toNat (b.code32Start.toNat + p.initSize.toNat))
  block : Disjoint (Set.Ico b.ramdiskImage.toNat (b.ramdiskImage.toNat + b.ramdiskSize.toNat))
    (Set.Ico b.bootParams.toNat (b.bootParams.toNat + p.bootSize.toNat))

/-- The kernel's area, rounded up to pages, ends below the top of the 32-bit addresses, or the
initrd before it; the block lies before the place of the initrd or behind it. -/
def InitrdApart (map : List MemoryMap) (max n code32Start initSize bootParams bootSize : ℕ) : Prop :=
  ∃ r, initrdRegion map n = some r ∧
    (initSize = 0 ∨ code32Start + (initSize + 4095) / 4096 * 4096 < 2 ^ 32 ∨
      initrdPlace r.stop.toNat max n + n ≤ code32Start) ∧
    (bootSize = 0 ∨ bootParams + bootSize ≤ initrdPlace r.stop.toNat max n ∨
      initrdPlace r.stop.toNat max n + n ≤ bootParams)

section properties
variable {s s' : Machine} {mbi linuxImage linuxSize initrdImage n : BitVec 32} {b : Boot}

theorem pageBelow_add_le {x n : ℕ} (hx : x < 2 ^ 32) (hn : n < 2 ^ 32) :
    pageBelow x n + n ≤ x + 1 ↔ n ≤ x := by
  unfold pageBelow
  omega

theorem pageBelow_add {x n : ℕ} (hx : x ≤ 2 ^ 32) (hn : n < 2 ^ 32) (hpos : 0 < n) :
    pageBelow x n + n = unwrapped x n - pageLoss x n := by
  unfold pageBelow pageLoss unwrapped
  split <;> omega

theorem pageLoss_add_le {x n : ℕ} (hn : n < 2 ^ 32) : pageLoss x n + n ≤ unwrapped x n := by
  have hle : n ≤ unwrapped x n := by
    unfold unwrapped
    split <;> omega
  have hmod := Nat.mod_le (unwrapped x n - n) 4096
  unfold pageLoss
  omega

theorem holdsAt_pageBelow_iff (r : MemoryMap) {x n : ℕ} (hx : x ≤ 2 ^ 32) (hn : n < 2 ^ 32)
    (hpos : 0 < n) : r.HoldsAt (pageBelow x n) n ↔ r.RoomBefore x n := by
  have hadd := pageBelow_add hx hn hpos
  have hle := pageLoss_add_le (x := x) hn
  unfold MemoryMap.HoldsAt MemoryMap.RoomBefore
  apply and_congr_right
  intro _
  omega

theorem initrdPlace_le (stop max n : ℕ) : initrdPlace stop max n + 4096 ≤ 2 ^ 32 := by
  unfold initrdPlace pageBelow
  split <;> omega

theorem toNat_alignForward_twice (x : BitVec 32) :
    (alignForward (alignForward x)).toNat = (x.toNat + 4095) % 2 ^ 32 / 4096 * 4096 := by
  rw [toNat_alignForward, toNat_alignForward]
  omega

theorem disjoint_Ico_iff {a m c k : ℕ} (hm : 0 < m) :
    Disjoint (Set.Ico a (a + m)) (Set.Ico c (c + k)) ↔ k = 0 ∨ c + k ≤ a ∨ a + m ≤ c := by
  rw [Set.Ico_disjoint_Ico]
  omega

/-- The place of the initrd after a success. -/
theorem Placed.place {s₁ : Machine} {p : LinuxSetup}
    (h : Placed s mbi linuxImage linuxSize initrdImage n s₁ p s' b) :
    ∃ r, initrdRegion (recordsOf s₁.mem mbi) n.toNat = some r ∧ r.stop.toNat ≤ 2 ^ 32 ∧
      b.ramdiskImage.toNat = initrdPlace r.stop.toNat
        (s₁.mem.field 32 linuxImage SetupHeader.initrdAddrMax).toNat n.toNat :=
  findInitrdBase_cases h.found

theorem exists_some_iff {α : Type*} {o : Option α} {a : α} (h : o = some a) {p : α → Prop} :
    (∃ x, o = some x ∧ p x) ↔ p a := by
  rw [h]
  simp only [Option.some.injEq, exists_eq_left']

/-- A success puts the initrd into legal RAM exactly if an AVAILABLE record has room for it, and for
the rounding, before the end of the region or before the highest legal address. -/
theorem initrdInRam_iff
    (h : expandLinuxImage s mbi linuxImage linuxSize initrdImage n = some (s', some b))
    (hw : WithInitrd initrdImage n) :
    ∃ s₁ p, prepareHeader s linuxImage linuxSize = (s₁, some p) ∧
      (InitrdInRam (recordsOf s₁.mem mbi) (s₁.mem.field 32 linuxImage SetupHeader.initrdAddrMax) b ↔
        InitrdFits (recordsOf s₁.mem mbi)
          (s₁.mem.field 32 linuxImage SetupHeader.initrdAddrMax).toNat n.toNat) := by
  obtain ⟨s₁, p, hp⟩ := expandLinuxImage_cases h hw
  refine ⟨s₁, p, hp.prepared, ?_⟩
  obtain ⟨r, hr, hstop, hplace⟩ := hp.place
  have hsize := hp.size
  have hn := n.isLt
  generalize s₁.mem.field 32 linuxImage SetupHeader.initrdAddrMax = max at hplace ⊢
  have hmax := max.isLt
  unfold InitrdFits
  rw [exists_some_iff hr]
  have hiff : InitrdInRam (recordsOf s₁.mem mbi) max b ↔
      (∃ q ∈ recordsOf s₁.mem mbi, q.HoldsAt b.ramdiskImage.toNat n.toNat) ∧
        b.ramdiskImage.toNat + n.toNat ≤ max.toNat + 1 := by
    rw [← hsize]
    exact ⟨fun h => ⟨h.1, h.2⟩, fun h => ⟨h.1, h.2⟩⟩
  rw [hiff, hplace]
  have hpos : 0 < n.toNat := Nat.pos_of_ne_zero (BitVec.toNat_ne_iff_ne.mpr hw.2)
  have hadd := pageBelow_add hstop hn hpos
  simp only [← holdsAt_pageBelow_iff _ hstop hn hpos,
    ← holdsAt_pageBelow_iff _ (Nat.le_of_lt hmax) hn hpos, ← hadd]
  unfold initrdPlace
  split
  next hlt =>
    rw [pageBelow_add_le hmax hn]
    constructor
    · rintro ⟨hq, hle⟩
      exact .inr ⟨hlt, hle, hq⟩
    · rintro (⟨hle, _⟩ | ⟨_, hle, hq⟩)
      · omega
      · exact ⟨hq, hle⟩
  next hge =>
    constructor
    · rintro ⟨hq, hle⟩
      exact .inl ⟨by omega, hq⟩
    · rintro (⟨hle, hq⟩ | ⟨hlt, _⟩)
      · exact ⟨hq, by omega⟩
      · exact absurd hlt hge

/-- A region of 16 bytes that begins at a page. -/
theorem initrdInRam_iff_roomy :
    ∃ s' b, expandLinuxImage roomyMachine 0x1300 0x1000 0x1000 0x3000 16 = some (s', some b) ∧
      ∃ s₁ p, prepareHeader roomyMachine 0x1000 0x1000 = (s₁, some p) ∧
        InitrdInRam (recordsOf s₁.mem 0x1300) (s₁.mem.field 32 0x1000 SetupHeader.initrdAddrMax) b := by
  obtain ⟨s', b, h, _⟩ := roomy_boot
  obtain ⟨s₁, p, hp, hiff⟩ := initrdInRam_iff h (by decide)
  refine ⟨s', b, h, s₁, p, hp, hiff.mpr ?_⟩
  obtain ⟨rfl, hpeq⟩ := Prod.mk.inj (hp.symm.trans roomy_prepared)
  cases hpeq
  dsimp only
  rw [roomy_info.2.1, roomy_info.2.2.1]
  exact ⟨⟨20, 0x200000, 16, 1⟩, by decide, .inl ⟨by decide, _, List.mem_singleton_self _, by decide⟩⟩

/-- Rounding to a page puts the initrd below the region. -/
theorem initrd_below_region :
    ∃ s' b, expandLinuxImage tightMachine 0x1300 0x1000 0x1000 0x1fffff 16 = some (s', some b) ∧
      ∃ s₁ p, prepareHeader tightMachine 0x1000 0x1000 = (s₁, some p) ∧
        ¬ InitrdInRam (recordsOf s₁.mem 0x1300)
          (s₁.mem.field 32 0x1000 SetupHeader.initrdAddrMax) b := by
  obtain ⟨s', b, h, himage, _⟩ := tight_boot
  refine ⟨s', b, h, _, _, tight_prepared, ?_⟩
  dsimp only
  rw [tight_info.2.2.1]
  rintro ⟨⟨r, hr, _, haddr, _⟩, _⟩
  rw [List.mem_singleton.mp hr, himage] at haddr
  exact absurd haddr (by decide)

/-- A success keeps the initrd off the kernel and the block exactly if the kernel's area does not
wrap, or ends up behind the initrd, and the block happens to lie beside it. -/
theorem initrdClear_iff
    (h : expandLinuxImage s mbi linuxImage linuxSize initrdImage n = some (s', some b))
    (hw : WithInitrd initrdImage n) :
    ∃ s₁ p, prepareHeader s linuxImage linuxSize = (s₁, some p) ∧
      (InitrdClear p b ↔ InitrdApart (recordsOf s₁.mem mbi)
        (s₁.mem.field 32 linuxImage SetupHeader.initrdAddrMax).toNat n.toNat
        (linuxImage + p.realModeSize).toNat p.initSize.toNat p.bootParams.toNat p.bootSize.toNat) := by
  obtain ⟨s₁, p, hp⟩ := expandLinuxImage_cases h hw
  refine ⟨s₁, p, hp.prepared, ?_⟩
  obtain ⟨r, hr, _, hplace⟩ := hp.place
  have hguard := hp.guard
  have hle := initrdPlace_le r.stop.toNat
    (s₁.mem.field 32 linuxImage SetupHeader.initrdAddrMax).toNat n.toNat
  have hpos : 0 < n.toNat := Nat.pos_of_ne_zero (BitVec.toNat_ne_iff_ne.mpr hw.2)
  unfold InitrdApart
  rw [exists_some_iff hr, ← hplace, ← hp.code32Start]
  rw [← hplace] at hle
  have hiff : InitrdClear p b ↔
      (p.initSize.toNat = 0 ∨ b.code32Start.toNat + p.initSize.toNat ≤ b.ramdiskImage.toNat ∨
        b.ramdiskImage.toNat + n.toNat ≤ b.code32Start.toNat) ∧
      (p.bootSize.toNat = 0 ∨ p.bootParams.toNat + p.bootSize.toNat ≤ b.ramdiskImage.toNat ∨
        b.ramdiskImage.toNat + n.toNat ≤ p.bootParams.toNat) := by
    rw [← disjoint_Ico_iff hpos, ← disjoint_Ico_iff hpos, ← hp.bootParams, ← hp.size]
    exact ⟨fun h => ⟨h.1, h.2⟩, fun h => ⟨h.1, h.2⟩⟩
  rw [hiff]
  apply and_congr_left
  intro _
  rw [BitVec.lt_def, BitVec.toNat_add, toNat_alignForward_twice] at hguard
  have hk := b.code32Start.isLt
  have hi := p.initSize.isLt
  omega

/-- A kernel of two pages at 0x1400 and a block at 0x8000 lie before the initrd. -/
theorem initrdClear_iff_roomy :
    ∃ s' b, expandLinuxImage roomyMachine 0x1300 0x1000 0x1000 0x3000 16 = some (s', some b) ∧
      ∃ s₁ p, prepareHeader roomyMachine 0x1000 0x1000 = (s₁, some p) ∧ InitrdClear p b := by
  obtain ⟨s', b, h, _⟩ := roomy_boot
  obtain ⟨s₁, p, hp, hiff⟩ := initrdClear_iff h (by decide)
  refine ⟨s', b, h, s₁, p, hp, hiff.mpr ?_⟩
  obtain ⟨rfl, hpeq⟩ := Prod.mk.inj (hp.symm.trans roomy_prepared)
  cases hpeq
  dsimp only
  rw [roomy_info.2.1, roomy_info.2.2.1]
  exact ⟨⟨20, 0x200000, 16, 1⟩, by decide, by decide, by decide⟩

/-- Rounding the size of the kernel wraps to zero, and the guard lets the initrd into its area. -/
theorem initrd_inside_kernel :
    ∃ s' b, expandLinuxImage tightMachine 0x1300 0x1000 0x1000 0x1fffff 16 = some (s', some b) ∧
      ∃ s₁ p, prepareHeader tightMachine 0x1000 0x1000 = (s₁, some p) ∧ ¬ InitrdClear p b := by
  obtain ⟨s', b, h, himage, hsize, hcode, _⟩ := tight_boot
  refine ⟨s', b, h, _, _, tight_prepared, ?_⟩
  rintro ⟨hkernel, _⟩
  rw [himage, hsize, hcode] at hkernel
  exact absurd hkernel (by rw [disjoint_Ico_iff (by decide)]; decide)

end properties

end IkgtLoader
