import IkgtLoader.PreOs.Expansion

/-! What becomes of the bytes of the initrd: a forward copy, and the stores before and after it. -/
namespace IkgtLoader
open Flat Loop

/-- The bytes at `ramdisk_image` are those that were at the module on entry. -/
def InitrdIntact (s s' : Machine) (initrdImage : BitVec 32) (b : Boot) : Prop :=
  Memory.Same s'.mem b.ramdiskImage s.mem initrdImage b.ramdiskSize.toNat

/-- The place of the initrd as a pointer. -/
def initrdPointer (r : MemoryMap) (max n : BitVec 32) : BitVec 32 :=
  BitVec.ofNat 32 (initrdPlace r.stop.toNat max.toNat n.toNat)

/-- The bytes of the header and of the boot parameters that are stored when the initrd is in place,
and the copy of the command line. -/
inductive StoredLast (s : Machine) (mbi hdr initrdImage n x : BitVec 32) : Prop
  | vidMode (h : InSpan (hdr + BitVec.ofNat 32 SetupHeader.vidMode) 2 x)
  | places (h : InSpan (hdr + BitVec.ofNat 32 SetupHeader.code32Start) 12 x)
  | line (length : ℕ)
      (hlength : strlen (completedMem s mbi hdr initrdImage n)
        (kernelLine (completedMem s mbi hdr initrdImage n) mbi) addressSpace = some length)
      (h : InSpan ((laidMem s mbi hdr initrdImage n).field 32 hdr SetupHeader.cmdLinePtr) length x)
  | params (length : ℕ)
      (hlength : strlen (completedMem s mbi hdr initrdImage n)
        (kernelLine (completedMem s mbi hdr initrdImage n) mbi) addressSpace = some length)
      (h : SetupStores s.heapCurrent
        (bootRounds (headedMem s mbi hdr initrdImage n length) mbi s.heapCurrent) x)

/-- What is stored when the initrd is in place falls on other bytes. -/
def CopySpared (s : Machine) (mbi hdr initrdImage n : BitVec 32) : Prop :=
  ∀ x, InSpan (initrdTarget s mbi hdr initrdImage n).1 n.toNat x →
    ¬ StoredLast s mbi hdr initrdImage n x

/-- The bytes of `m` from `src` on, repeated at a distance `d`, are those of `m'`. -/
def Repeats (m m' : Memory 32) (src : BitVec 32) (d n : ℕ) : Prop :=
  ∀ k < n, m (src + BitVec.ofNat 32 (k % d)) = m' (src + BitVec.ofNat 32 k)

/-- Nothing more is asked of the bytes if the copy does not go into its own source. -/
theorem repeats_iff_same {m m' : Memory 32} {src : BitVec 32} {d n : ℕ} (h : d = 0 ∨ n ≤ d) :
    Repeats m m' src d n ↔ Memory.Same m src m' src n := by
  have hmod : ∀ k < n, k % d = k := by
    intro k hk
    rcases h with rfl | hle
    · exact Nat.mod_zero k
    · exact Nat.mod_eq_of_lt (by omega)
  unfold Repeats Memory.Same
  constructor
  · intro hr k hk
    rw [← hr k hk, hmod k hk]
  · intro hs k hk
    rw [hmod k hk]
    exact hs k hk

section copy
variable {s s' : Machine} {mbi linuxImage linuxSize initrdImage n x : BitVec 32} {b : Boot}
  {length : ℕ}

/-- The header is complete with two stores: `vid_mode`, and three fields one behind another. -/
theorem finishedHeader_stores {m : Memory 32} {hdr base ramdiskImage ramdiskSize : BitVec 32}
    (hmode : ¬ InSpan (hdr + BitVec.ofNat 32 SetupHeader.vidMode) 2 x)
    (hplaces : ¬ InSpan (hdr + BitVec.ofNat 32 SetupHeader.code32Start) 12 x) :
    finishedHeader m hdr base ramdiskImage ramdiskSize x = m x := by
  have hfield : ∀ {o}, SetupHeader.code32Start ≤ o → o + 4 ≤ SetupHeader.code32Start + 12 →
      ¬ InSpan (hdr + BitVec.ofNat 32 o) (32 / 8) x := by
    intro o hlow hhigh hin
    unfold SetupHeader.code32Start at *
    rw [inSpan_offset (by omega)] at hin
    rw [inSpan_offset (by decide)] at hplaces
    omega
  unfold finishedHeader
  rw [Memory.setField_of_not_inSpan _ _ hmode,
    Memory.setField_of_not_inSpan _ _ (hfield (by decide) (by decide)),
    Memory.setField_of_not_inSpan _ _ (hfield (by decide) (by decide)),
    Memory.setField_of_not_inSpan _ _ (hfield (by decide) (by decide))]

/-- A byte that is not stored to any more is as the copy of the initrd has left it. -/
theorem Expanded.not_storedLast
    (h : Expanded s mbi linuxImage linuxSize initrdImage n s' b length)
    (hx : ¬ StoredLast s mbi linuxImage initrdImage n x) :
    s'.mem x = laidMem s mbi linuxImage initrdImage n x := by
  have hsetup := h.setup
  rw [h.bootParams] at hsetup
  rw [setupBootParams_stores hsetup fun hin => hx (.params length h.line hin), linedMem,
    Memory.copy_of_not_inSpan _ _ fun hin => hx (.line length h.line hin), completedMem,
    finishedHeader_stores (fun hin => hx (.vidMode hin)) fun hin => hx (.places hin)]

/-- A byte of the copy: a forward copy into its own source repeats what it has copied. -/
theorem laidMem_initrd (s : Machine) (mbi hdr : BitVec 32) (hw : WithInitrd initrdImage n) {k : ℕ}
    (hk : k < n.toNat) : laidMem s mbi hdr initrdImage n
        ((initrdTarget s mbi hdr initrdImage n).1 + BitVec.ofNat 32 k) =
      readyMem s hdr (initrdImage + BitVec.ofNat 32
        (k % ((initrdTarget s mbi hdr initrdImage n).1 - initrdImage).toNat)) := by
  unfold laidMem
  rw [initrdTarget_size, if_pos hw]
  exact Memory.copy_apply_mod _ (Nat.le_of_lt n.isLt) hk

/-- Where the last stores spare it, the initrd arrives exactly if the bytes of the module after the
first ones, repeated at the distance of the copy, are those on entry. -/
theorem initrdIntact_iff
    (h : expandLinuxImage s mbi linuxImage linuxSize initrdImage n = some (s', some b))
    (hw : WithInitrd initrdImage n) :
    ∃ r, initrdRegion (recordsOf (readyMem s linuxImage) mbi) n.toNat = some r ∧
      (initrdTarget s mbi linuxImage initrdImage n).1 = initrdPointer r
        ((readyMem s linuxImage).field 32 linuxImage SetupHeader.initrdAddrMax) n ∧
      (CopySpared s mbi linuxImage initrdImage n →
        (InitrdIntact s s' initrdImage b ↔ Repeats (readyMem s linuxImage) s.mem initrdImage
          ((initrdTarget s mbi linuxImage initrdImage n).1 - initrdImage).toNat n.toNat)) := by
  obtain ⟨s₁, p, hp⟩ := expandLinuxImage_cases h hw
  obtain ⟨length, he⟩ := expandLinuxImage_expanded h
  obtain ⟨r, hr, -, hplace⟩ := hp.place
  rw [(prepareHeader_prepared hp.prepared).mem] at hr hplace
  refine ⟨r, hr, ?_, fun hc => ?_⟩
  · unfold initrdPointer
    rw [← hplace, BitVec.ofNat_toNat, BitVec.setWidth_eq, he.ramdiskImage]
  have hbyte : ∀ k < n.toNat, s'.mem (b.ramdiskImage + BitVec.ofNat 32 k) =
      readyMem s linuxImage (initrdImage + BitVec.ofNat 32
        (k % ((initrdTarget s mbi linuxImage initrdImage n).1 - initrdImage).toNat)) := by
    intro k hk
    rw [he.ramdiskImage, ← laidMem_initrd s mbi linuxImage hw hk]
    apply he.not_storedLast
    exact hc _ ((inSpan_add_ofNat (hk.trans n.isLt)).mpr hk)
  unfold InitrdIntact Repeats
  rw [hp.size]
  constructor
  · intro hsame k hk
    rw [← hbyte k hk]
    exact hsame k hk
  · intro hrep k hk
    rw [hbyte k hk]
    exact hrep k hk

/-- Header, information, block and place in ascending order. -/
theorem roomy_spared : CopySpared roomyMachine 0x1300 0x1000 0x3000 16 := by
  have hrecords : (MultibootInfo.mmapLength (headedMem roomyMachine 0x1300 0x1000 0x3000 16 0)
      0x1300).toNat / memoryMapSize = 1 := by
    rw [headedMem, linedMem_zero, completedMem, laidMem, roomy_target, roomy_ready, roomyMachine, bootMachine_eq]
    decide +kernel
  have hinfo : Apart 0x1300 MultibootInfo.span (0x8000 : BitVec 32) (BootParams.span 1) :=
    apart_of_le (by decide) (by decide)
  have hbelow : ∀ {p : BitVec 32} {k : ℕ} {x : BitVec 32}, p.toNat + k ≤ 0x200000 → InSpan p k x →
      ¬ InSpan (0x200000 : BitVec 32) 16 x := fun hk hin => apart_of_le hk (by decide) _ hin
  intro x hx hlast
  rw [roomy_target] at hx
  cases hlast with
  | vidMode h => exact hbelow (by decide) h hx
  | places h => exact hbelow (by decide) h hx
  | line length hlength h =>
    cases roomy_line.symm.trans hlength
    exact not_inSpan_zero _ _ h
  | params length hlength h =>
    cases roomy_line.symm.trans hlength
    rw [show roomyMachine.heapCurrent = 0x8000 from rfl, bootRounds_eq hinfo.symm hrecords] at h
    exact hbelow (by decide) (h.inSpan (by decide)) hx

/-- The initrd is moved far behind the module. -/
theorem initrdIntact_iff_roomy :
    ∃ s' b, expandLinuxImage roomyMachine 0x1300 0x1000 0x1000 0x3000 16 = some (s', some b) ∧
      InitrdIntact roomyMachine s' 0x3000 b := by
  obtain ⟨s', b, h, _⟩ := roomy_boot
  obtain ⟨r, _, _, hiff⟩ := initrdIntact_iff h (by decide)
  refine ⟨s', b, h, (hiff roomy_spared).mpr ?_⟩
  rw [roomy_target, repeats_iff_same (.inr (by decide))]
  apply Memory.Same.of_unchanged _ (by decide)
  intro x hx
  have hhdr : ¬ InSpan (0x1000 : BitVec 32) SetupHeader.kernelHeaderSize x :=
    fun hin => apart_of_le (by decide) (by decide) x hin hx
  rw [roomy_ready]
  exact preparedMem_frame hhdr

/-- The initrd is moved up by one byte, and its first byte is copied over and over. -/
theorem initrd_smeared :
    ∃ s' b, expandLinuxImage tightMachine 0x1300 0x1000 0x1000 0x1fffff 16 = some (s', some b) ∧
      ¬ InitrdIntact tightMachine s' 0x1fffff b := by
  obtain ⟨s', b, h, himage, hsize, _, _, hbyte⟩ := tight_boot
  refine ⟨s', b, h, fun hsame => ?_⟩
  have hsecond := hsame 1 (by rw [hsize]; decide)
  rw [himage, show (0x200000 : BitVec 32) + BitVec.ofNat 32 1 = 0x200001 from rfl, hbyte,
    show (0x1fffff : BitVec 32) + BitVec.ofNat 32 1 = 0x200000 from rfl, tight_info.2.1] at hsecond
  exact absurd hsecond (by decide)

end copy

end IkgtLoader
