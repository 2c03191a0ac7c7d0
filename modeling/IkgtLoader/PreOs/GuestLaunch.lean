import IkgtLoader.PreOs.CommandLine
import IkgtLoader.PreOs.GivenMap
import IkgtLoader.PreOs.Launch
import IkgtLoader.PreOs.Layout

/-! `load_primary_guest_kernel`: the monitor's range is hidden, and the kernel launched whatever came
of it. The map that the guest is handed and the place of the initrd decide whether it keeps off; the
initrd may be copied over the map. -/
namespace IkgtLoader
open Flat Loop

/-- The bytes from the block on that are written before control goes to the kernel, for a map of `n`
records: the boot parameters, a command line as long as the header allows, and the entries. -/
def launchSpan (mem : Memory 32) (hdr : BitVec 32) (n : ℕ) : ℕ :=
  max (BootParams.size + (mem.field 32 hdr SetupHeader.cmdlineSize).toNat) (BootParams.span n)

section input
variable (s : Machine) (mbi : BitVec 32) (map : List MemoryMap) (g : Memory 32)

/-- Place and size of the initrd by a map and the header of the kernel, zeros if there is none. -/
def guestPlace : BitVec 32 × BitVec 32 :=
  if WithInitrd (givenInitrd s.mem mbi).1 (givenInitrd s.mem mbi).2 then
    (((initrdRegion map (givenInitrd s.mem mbi).2.toNat).map fun r => BitVec.ofNat 32
        (initrdPlace r.stop.toNat (s.mem.field 32 (kernelImage s.mem mbi)
          SetupHeader.initrdAddrMax).toNat (givenInitrd s.mem mbi).2.toNat)).getD 0,
      (givenInitrd s.mem mbi).2)
  else (0, 0)

/-- A byte of that place. -/
def InPlace (x : BitVec 32) : Prop := InSpan (guestPlace s mbi map).1 (guestPlace s mbi map).2.toNat x

/-- The memory `g` that has the map, with the initrd copied to its place. -/
def overlaidMem : Memory 32 :=
  g.copy (guestPlace s mbi map).1 (givenInitrd s.mem mbi).1 (guestPlace s mbi map).2.toNat

/-- The memory `g` with the pointer to the command line stored in the header, and then the initrd
copied to its place. -/
def pointedMem : Memory 32 :=
  (g.setField (kernelImage s.mem mbi) SetupHeader.cmdLinePtr
    (launchBlock s mbi + BitVec.ofNat 32 BootParams.size)).copy (guestPlace s mbi map).1
      (givenInitrd s.mem mbi).1 (guestPlace s mbi map).2.toNat

/-- Where the command line goes, and how long it may be, by the header as the copy leaves it. -/
def lineArea : Area :=
  ⟨(pointedMem s mbi map g).field 32 (kernelImage s.mem mbi) SetupHeader.cmdLinePtr,
    (pointedMem s mbi map g).field 32 (kernelImage s.mem mbi) SetupHeader.cmdlineSize⟩

/-- `k` bytes beside the header of the kernel and what is written from the boot parameters on. -/
def BesideLaunch (p : BitVec 32) (k : ℕ) : Prop :=
  Beside (launchBlock s mbi) (kernelImage s.mem mbi)
    (launchSpan s.mem (kernelImage s.mem mbi) (recordsOf (overlaidMem s mbi map g) mbi).length) p k

/-- The stores keep off what is read later: the header, the information, the initrd and the map, also
as the copy of the initrd leaves it. The initrd itself may be copied over any of them. -/
structure LaunchApart (size : BitVec 32) : Prop where
  block : Apart (launchBlock s mbi) (launchSpan s.mem (kernelImage s.mem mbi)
    (recordsOf (overlaidMem s mbi map g) mbi).length) (kernelImage s.mem mbi)
      SetupHeader.kernelHeaderSize
  info : BesideLaunch s mbi map g mbi MultibootInfo.span
  image : BesideLaunch s mbi map g (givenInitrd s.mem mbi).1 (guestPlace s mbi map).2.toNat
  imageKnown : ∀ x, InSpan (givenInitrd s.mem mbi).1 (guestPlace s mbi map).2.toNat x →
    x ∈ Known s mbi size map g
  given : ∀ i < map.length, BesideLaunch s mbi map g (mapEntry (MultibootInfo.mmapAddr g mbi) i)
    memoryMapSize
  overlaid : ∀ i < (recordsOf (overlaidMem s mbi map g) mbi).length, BesideLaunch s mbi map g
    (mapEntry (MultibootInfo.mmapAddr (overlaidMem s mbi map g) mbi) i) memoryMapSize
  overlaidKnown : ∀ i < (recordsOf (overlaidMem s mbi map g) mbi).length,
    ∀ x, InSpan (mapEntry (MultibootInfo.mmapAddr (overlaidMem s mbi map g) mbi) i) memoryMapSize x →
      x ∈ Known s mbi size map g ∨ InPlace s mbi map x
  lineInfo : Apart (lineArea s mbi map g).base (lineArea s mbi map g).size.toNat mbi MultibootInfo.span
  lineMap : ∀ i < (recordsOf (overlaidMem s mbi map g) mbi).length,
    Apart (lineArea s mbi map g).base (lineArea s mbi map g).size.toNat
      (mapEntry (MultibootInfo.mmapAddr (overlaidMem s mbi map g) mbi) i) memoryMapSize

/-- The initrd is copied neither over the information nor over the map. -/
structure Spared : Prop where
  info : Apart (guestPlace s mbi map).1 (guestPlace s mbi map).2.toNat mbi MultibootInfo.span
  map : ∀ i < map.length, Apart (guestPlace s mbi map).1 (guestPlace s mbi map).2.toNat
    (mapEntry (MultibootInfo.mmapAddr g mbi) i) memoryMapSize

/-- The records of the kernel and the initrd, and the header of the kernel, lie apart from what the
rewriting may store. -/
structure ModulesBeside (size : BitVec 32) : Prop where
  block : ∀ q k, q = getMbiModule s.mem mbi MVMLINUZ ∧ k = moduleSize ∨
      q = getMbiModule s.mem mbi MINITRD ∧ k = moduleSize ∨
      q = kernelImage s.mem mbi ∧ k = SetupHeader.kernelHeaderSize →
    Apart s.heapCurrent size.toNat q k ∧ Apart (mbi + BitVec.ofNat 32 44) 8 q k

/-- What the rewriting leaves in `t`, as far as the launch reads it. -/
structure Rewritten (size : BitVec 32) (t : Machine) : Prop where
  mem : Set.EqOn t.mem g (Known s mbi size map g)
  info : ∀ x, InSpan mbi MultibootInfo.span x → x ∈ Known s mbi size map g
  records : recordsOf t.mem mbi = map
  heapCurrent : t.heapCurrent = launchBlock s mbi
  given : givenInitrd t.mem mbi = givenInitrd s.mem mbi
  kernel : kernelImage t.mem mbi = kernelImage s.mem mbi
  header : ∀ o, o + 4 ≤ SetupHeader.kernelHeaderSize →
    t.mem.field 32 (kernelImage s.mem mbi) o = s.mem.field 32 (kernelImage s.mem mbi) o
  headerKnown : ∀ x, InSpan (kernelImage s.mem mbi) SetupHeader.kernelHeaderSize x →
    x ∈ Known s mbi size map g

end input

section rewritten
variable {s s₁ : Machine} {mbi hideMemAddr hideMemSize size : BitVec 32} {map : List MemoryMap}
  {g : Memory 32} {fuel : ℕ} {r : Bool}

/-- Beside the block and the two fields of the map such a memory is that of the entry. -/
theorem Given.frame (h : Given s mbi hideMemAddr hideMemSize size map g) {x : BitVec 32}
    (hx : ¬ InSpan s.heapCurrent size.toNat x) (hf : ¬ InSpan (mbi + BitVec.ofNat 32 44) 8 x) :
    g x = s.mem x := by
  cases h with
  | kept h hmap hframe => exact hframe x hx
  | cut k h hmap hframe haddr hlength hholds => exact hframe x hx hf

/-- The modules are found as before the rewriting. -/
theorem ModulesBeside.modules (h : ModulesBeside s mbi size)
    (hinfo : Apart s.heapCurrent size.toNat mbi MultibootInfo.span)
    (hframe : ∀ x, ¬ InSpan s.heapCurrent size.toNat x → ¬ InSpan (mbi + BitVec.ofNat 32 44) 8 x →
      s₁.mem x = s.mem x) :
    givenInitrd s₁.mem mbi = givenInitrd s.mem mbi ∧
      kernelImage s₁.mem mbi = kernelImage s.mem mbi ∧
      ∀ o, o + 4 ≤ SetupHeader.kernelHeaderSize →
        s₁.mem.field 32 (kernelImage s.mem mbi) o = s.mem.field 32 (kernelImage s.mem mbi) o := by
  have hmods : ∀ o, o + 4 ≤ 44 → s₁.mem.field 32 mbi o = s.mem.field 32 mbi o := by
    intro o ho
    apply Memory.field_of_unchanged _ (by decide)
    intro x hx
    apply hframe
    · exact fun hin => hinfo x hin (hx.of_offset (by unfold MultibootInfo.span; omega) (by decide))
    · exact apart_offset (.inl ho) (by omega) (by decide) x hx
  have hmodule : ∀ k, getMbiModule s₁.mem mbi k = getMbiModule s.mem mbi k := by
    intro k
    unfold getMbiModule MultibootInfo.modsCount MultibootInfo.modsAddr
    rw [hmods 20 (by decide), hmods 24 (by decide)]
  have hfield : ∀ {q k}, Apart s.heapCurrent size.toNat q k ∧ Apart (mbi + BitVec.ofNat 32 44) 8 q k →
      k ≤ 2 ^ 32 → ∀ o, o + 32 / 8 ≤ k → s₁.mem.field 32 q o = s.mem.field 32 q o := by
    intro q k hq hk o ho
    apply Memory.field_congr _ ho
    apply Memory.Same.of_unchanged _ hk
    exact fun x hx => hframe x (hq.1.symm x hx) (hq.2.symm x hx)
  have hkernel := hfield (h.block _ _ (.inl ⟨rfl, rfl⟩)) (by decide)
  have hinitrd := hfield (h.block _ _ (.inr (.inl ⟨rfl, rfl⟩))) (by decide)
  have hheader := hfield (h.block _ _ (.inr (.inr ⟨rfl, rfl⟩))) (by decide)
  refine ⟨?_, ?_, hheader⟩
  · unfold givenInitrd moduleStart moduleEnd
    dsimp only
    rw [hmodule, hinitrd 0 (by decide), hinitrd 4 (by decide)]
  · unfold kernelImage moduleStart
    rw [hmodule]
    exact hkernel 0 (by decide)

/-- The call leaves what any such memory says. -/
theorem Rewritten.of_hide (hb : HideBeside s mbi hideMemAddr hideMemSize size)
    (hm : ModulesBeside s mbi size) (hg : Given s mbi hideMemAddr hideMemSize size map g)
    (h : hideRuntimeMemory s mbi hideMemAddr hideMemSize fuel = some (s₁, r)) :
    Rewritten s mbi map g size s₁ := by
  obtain ⟨⟨map', hgiven⟩, hheap⟩ := hideRuntimeMemory_given hb h
  obtain ⟨rfl, hmem⟩ := hg.eqOn hgiven hb
  obtain ⟨hinitrd, hkernel, hheader⟩ := hm.modules hb.info fun x => hgiven.frame
  refine ⟨hmem, fun x hx hin => absurd hx (hb.info x hin), hgiven.records hb, hheap, hinitrd, hkernel,
    hheader, fun x hx hin => absurd hx ((hm.block _ _ (.inr (.inr ⟨rfl, rfl⟩))).1 x hin)⟩

end rewritten

section launch
variable {s t s' : Machine} {mbi linuxSize size : BitVec 32} {map : List MemoryMap} {g : Memory 32}
  {b : Boot} {length : ℕ} {x : BitVec 32}

/-- A byte beside the header and what is written from the boot parameters on. -/
def Untaken (s : Machine) (mbi : BitVec 32) (map : List MemoryMap) (g : Memory 32) : Set (BitVec 32) :=
  {x | ¬ InSpan (kernelImage s.mem mbi) SetupHeader.kernelHeaderSize x ∧
    ¬ InSpan (launchBlock s mbi) (launchSpan s.mem (kernelImage s.mem mbi)
      (recordsOf (overlaidMem s mbi map g) mbi).length) x}

theorem BesideLaunch.untaken {p : BitVec 32} {k : ℕ} (h : BesideLaunch s mbi map g p k)
    (hx : InSpan p k x) : x ∈ Untaken s mbi map g :=
  ⟨fun hin => h.header x hin hx, fun hin => h.block x hin hx⟩

theorem Rewritten.bootBlockSize_le (hr : Rewritten s mbi map g size t) (n : ℕ) :
    (bootBlockSize t.mem (kernelImage s.mem mbi)).toNat ≤
      launchSpan s.mem (kernelImage s.mem mbi) n := by
  unfold bootBlockSize
  rw [hr.header _ (by decide), BitVec.toNat_add]
  exact (Nat.mod_le _ _).trans (le_max_left _ _)

/-- The first stores leave what is beside them. -/
theorem Rewritten.ready (hr : Rewritten s mbi map g size t) (hx : x ∈ Untaken s mbi map g) :
    readyMem t (kernelImage s.mem mbi) x = t.mem x := by
  apply readyMem_frame hx.1
  rw [hr.heapCurrent]
  exact fun hin => hx.2 (hin.mono (hr.bootBlockSize_le _))

/-- The initrd is put where the given map and the header of the kernel say. -/
theorem Rewritten.target (hr : Rewritten s mbi map g size t) (hap : LaunchApart s mbi map g size)
    (h : expandLinuxImage t mbi (kernelImage s.mem mbi) linuxSize (givenInitrd s.mem mbi).1
      (givenInitrd s.mem mbi).2 = some (s', some b)) :
    initrdTarget t mbi (kernelImage s.mem mbi) (givenInitrd s.mem mbi).1 (givenInitrd s.mem mbi).2 =
      guestPlace s mbi map := by
  unfold initrdTarget guestPlace
  by_cases hw : WithInitrd (givenInitrd s.mem mbi).1 (givenInitrd s.mem mbi).2
  · obtain ⟨s₂, p, hp⟩ := expandLinuxImage_cases h hw
    have hfound := hp.found
    rw [(prepareHeader_prepared hp.prepared).mem] at hfound
    obtain ⟨r, hr', -, hplace⟩ := findInitrdBase_cases hfound
    -- neither the map nor the limit is stored to before
    have hinfo : Memory.Same (readyMem t (kernelImage s.mem mbi)) mbi t.mem mbi MultibootInfo.span :=
      Memory.Same.of_unchanged (fun x hx => hr.ready (hap.info.untaken hx)) (by decide)
    have haddr : MultibootInfo.mmapAddr t.mem mbi = MultibootInfo.mmapAddr g mbi :=
      Memory.field_of_eqOn hr.mem hr.info (by decide) (by decide)
    have hrecords : recordsOf (readyMem t (kernelImage s.mem mbi)) mbi = map := by
      rw [← hr.records]
      apply recordsOf_of_info
      · exact Memory.field_congr hinfo (by decide)
      · exact Memory.field_congr hinfo (by decide)
      · rw [hr.records, haddr]
        exact fun i hi x hx => hr.ready ((hap.given i hi).untaken hx)
    have hmax : (readyMem t (kernelImage s.mem mbi)).field 32 (kernelImage s.mem mbi)
        SetupHeader.initrdAddrMax = s.mem.field 32 (kernelImage s.mem mbi)
          SetupHeader.initrdAddrMax := by
      rw [← hr.header _ (by decide)]
      apply readyMem_field (by decide) (by decide)
      rw [hr.heapCurrent]
      exact hap.block.mono (hr.bootBlockSize_le _) le_rfl
    rw [hrecords] at hr'
    rw [hmax] at hplace
    rw [if_pos hw, if_pos hw, hfound, hr', Option.map_some, Option.getD_some, Option.getD_some,
      ← hplace, BitVec.ofNat_toNat, BitVec.setWidth_eq]
  · rw [if_neg hw, if_neg hw]

/-- With the initrd in place the memory is the overlaid one, as far as that is known. -/
theorem Rewritten.laid (hr : Rewritten s mbi map g size t) (hap : LaunchApart s mbi map g size)
    (htarget : initrdTarget t mbi (kernelImage s.mem mbi) (givenInitrd s.mem mbi).1
      (givenInitrd s.mem mbi).2 = guestPlace s mbi map) :
    Set.EqOn (laidMem t mbi (kernelImage s.mem mbi) (givenInitrd s.mem mbi).1
        (givenInitrd s.mem mbi).2) (overlaidMem s mbi map g)
      ((Known s mbi size map g ∩ Untaken s mbi map g) ∪ {x | InPlace s mbi map x}) := by
  have hready : Set.EqOn (readyMem t (kernelImage s.mem mbi)) g
      (Known s mbi size map g ∩ Untaken s mbi map g) := by
    rintro x ⟨hk, hu⟩
    exact (hr.ready hu).trans (hr.mem hk)
  unfold laidMem overlaidMem InPlace
  rw [htarget]
  apply Memory.eqOn_copy_union hready
  exact fun x hx => ⟨hap.imageKnown x hx, hap.image.untaken hx⟩

/-- Before the copy the two fields for the command line are those of the header with the pointer. -/
theorem Rewritten.pointed (hr : Rewritten s mbi map g size t) (hap : LaunchApart s mbi map g size) :
    Set.EqOn (g.setField (kernelImage s.mem mbi) SetupHeader.cmdLinePtr
        (launchBlock s mbi + BitVec.ofNat 32 BootParams.size)) (readyMem t (kernelImage s.mem mbi))
      (((Known s mbi size map g ∩ Untaken s mbi map g) ∪
          {x | InSpan (kernelImage s.mem mbi + BitVec.ofNat 32 SetupHeader.cmdLinePtr) 4 x}) ∪
        {x | InSpan (kernelImage s.mem mbi + BitVec.ofNat 32 SetupHeader.cmdlineSize) 4 x}) := by
  have hptr : (g.setField (kernelImage s.mem mbi) SetupHeader.cmdLinePtr
        (launchBlock s mbi + BitVec.ofNat 32 BootParams.size)).field 32 (kernelImage s.mem mbi)
          SetupHeader.cmdLinePtr =
      (readyMem t (kernelImage s.mem mbi)).field 32 (kernelImage s.mem mbi) SetupHeader.cmdLinePtr := by
    rw [readyMem_cmdLinePtr, hr.heapCurrent, Memory.field_setField _ _ _ _ (by decide) (by decide)]
  have hroom : t.mem.field 32 (kernelImage s.mem mbi) SetupHeader.cmdlineSize =
      (readyMem t (kernelImage s.mem mbi)).field 32 (kernelImage s.mem mbi)
        SetupHeader.cmdlineSize := by
    rw [readyMem_field (by decide) (by decide)]
    rw [hr.heapCurrent]
    exact hap.block.mono (hr.bootBlockSize_le _) le_rfl
  rintro x ((⟨hk, hu⟩ | hx) | hx)
  · rw [Memory.setField_of_outside g _ hu.1 (by decide) (by decide)]
    exact ((hr.ready hu).trans (hr.mem hk)).symm
  · exact ((Memory.field_eq_iff_same (by decide)).mp hptr).apply_inSpan hx
  · have hin : InSpan (kernelImage s.mem mbi) SetupHeader.kernelHeaderSize x :=
      hx.of_offset (by decide) (by decide)
    rw [Memory.setField_of_not_inSpan, ← hr.mem (hr.headerKnown x hin)]
    · exact ((Memory.field_eq_iff_same (by decide)).mp hroom).apply_inSpan hx
    · exact fun hin' => apart_offset (.inr (by decide)) (by decide) (by decide) x hx hin'

/-- The command line goes where the header says, as the copy of the initrd leaves it. -/
theorem Rewritten.lineArea_eq (hr : Rewritten s mbi map g size t) (hap : LaunchApart s mbi map g size)
    (htarget : initrdTarget t mbi (kernelImage s.mem mbi) (givenInitrd s.mem mbi).1
      (givenInitrd s.mem mbi).2 = guestPlace s mbi map) :
    lineArea s mbi map g =
      ⟨(laidMem t mbi (kernelImage s.mem mbi) (givenInitrd s.mem mbi).1 (givenInitrd s.mem mbi).2).field
          32 (kernelImage s.mem mbi) SetupHeader.cmdLinePtr,
        (laidMem t mbi (kernelImage s.mem mbi) (givenInitrd s.mem mbi).1
          (givenInitrd s.mem mbi).2).field 32 (kernelImage s.mem mbi) SetupHeader.cmdlineSize⟩ := by
  have hsrc : ∀ x, InSpan (givenInitrd s.mem mbi).1 (guestPlace s mbi map).2.toNat x →
      x ∈ Known s mbi size map g ∩ Untaken s mbi map g :=
    fun x hx => ⟨hap.imageKnown x hx, hap.image.untaken hx⟩
  have hcopied := Memory.eqOn_copy (hr.pointed hap) (fun x hx => .inl (.inl (hsrc x hx)))
    (guestPlace s mbi map).1
  unfold laidMem
  rw [htarget]
  apply congrArg₂ Area.mk
  · exact Memory.field_of_unchanged (fun x hx => hcopied (.inl (.inr hx))) (by decide)
  · exact Memory.field_of_unchanged (fun x hx => hcopied (.inr hx)) (by decide)

/-- Where the initrd misses the header the command line goes behind the boot parameters. -/
theorem lineArea_of_apart (h : Apart (guestPlace s mbi map).1 (guestPlace s mbi map).2.toNat
      (kernelImage s.mem mbi) SetupHeader.kernelHeaderSize) :
    lineArea s mbi map g = ⟨launchBlock s mbi + BitVec.ofNat 32 BootParams.size,
      g.field 32 (kernelImage s.mem mbi) SetupHeader.cmdlineSize⟩ := by
  have hleft : Memory.Same (pointedMem s mbi map g) (kernelImage s.mem mbi)
      (g.setField (kernelImage s.mem mbi) SetupHeader.cmdLinePtr
        (launchBlock s mbi + BitVec.ofNat 32 BootParams.size)) (kernelImage s.mem mbi)
      SetupHeader.kernelHeaderSize :=
    .of_unchanged (fun x hx => Memory.copy_of_not_inSpan _ _ (h.symm x hx)) (by decide)
  unfold lineArea
  rw [Memory.field_congr hleft (by decide), Memory.field_congr hleft (by decide),
    Memory.field_setField _ _ _ _ (by decide) (by decide),
    Memory.field_setField_of_ne _ _ (.inr (by decide)) (by decide) (by decide)]

/-- The memory in which the boot parameters are set up. -/
theorem Rewritten.lined (hr : Rewritten s mbi map g size t) (hap : LaunchApart s mbi map g size)
    (htarget : initrdTarget t mbi (kernelImage s.mem mbi) (givenInitrd s.mem mbi).1
      (givenInitrd s.mem mbi).2 = guestPlace s mbi map)
    (h : Expanded t mbi (kernelImage s.mem mbi) linuxSize (givenInitrd s.mem mbi).1
      (givenInitrd s.mem mbi).2 s' b length) (hu : x ∈ Untaken s mbi map g)
    (hl : ¬ InSpan (lineArea s mbi map g).base (lineArea s mbi map g).size.toNat x)
    (hx : x ∈ Known s mbi size map g ∨ InPlace s mbi map x) :
    linedMem t mbi (kernelImage s.mem mbi) (givenInitrd s.mem mbi).1 (givenInitrd s.mem mbi).2
      length x = overlaidMem s mbi map g x := by
  rw [hr.lineArea_eq hap htarget] at hl
  unfold linedMem
  rw [Memory.copy_of_not_inSpan _ _ fun hin => hl (hin.mono h.short), completedMem,
    finishedHeader_frame hu.1]
  apply hr.laid hap htarget
  exact hx.imp (fun hk => ⟨hk, hu⟩) id

/-- The boot parameters list the overlaid map, with the count cut to eight bits. -/
theorem Rewritten.lists (hr : Rewritten s mbi map g size t) (hap : LaunchApart s mbi map g size)
    (htarget : initrdTarget t mbi (kernelImage s.mem mbi) (givenInitrd s.mem mbi).1
      (givenInitrd s.mem mbi).2 = guestPlace s mbi map)
    (h : Expanded t mbi (kernelImage s.mem mbi) linuxSize (givenInitrd s.mem mbi).1
      (givenInitrd s.mem mbi).2 s' b length) :
    s'.mem.field 8 b.bootParams BootParams.e820Entries =
        BitVec.ofNat 8 (recordsOf (overlaidMem s mbi map g) mbi).length ∧
      ∀ i r, (recordsOf (overlaidMem s mbi map g) mbi)[i]? = some r →
        readBootEntry s'.mem (bootEntry b.bootParams i) = r.toBootEntry := by
  have hsetup := h.setup
  have hlined := fun x => hr.lined (x := x) hap htarget h
  rw [h.bootParams, hr.heapCurrent] at hsetup ⊢
  generalize linedMem t mbi _ _ _ length = m at hsetup hlined
  have hinfo : Memory.Same m mbi (overlaidMem s mbi map g) mbi MultibootInfo.span := by
    apply Memory.Same.of_unchanged _ (by decide)
    exact fun x hx => hlined x (hap.info.untaken hx) (fun hl => hap.lineInfo x hl hx)
      (.inl (hr.info x hx))
  have hspan : BootParams.span (recordsOf (overlaidMem s mbi map g) mbi).length ≤
      launchSpan s.mem (kernelImage s.mem mbi) (recordsOf (overlaidMem s mbi map g) mbi).length :=
    le_max_right _ _
  have hfit : BootParams.span (recordsOf (overlaidMem s mbi map g) mbi).length ≤ 2 ^ 32 := by
    apply BootParams.span_le
    rw [length_recordsOf]
    have hlt := (MultibootInfo.mmapLength (overlaidMem s mbi map g) mbi).isLt
    unfold memoryMapSize
    omega
  have hblock : Apart (launchBlock s mbi)
      (BootParams.span (recordsOf (overlaidMem s mbi map g) mbi).length) mbi MultibootInfo.span :=
    hap.info.block.mono hspan le_rfl
  have haddr : MultibootInfo.mmapAddr m mbi = MultibootInfo.mmapAddr (overlaidMem s mbi map g) mbi :=
    Memory.field_congr hinfo (by decide)
  have hlength : MultibootInfo.mmapLength m mbi =
      MultibootInfo.mmapLength (overlaidMem s mbi map g) mbi := Memory.field_congr hinfo (by decide)
  obtain ⟨hcount, hentries⟩ := setupBootParams_lists hblock hfit
    (by rw [hlength, length_recordsOf])
    (fun i hi => haddr ▸ (hap.overlaid i hi).block.mono hspan le_rfl) hsetup
  refine ⟨hcount, fun i r hget => ?_⟩
  have hi := (List.getElem?_eq_some_iff.mp hget).1
  have hread : readMap m (mapEntry (MultibootInfo.mmapAddr (overlaidMem s mbi map g) mbi) i) =
      readMap (overlaidMem s mbi map g)
        (mapEntry (MultibootInfo.mmapAddr (overlaidMem s mbi map g) mbi) i) := by
    apply readMap_congr
    apply Memory.Same.of_unchanged _ (by decide)
    exact fun x hx => hlined x ((hap.overlaid i hi).untaken hx) (fun hl => hap.lineMap i hi x hl hx)
      (hap.overlaidKnown i hi x hx)
  rw [getElem?_recordsOf hi] at hget
  rw [hentries i hi, haddr, hread, Option.some.inj hget]

end launch

/-- `load_primary_guest_kernel`, for the information that the guest's RBX points to. What the
rewriting returns is not looked at. -/
def loadPrimaryGuestKernel (d : XmonDesc) (td mbi : BitVec 32) (s : Machine) (fuel : ℕ) :
    Option (Machine × Option Boot) :=
  match hideRuntimeMemory s mbi (hidden d td).base (hidden d td).size fuel with
  | none => none
  | some (s, _) => launchLinuxKernel s mbi

/-- The guest keeps off the range: it is handed no AVAILABLE entry that covers a part of it, and the
initrd is not there. -/
structure KeepsOff (mem : Memory 32) (b : Boot) (a : Area) : Prop where
  map : ∀ i < (mem.field 8 b.bootParams BootParams.e820Entries).toNat,
    (readBootEntry mem (bootEntry b.bootParams i)).type = MULTIBOOT_MEMORY_AVAILABLE → ∀ x, a.Mem x →
      ¬ ((readBootEntry mem (bootEntry b.bootParams i)).addr.toNat ≤ x ∧
        x < (readBootEntry mem (bootEntry b.bootParams i)).addr.toNat +
          (readBootEntry mem (bootEntry b.bootParams i)).size.toNat)
  initrd : Apart b.ramdiskImage b.ramdiskSize.toNat a.base a.size.toNat

/-- If the rewriting is given up, no record that is handed on exposes the range; if it goes through,
the first piece of a record that spoils it is not handed on. -/
structure MapKept (s : Machine) (mbi : BitVec 32) (a : Area) : Prop where
  uncut : HideFails s mbi a.base a.size →
    ∀ r ∈ handedOn (recordsOf s.mem mbi), ¬ r.Exposes a.base a.size
  cut : ∀ k, HideCuts s mbi a.base a.size k → ∀ i < k, (walked s mbi i).Spoils a.base a.size →
    hideSlotsBefore a.base a.size s.mem (MultibootInfo.mmapAddr s.mem mbi) k % 256 ≤
      hideSlotsBefore a.base a.size s.mem (MultibootInfo.mmapAddr s.mem mbi) i

/-- The map is kept where the initrd spares it; where the initrd is copied over it, no record exposes
the range that is handed on as the copy leaves it; and the place of the initrd is beside the range. -/
structure LaunchKept (s : Machine) (mbi : BitVec 32) (a : Area) (map : List MemoryMap) (g : Memory 32) :
    Prop where
  spared : Spared s mbi map g → MapKept s mbi a
  covered : ¬ Spared s mbi map g →
    ∀ r ∈ handedOn (recordsOf (overlaidMem s mbi map g) mbi), ¬ r.Exposes a.base a.size
  initrd : Apart (guestPlace s mbi map).1 (guestPlace s mbi map).2.toNat a.base a.size.toNat

/-- The range is no empty one and ends below the top of the addresses, and no record of the map
reaches beyond the 64-bit ones. -/
structure LaunchInput (s : Machine) (mbi : BitVec 32) (a : Area) : Prop where
  pos : 0 < a.size.toNat
  sum : a.base.toNat + a.size.toNat < 2 ^ 32
  below : ∀ k, HideCuts s mbi a.base a.size k → ∀ i < k,
    (walked s mbi i).addr.toNat + (walked s mbi i).len.toNat ≤ 2 ^ 64

section guest
variable {s s' s₁ : Machine} {mbi size : BitVec 32} {a : Area} {b : Boot} {d : XmonDesc}
  {td : BitVec 32} {fuel : ℕ} {map : List MemoryMap} {g : Memory 32}

theorem toBootEntry_available (r : MemoryMap) :
    r.toBootEntry.type = MULTIBOOT_MEMORY_AVAILABLE ↔ r.type = MULTIBOOT_MEMORY_AVAILABLE := by
  unfold MemoryMap.toBootEntry
  dsimp only
  split
  next hbad =>
    rw [hbad]
    exact iff_of_false (by decide) (by decide)
  next => rfl

/-- The entries that the guest is handed are those of the records that are handed on. -/
theorem keepsOff_map_iff {mem : Memory 32} {map : List MemoryMap}
    (hcount : mem.field 8 b.bootParams BootParams.e820Entries = BitVec.ofNat 8 map.length)
    (hentries : ∀ i r, map[i]? = some r →
      readBootEntry mem (bootEntry b.bootParams i) = r.toBootEntry) :
    (∀ i < (mem.field 8 b.bootParams BootParams.e820Entries).toNat,
      (readBootEntry mem (bootEntry b.bootParams i)).type = MULTIBOOT_MEMORY_AVAILABLE →
        ∀ x, a.Mem x → ¬ ((readBootEntry mem (bootEntry b.bootParams i)).addr.toNat ≤ x ∧
          x < (readBootEntry mem (bootEntry b.bootParams i)).addr.toNat +
            (readBootEntry mem (bootEntry b.bootParams i)).size.toNat)) ↔
      ∀ r ∈ handedOn map, ¬ r.Exposes a.base a.size := by
  rw [hcount, BitVec.toNat_ofNat]
  unfold handedOn
  constructor
  · rintro h r hr ⟨ht, x, hx, hc⟩
    obtain ⟨i, hi⟩ := List.getElem?_of_mem hr
    rw [List.getElem?_take] at hi
    split at hi
    next hlt =>
      have hentry := hentries i r hi
      refine h i hlt ?_ x hx ?_
      · rw [hentry]
        exact (toBootEntry_available r).mpr ht
      · rw [hentry]
        exact hc
    next => cases hi
  · intro h i hi ht x hx hc
    have hlt : i < map.length := Nat.lt_of_lt_of_le hi (Nat.mod_le _ _)
    have hget := List.getElem?_eq_getElem hlt
    have hentry := hentries i _ hget
    rw [hentry] at ht hc
    apply h map[i]
    · apply List.mem_of_getElem? (i := i)
      rw [List.getElem?_take_of_lt hi]
      exact hget
    · exact ⟨(toBootEntry_available _).mp ht, x, hx, hc⟩

theorem handedOn_given_iff (hin : LaunchInput s mbi a) (hg : Given s mbi a.base a.size size map g) :
    (∀ r ∈ handedOn map, ¬ r.Exposes a.base a.size) ↔ MapKept s mbi a := by
  cases hg with
  | kept hfails hmap =>
    subst hmap
    constructor
    · exact fun h => ⟨fun _ => h, fun k hk => absurd hfails hk.not_fails⟩
    · exact fun h => h.uncut hfails
  | cut k hcuts hl =>
    have hiff := handedOn_hideRecords_iff hin.sum hin.pos (hin.below k hcuts) hl
    constructor
    · intro h
      refine ⟨fun hfails => absurd hfails hcuts.not_fails, fun j hj => ?_⟩
      rw [← hcuts.unique hj]
      exact hiff.mp h
    · exact fun h => hiff.mpr (h.cut k hcuts)

/-- Where the initrd spares the map it is still the given one. -/
theorem Spared.records (h : Spared s mbi map g) (hrecords : recordsOf g mbi = map) :
    recordsOf (overlaidMem s mbi map g) mbi = map := by
  have hout : ∀ {p : BitVec 32} {k : ℕ}, Apart (guestPlace s mbi map).1
      (guestPlace s mbi map).2.toNat p k → ∀ x, InSpan p k x → overlaidMem s mbi map g x = g x :=
    fun hp x hx => Memory.copy_of_not_inSpan _ _ (hp.symm x hx)
  have hinfo : Memory.Same (overlaidMem s mbi map g) mbi g mbi MultibootInfo.span :=
    Memory.Same.of_unchanged (hout h.info) (by decide)
  rw [← hrecords]
  apply recordsOf_of_info
  · rw [hrecords]
    exact Memory.field_congr hinfo (by decide)
  · rw [hrecords]
    exact Memory.field_congr hinfo (by decide)
  · rw [hrecords]
    exact fun i hi => hout (h.map i hi)

/-- What the guest is given: the entries of the overlaid map, and the initrd in its place. -/
theorem Rewritten.launch (hr : Rewritten s mbi map g size s₁) (hap : LaunchApart s mbi map g size)
    (h : launchLinuxKernel s₁ mbi = some (s', some b)) :
    s'.mem.field 8 b.bootParams BootParams.e820Entries =
        BitVec.ofNat 8 (recordsOf (overlaidMem s mbi map g) mbi).length ∧
      (∀ i r, (recordsOf (overlaidMem s mbi map g) mbi)[i]? = some r →
        readBootEntry s'.mem (bootEntry b.bootParams i) = r.toBootEntry) ∧
      (b.ramdiskImage, b.ramdiskSize) = guestPlace s mbi map := by
  rw [launchLinuxKernel_eq, hr.kernel, hr.given] at h
  split at h
  next => cases h
  next =>
    obtain ⟨length, he⟩ := expandLinuxImage_expanded h
    have htarget := hr.target hap h
    obtain ⟨hcount, hentries⟩ := hr.lists hap htarget he
    refine ⟨hcount, hentries, ?_⟩
    rw [he.ramdiskImage, he.ramdiskSize, ← htarget]

/-- A launch keeps the guest off the range exactly if the map that is given does, as the copy of the
initrd leaves it, and the initrd is placed beside the range. -/
theorem launch_keepsOff_iff (hin : LaunchInput s mbi a)
    (hb : HideBeside s mbi a.base a.size size) (hg : Given s mbi a.base a.size size map g)
    (hap : LaunchApart s mbi map g size) (hr : Rewritten s mbi map g size s₁)
    (h : launchLinuxKernel s₁ mbi = some (s', some b)) :
    KeepsOff s'.mem b a ↔ LaunchKept s mbi a map g := by
  obtain ⟨hcount, hentries, hplace⟩ := hr.launch hap h
  have hmap := keepsOff_map_iff (a := a) hcount hentries
  have hgiven := handedOn_given_iff hin hg
  have himage : b.ramdiskImage = (guestPlace s mbi map).1 := congrArg Prod.fst hplace
  have hsize : b.ramdiskSize = (guestPlace s mbi map).2 := congrArg Prod.snd hplace
  constructor
  · intro hk
    have hall := hmap.mp hk.map
    refine ⟨fun hs => ?_, fun _ => hall, ?_⟩
    · rw [hs.records (hg.records hb)] at hall
      exact hgiven.mp hall
    · rw [← himage, ← hsize]
      exact hk.initrd
  · intro hk
    refine ⟨hmap.mpr ?_, ?_⟩
    · by_cases hs : Spared s mbi map g
      · rw [hs.records (hg.records hb)]
        exact hgiven.mpr (hk.spared hs)
      · exact hk.covered hs
    · rw [himage, hsize]
      exact hk.initrd

/-- The guest that is launched keeps off the range to hide exactly if no record that exposes it is
handed on, cut or not, and as the copy of the initrd leaves it, and the initrd is placed beside it.
There is always a memory that has the map that is given, such as what the rewriting leaves. -/
theorem loadPrimaryGuestKernel_keepsOff_iff
    (h : loadPrimaryGuestKernel d td mbi s fuel = some (s', some b))
    (hin : LaunchInput s mbi (hidden d td))
    (hb : HideBeside s mbi (hidden d td).base (hidden d td).size size)
    (hm : ModulesBeside s mbi size) :
    (∃ map g, Given s mbi (hidden d td).base (hidden d td).size size map g) ∧
      ∀ map g, Given s mbi (hidden d td).base (hidden d td).size size map g →
        LaunchApart s mbi map g size →
          (KeepsOff s'.mem b (hidden d td) ↔ LaunchKept s mbi (hidden d td) map g) := by
  unfold loadPrimaryGuestKernel at h
  split at h
  next => cases h
  next s₁ r hhide =>
    obtain ⟨⟨map, hgiven⟩, -⟩ := hideRuntimeMemory_given hb hhide
    refine ⟨⟨map, s₁.mem, hgiven⟩, fun map g hg hap => ?_⟩
    exact launch_keepsOff_iff hin hb hg hap (.of_hide hb hm hg hhide) h

end guest

/-- A package of 126 sectors and two megabytes for the monitor. -/
def guestDesc : XmonDesc := PackageFiles.xmonDesc ⟨2048, 20480, 8192, 31744⟩ 2

/-- The kernel with an initrd of 16 bytes at 0x3000, and the heap of a package at 0x100000. -/
def guestMachine : Machine :=
  { loneMachine 0x3000 0x3010 with
    mem := (loneMachine 0x3000 0x3010).mem.setField 0x1300 20 (2 : BitVec 32)
    heapBase := 0x120000
    heapCurrent := 0x120000
    heapTops := 0x1c0000 }

theorem guest_hidden : hidden guestDesc 0x100000 = ⟨0x1c0000, 0x140000⟩ := rfl

/-- The only record of the map. -/
def guestRecord : MemoryMap := ⟨20, 0x200000, 16, MULTIBOOT_MEMORY_AVAILABLE⟩

/-- What is left of the rewriting: the only record ends within the range. -/
def refusedMachine : Machine :=
  { guestMachine with
    heapCurrent := 0x120048
    mem := putEntry (putEntry (zeroMem guestMachine.mem 0x120000 72) 0x120000 0x1340 MemoryMap.addr
      (fun r => 0x1c0000 - r.addr) MemoryMap.type) 0x120018 0x1340 (fun _ => 0x1c0000)
      (fun _ => 0x140000) (fun _ => MULTIBOOT_MEMORY_RESERVED) }

example : MultibootInfo.modsCount guestMachine.mem 0x1300 = 2 := by decide +kernel

theorem guest_info : ModulesAt guestMachine.mem 2 0x3000 0x3010 ∧
    MultibootInfo.flags guestMachine.mem 0x1300 = MBI_MEMMAP ∧
    hideRequest guestMachine.mem 0x1300 = 72 ∧ readMap guestMachine.mem 0x1340 = guestRecord ∧
    guestPlace guestMachine 0x1300 [guestRecord] = (0x200000, 16) ∧
    launchBlock guestMachine 0x1300 = 0x120048 ∧ launchSpan guestMachine.mem 0x1000 1 = 0x1010 ∧
    guestMachine.mem.field 32 0x1000 SetupHeader.cmdlineSize = 16 := by
  rw [guestMachine, loneMachine, roomyMachine, bootMachine_eq]
  decide +kernel

theorem zeroed_outside {x : BitVec 32} (hx : ¬ InSpan 0x120000 72 x) :
    zeroMem guestMachine.mem 0x120000 72 x = guestMachine.mem x :=
  Memory.fill_of_not_inSpan _ _ hx

/-- Only the block of the new map is written. -/
theorem refused_outside {x : BitVec 32} (hx : ¬ InSpan 0x120000 72 x) :
    refusedMachine.mem x = guestMachine.mem x := by
  unfold refusedMachine
  dsimp only
  rw [putEntry_frame _ _ _ _ _ _ fun hin => hx (hin.of_le (by decide) (by decide) (by decide)),
    putEntry_frame _ _ _ _ _ _ fun hin => hx (hin.of_le (by decide) (by decide) (by decide))]
  exact zeroed_outside hx

theorem refused_eq : refusedMachine.mem =
    fun x => if InSpan 0x120000 72 x then refusedMachine.mem x else guestMachine.mem x := by
  funext x
  split
  · rfl
  next hout => exact refused_outside hout

theorem guest_refused : hideRuntimeMemory guestMachine 0x1300 (hidden guestDesc 0x100000).base
    (hidden guestDesc 0x100000).size 1 = some (refusedMachine, false) := by
  obtain ⟨hmodules, hflags, hrequest, hread, -⟩ := guest_info
  have halloc : allocateMemory guestMachine 72 =
      ({ guestMachine with
          heapCurrent := 0x120048
          mem := zeroMem guestMachine.mem 0x120000 72 }, 0x120000) := rfl
  have hbelow : ∀ {p : BitVec 32} {k : ℕ}, p.toNat + k ≤ 0x120000 →
      ∀ x, InSpan p k x → ¬ InSpan 0x120000 72 x :=
    fun hk x hx => apart_of_le hk (by decide) x hx
  have hinfo : Memory.Same (zeroMem guestMachine.mem 0x120000 72) 0x1300 guestMachine.mem 0x1300
      MultibootInfo.span :=
    .of_unchanged (fun x hx => zeroed_outside (hbelow (by decide) x hx)) (by decide)
  have haddr : MultibootInfo.mmapAddr (zeroMem guestMachine.mem 0x120000 72) 0x1300 = 0x1340 :=
    (Memory.field_congr hinfo (by decide)).trans hmodules.map
  have hlength : MultibootInfo.mmapLength (zeroMem guestMachine.mem 0x120000 72) 0x1300 = 24 :=
    (Memory.field_congr hinfo (by decide)).trans hmodules.mapBytes
  have hrecord : readMap (zeroMem guestMachine.mem 0x120000 72) 0x1340 = guestRecord :=
    (readMap_congr (.of_unchanged (fun x hx => zeroed_outside (hbelow (by decide) x hx))
      (by decide))).trans hread
  have hrecord' : readMap refusedMachine.mem 0x1340 = guestRecord :=
    (readMap_congr (.of_unchanged (fun x hx => refused_outside (hbelow (by decide) x hx))
      (by decide))).trans hread
  have hstep : hideStep 0x1c0000 0x140000 0x120000 0
      ⟨zeroMem guestMachine.mem 0x120000 72, 0, 0x1340⟩ =
        .quit ⟨refusedMachine.mem, 1, 0x1340⟩ := by
    unfold hideStep
    dsimp only
    rw [hrecord, if_neg (by decide), if_neg (by decide)]
    apply if_pos
    change (readMap refusedMachine.mem 0x1340).stop < _
    rw [hrecord']
    decide
  rw [guest_hidden, hideRuntimeMemory_eq (by rw [hflags]; decide) (by rw [hrequest, halloc]; decide),
    hrequest, halloc]
  unfold hideLoop Loop.run
  dsimp only
  rw [haddr, hlength, if_pos (by decide), hstep]
  rfl

theorem refused_modules : ModulesAt refusedMachine.mem 2 0x3000 0x3010 :=
  guest_info.1.congr fun x hx =>
    refused_outside fun hin => apart_of_le (by decide) (by decide) x hx hin

theorem refused_zero {x : BitVec 32} (hx : InSpan 0x120048 0x1010 x) : refusedMachine.mem x = 0 := by
  have hinfo : ¬ InSpan (0x1300 : BitVec 32) MultibootInfo.span x :=
    fun hin => apart_of_le (by decide) (by decide) x hin hx
  apply (refused_outside fun hin => apart_of_le (by decide) (by decide) x hin hx).trans
  unfold guestMachine
  dsimp only
  rw [Memory.setField_of_outside _ _ hinfo (by decide) (by decide)]
  exact loneMachine_zero 0x3000 0x3010 (by decide) (by decide) hx

theorem refused_prepared : prepareHeader refusedMachine 0x1000 0x264 =
    ({ refusedMachine with
        mem := preparedMem refusedMachine.mem 0x1000 0x120048, heapCurrent := 0x120048 + 0x1010 },
      some ⟨0x120048, 0x1010, 0x400, 0x2000⟩) := by
  obtain ⟨hsects, hmagic, hload, hversion, hline, hinit⟩ := refused_modules.header
  refine prepareHeader_of_zero (by decide) ?_ ?_ ?_ ?_ ?_ hinit (by decide) (by decide)
    fun x hx => refused_zero hx
  · rw [hsects]
    decide
  · rw [hsects, hmagic, hload]
    decide
  · rw [hversion]
    decide
  · rw [hline]
    decide
  · rw [hsects]
    decide

/-- The kernel is launched all the same. -/
theorem refused_launch : ∃ s' b, launchLinuxKernel refusedMachine 0x1300 = some (s', some b) := by
  obtain ⟨hbase, hrel⟩ :
      findInitrdBase (preparedMem refusedMachine.mem 0x1000 0x120048) 0x1300 0x1000 16 =
          some 0x200000 ∧
        (preparedMem refusedMachine.mem 0x1000 0x120048).field 8 0x1000
          SetupHeader.relocatableKernel ≠ 0 := by
    rw [refused_eq, guestMachine, loneMachine, roomyMachine, bootMachine_eq]
    decide +kernel
  have hrun : expandLinuxImage refusedMachine 0x1300 0x1000 0x264 0x3000 16 =
      finishLinux _ _ _ _ _ _ _ :=
    expandLinuxImage_of_prepared refused_prepared (by decide) hbase hrel (by decide)
  obtain ⟨s', b, h⟩ : ∃ s' b, expandLinuxImage refusedMachine 0x1300 0x1000 0x264 0x3000 16 =
      some (s', some b) := by
    rw [hrun]
    refine finishLinux_succeeds (?_ : _ = some 0) ?_ ?_
    all_goals
      dsimp only
      rw [refused_eq, guestMachine, loneMachine, roomyMachine, bootMachine_eq]
      decide +kernel
  exact ⟨s', b, refused_modules.launch.trans h⟩

theorem guest_records : recordsOf guestMachine.mem 0x1300 = [guestRecord] := by
  obtain ⟨hmodules, -, -, hread, -⟩ := guest_info
  unfold recordsOf
  rw [hmodules.mapBytes, hmodules.map]
  exact congrArg (fun r => [r]) hread

/-- The walk is given up at the first record. -/
theorem guest_first : InMap guestMachine 0x1300 0 ∧
    hideRecord 0x1c0000 0x140000 (walked guestMachine 0x1300 0) = none := by
  obtain ⟨hmodules, -, -, hrecord, -⟩ := guest_info
  unfold InMap walked mapEnd
  rw [recordAt_zero, hmodules.map, hmodules.mapBytes, hrecord]
  decide

theorem guest_comes {k : ℕ} (h : Comes guestMachine 0x1300 0x1c0000 0x140000 k) : k = 0 := by
  rcases Nat.eq_zero_or_pos k with h0 | hpos
  · exact h0
  · exact absurd guest_first.2 (h 0 hpos).2

theorem guest_fails : HideFails guestMachine 0x1300 0x1c0000 0x140000 :=
  .inr (.inr ⟨0, fun i hi => absurd hi (Nat.not_lt_zero i), guest_first.1, guest_first.2⟩)

theorem guest_input : LaunchInput guestMachine 0x1300 (hidden guestDesc 0x100000) := by
  rw [guest_hidden]
  refine ⟨by decide, by decide, fun k hk i hi => ?_⟩
  rw [guest_comes hk.comes] at hi
  exact absurd hi (Nat.not_lt_zero i)

theorem guest_hideBeside : HideBeside guestMachine 0x1300 (hidden guestDesc 0x100000).base
    (hidden guestDesc 0x100000).size 72 := by
  obtain ⟨hmodules, -, hrequest, hrecord, -⟩ := guest_info
  have hbelow : ∀ {p : BitVec 32} {k : ℕ}, p.toNat + k ≤ 0x120000 →
      Apart guestMachine.heapCurrent (72 : BitVec 32).toNat p k :=
    fun h => (apart_of_le h (by decide)).symm
  rw [guest_hidden]
  constructor
  · rw [hrequest]
  · exact hbelow (by decide)
  · rw [guest_records, hmodules.map]
    intro i hi
    obtain rfl : i = 0 := Nat.lt_one_iff.mp hi
    exact hbelow (by decide)
  · intro k hk _
    obtain rfl := guest_comes hk
    rw [hideSlotsBefore_succ, hideSlotsBefore_zero, hmodules.map, recordAt_zero, hrecord]
    exact ⟨by decide, hbelow (by decide)⟩

theorem guest_modulesBeside : ModulesBeside guestMachine 0x1300 72 := by
  obtain ⟨hmodules, -⟩ := guest_info
  constructor
  rw [hmodules.kernelImage, hmodules.kernel, hmodules.initrd]
  rintro q k (⟨rfl, rfl⟩ | ⟨rfl, rfl⟩ | ⟨rfl, rfl⟩)
  · exact ⟨(apart_of_le (by decide) (by decide)).symm, apart_of_le (by decide) (by decide)⟩
  · exact ⟨(apart_of_le (by decide) (by decide)).symm, apart_of_le (by decide) (by decide)⟩
  · exact ⟨(apart_of_le (by decide) (by decide)).symm, (apart_of_le (by decide) (by decide)).symm⟩

theorem guest_given : Given guestMachine 0x1300 (hidden guestDesc 0x100000).base
    (hidden guestDesc 0x100000).size 72 [guestRecord] guestMachine.mem := by
  rw [guest_hidden]
  exact .kept guest_fails guest_records.symm fun _ _ => rfl

/-- The initrd goes where the only record begins. -/
theorem guest_spared : Spared guestMachine 0x1300 [guestRecord] guestMachine.mem := by
  obtain ⟨hmodules, -, -, -, hplace, -⟩ := guest_info
  constructor
  · rw [hplace]
    exact (apart_of_le (by decide) (by decide)).symm
  · rw [hplace, hmodules.map]
    intro i hi
    obtain rfl : i = 0 := Nat.lt_one_iff.mp hi
    exact (apart_of_le (by decide) (by decide)).symm

theorem guest_overlaid : recordsOf (overlaidMem guestMachine 0x1300 [guestRecord] guestMachine.mem)
      0x1300 = [guestRecord] ∧
    MultibootInfo.mmapAddr (overlaidMem guestMachine 0x1300 [guestRecord] guestMachine.mem) 0x1300 =
      0x1340 := by
  refine ⟨guest_spared.records guest_records, ?_⟩
  have hinfo : Memory.Same (overlaidMem guestMachine 0x1300 [guestRecord] guestMachine.mem) 0x1300
      guestMachine.mem 0x1300 MultibootInfo.span :=
    .of_unchanged (fun x hx => Memory.copy_of_not_inSpan _ _ (guest_spared.info.symm x hx)) (by decide)
  exact (Memory.field_congr hinfo (by decide)).trans guest_info.1.map

theorem guest_launchApart :
    LaunchApart guestMachine 0x1300 [guestRecord] guestMachine.mem 72 := by
  obtain ⟨hrecords, haddr⟩ := guest_overlaid
  obtain ⟨hmodules, -, -, -, hplace, hblock, hspan, hroom⟩ := guest_info
  have hkernel := hmodules.kernelImage
  have hinitrd : givenInitrd guestMachine.mem 0x1300 = (0x3000, 16) := hmodules.givenInitrd
  have hbeside : ∀ {p : BitVec 32} {k : ℕ}, 0x1264 ≤ p.toNat → p.toNat + k ≤ 0x120048 →
      BesideLaunch guestMachine 0x1300 [guestRecord] guestMachine.mem p k := by
    intro p k hp hk
    unfold BesideLaunch
    rw [hrecords, hkernel, hblock]
    refine ⟨apart_of_le hp (hk.trans (by decide)), ?_⟩
    change Apart _ (launchSpan guestMachine.mem 0x1000 1) _ _
    rw [hspan]
    exact (apart_of_le hk (by decide)).symm
  have hknown : ∀ {p x : BitVec 32} {k : ℕ}, p.toNat + k ≤ 0x120000 → InSpan p k x →
      x ∈ Known guestMachine 0x1300 72 [guestRecord] guestMachine.mem :=
    fun hp hx hin => absurd hin (apart_of_le hp (by decide) _ hx)
  have hline : lineArea guestMachine 0x1300 [guestRecord] guestMachine.mem = ⟨0x121048, 16⟩ := by
    rw [lineArea_of_apart, hkernel, hblock, hroom]
    · rfl
    · rw [hplace, hkernel]
      exact (apart_of_le (by decide) (by decide)).symm
  constructor
  · rw [hrecords, hkernel, hblock]
    change Apart _ (launchSpan guestMachine.mem 0x1000 1) _ _
    rw [hspan]
    exact (apart_of_le (by decide) (by decide)).symm
  · exact hbeside (by decide) (by decide)
  · rw [hplace, hinitrd]
    exact hbeside (by decide) (by decide)
  · rw [hplace, hinitrd]
    exact fun x hx => hknown (by decide) hx
  · rw [hmodules.map]
    intro i hi
    obtain rfl : i = 0 := Nat.lt_one_iff.mp hi
    exact hbeside (by decide) (by decide)
  · rw [hrecords, haddr]
    intro i hi
    obtain rfl : i = 0 := Nat.lt_one_iff.mp hi
    exact hbeside (by decide) (by decide)
  · rw [hrecords, haddr]
    intro i hi x hx
    obtain rfl : i = 0 := Nat.lt_one_iff.mp hi
    exact .inl (hknown (by decide) hx)
  · rw [hline]
    exact (apart_of_le (by decide) (by decide)).symm
  · rw [hline, hrecords, haddr]
    intro i hi
    obtain rfl : i = 0 := Nat.lt_one_iff.mp hi
    exact (apart_of_le (by decide) (by decide)).symm

theorem guest_load : ∃ s' b, loadPrimaryGuestKernel guestDesc 0x100000 0x1300 guestMachine 1 =
    some (s', some b) ∧ launchLinuxKernel refusedMachine 0x1300 = some (s', some b) := by
  obtain ⟨s', b, h⟩ := refused_launch
  refine ⟨s', b, ?_, h⟩
  unfold loadPrimaryGuestKernel
  rw [guest_refused]
  exact h

theorem guest_rewritten :
    Rewritten guestMachine 0x1300 [guestRecord] guestMachine.mem 72 refusedMachine :=
  .of_hide guest_hideBeside guest_modulesBeside guest_given guest_refused

/-- A range that ends behind the only record, and an initrd. -/
theorem loadPrimaryGuestKernel_keepsOff_iff_refused :
    ∃ s' b, loadPrimaryGuestKernel guestDesc 0x100000 0x1300 guestMachine 1 = some (s', some b) ∧
      (KeepsOff s'.mem b (hidden guestDesc 0x100000) ↔
        LaunchKept guestMachine 0x1300 (hidden guestDesc 0x100000) [guestRecord]
          guestMachine.mem) := by
  obtain ⟨s', b, hload, -⟩ := guest_load
  refine ⟨s', b, hload, ?_⟩
  exact (loadPrimaryGuestKernel_keepsOff_iff hload guest_input guest_hideBeside
    guest_modulesBeside).2 _ _ guest_given guest_launchApart

/-- The range of the monitor crosses the end of the only record: the rewriting is given up, and the
kernel is launched with all of the record AVAILABLE, and the initrd in it. -/
theorem loadPrimaryGuestKernel_exposed :
    ∃ s' b, loadPrimaryGuestKernel guestDesc 0x100000 0x1300 guestMachine 1 = some (s', some b) ∧
      s'.mem.field 8 b.bootParams BootParams.e820Entries = 1 ∧
      readBootEntry s'.mem (bootEntry b.bootParams 0) = ⟨0x200000, 16, MULTIBOOT_MEMORY_AVAILABLE⟩ ∧
      b.ramdiskImage = 0x200000 ∧ ¬ KeepsOff s'.mem b (hidden guestDesc 0x100000) := by
  obtain ⟨s', b, hload, hlaunch⟩ := guest_load
  obtain ⟨hcount, hentries, hplace⟩ := guest_rewritten.launch guest_launchApart hlaunch
  rw [guest_overlaid.1] at hcount hentries
  rw [guest_info.2.2.2.2.1] at hplace
  have hentry := hentries 0 _ rfl
  refine ⟨s', b, hload, hcount, hentry, congrArg Prod.fst hplace, fun hk => ?_⟩
  -- the entry has its first byte in the range
  have hout := hk.map 0 (by rw [hcount]; decide) (by rw [hentry]; rfl) 0x200000
  rw [hentry, guest_hidden] at hout
  exact hout ⟨by decide, by decide⟩ ⟨by decide, by decide⟩

end IkgtLoader
