import IkgtLoader.PreOs.Expansion

/-! When the command line of the kernel arrives behind the boot parameters: the block is sized by the
header, the length is checked against the header, and the terminating zero is that of the block. -/
namespace IkgtLoader
open Flat Loop

section strlen
variable {m m' : Memory 32} {a : BitVec 32} {n fuel : ℕ}

theorem strlen_eq_some : strlen m a fuel = some n ↔ n < fuel ∧ m (a + BitVec.ofNat 32 n) = 0 ∧
    ∀ k < n, m (a + BitVec.ofNat 32 k) ≠ 0 := by
  induction fuel generalizing a n with
  | zero => simp [strlen]
  | succ fuel ih =>
    unfold strlen
    by_cases hz : m a = 0
    · rw [if_pos hz]
      constructor
      · intro hn
        cases hn
        simpa using hz
      · rintro ⟨_, _, hall⟩
        rcases Nat.eq_zero_or_pos n with rfl | hpos
        · rfl
        · exact absurd (by simpa using hz) (hall 0 hpos)
    · rw [if_neg hz]
      cases n with
      | zero => simpa using hz
      | succ n =>
        simp only [Option.map_eq_some_iff, Nat.add_right_cancel_iff, exists_eq_right, ih,
          Memory.add_ofNat_succ]
        constructor
        · rintro ⟨hlt, hend, hall⟩
          refine ⟨by omega, hend, fun k hk => ?_⟩
          cases k with
          | zero => simpa using hz
          | succ k =>
            rw [Memory.add_ofNat_succ]
            exact hall k (by omega)
        · rintro ⟨hlt, hend, hall⟩
          refine ⟨by omega, hend, fun k hk => ?_⟩
          rw [← Memory.add_ofNat_succ]
          exact hall (k + 1) (by omega)

/-- The length depends on the string with its zero only. -/
theorem strlen_congr (hs : Memory.Same m' a m a (n + 1)) (h : strlen m a fuel = some n) :
    strlen m' a fuel = some n := by
  rw [strlen_eq_some] at h ⊢
  refine ⟨h.1, ?_, fun k hk => ?_⟩
  · rw [hs n (Nat.lt_succ_self n)]
    exact h.2.1
  · rw [hs k (by omega)]
    exact h.2.2 k hk

end strlen

/-- The bytes from the block on that may be written: the block, the string behind the boot parameters
with one byte more, and the map. -/
def lineSpan (mem : Memory 32) (mbi hdr : BitVec 32) (length : ℕ) : ℕ :=
  max (max (bootBlockSize mem hdr).toNat (BootParams.size + length + 1))
    (BootParams.span (recordsOf mem mbi).length)

/-- `k` bytes beside the header and so many bytes from the block on. -/
structure Beside (block hdr : BitVec 32) (span : ℕ) (p : BitVec 32) (k : ℕ) : Prop where
  header : Apart hdr SetupHeader.kernelHeaderSize p k
  block : Apart block span p k

/-- The block lies apart from the header, and what is read apart from both. -/
structure LineInput (s : Machine) (mbi hdr : BitVec 32) (length : ℕ) : Prop where
  blockHeader : Apart s.heapCurrent (lineSpan s.mem mbi hdr length) hdr SetupHeader.kernelHeaderSize
  info : Beside s.heapCurrent hdr (lineSpan s.mem mbi hdr length) mbi MultibootInfo.span
  module : Beside s.heapCurrent hdr (lineSpan s.mem mbi hdr length)
    (getMbiModule s.mem mbi MVMLINUZ) moduleSize
  line : Beside s.heapCurrent hdr (lineSpan s.mem mbi hdr length) (kernelLine s.mem mbi) (length + 1)
  map : ∀ i < (recordsOf s.mem mbi).length, Beside s.heapCurrent hdr
    (lineSpan s.mem mbi hdr length) (mapEntry (MultibootInfo.mmapAddr s.mem mbi) i) memoryMapSize

/-- What is read on the way to the command line: the information, the record of the kernel, the
string, and where it is copied to. -/
def LineRead (mem : Memory 32) (mbi hdr : BitVec 32) (length : ℕ) (x : BitVec 32) : Prop :=
  InSpan mbi MultibootInfo.span x ∨ InSpan (getMbiModule mem mbi MVMLINUZ) moduleSize x ∨
    InSpan (kernelLine mem mbi) (length + 1) x ∨
    InSpan (hdr + BitVec.ofNat 32 SetupHeader.cmdLinePtr) 4 x

/-- The copy of the initrd leaves what is read as it was. -/
def LineSpared (s : Machine) (mbi hdr initrdImage n : BitVec 32) (length : ℕ) : Prop :=
  ∀ x, LineRead s.mem mbi hdr length x → laidMem s mbi hdr initrdImage n x = readyMem s hdr x

/-- Byte `k` of an entry. -/
def BootEntry.byte (e : BootEntry) (k : ℕ) : BitVec 8 :=
  if k < 8 then BitVec.ofNat 8 (e.addr.toNat / 256 ^ k)
  else if k < 16 then BitVec.ofNat 8 (e.size.toNat / 256 ^ (k - 8))
  else BitVec.ofNat 8 (e.type.toNat / 256 ^ (k - 16))

/-- What the entries for a map have at an offset behind the boot parameters, if they reach it. -/
def entryByte (map : List MemoryMap) (o : ℕ) : Option (BitVec 8) :=
  map[(o - BootParams.e820Map) / BootParams.e820EntrySize]?.map fun r =>
    r.toBootEntry.byte ((o - BootParams.e820Map) % BootParams.e820EntrySize)

/-- The entries for the map that reach the command line have its bytes there, and the initrd leaves
its zero. -/
structure LineLeft (s : Machine) (mbi hdr initrdImage n : BitVec 32) (length : ℕ) : Prop where
  entries : ∀ k ≤ length, ∀ v,
    entryByte (recordsOf (laidMem s mbi hdr initrdImage n) mbi) (BootParams.size + k) = some v →
      v = s.mem (kernelLine s.mem mbi + BitVec.ofNat 32 k)
  zero : entryByte (recordsOf (laidMem s mbi hdr initrdImage n) mbi) (BootParams.size + length) = none →
    laidMem s mbi hdr initrdImage n
      (s.heapCurrent + BitVec.ofNat 32 (BootParams.size + length)) = 0

/-- The string at `cmd_line_ptr` is the command line of the module, with its zero in the block. -/
structure Delivered (mem : Memory 32) (mbi hdr : BitVec 32) (length : ℕ) (s' : Machine) (b : Boot) :
    Prop where
  line : Memory.Same s'.mem (s'.mem.field 32 b.bootParams SetupHeader.cmdLinePtr) mem
    (kernelLine mem mbi) length
  zero : s'.mem (s'.mem.field 32 b.bootParams SetupHeader.cmdLinePtr + BitVec.ofNat 32 length) = 0
  inside : ∀ k ≤ length, InSpan b.bootParams (bootBlockSize mem hdr).toNat
    (s'.mem.field 32 b.bootParams SetupHeader.cmdLinePtr + BitVec.ofNat 32 k)

section delivered
variable {s s' : Machine} {mbi hdr linuxSize initrdImage n : BitVec 32} {b : Boot}
  {length length' : ℕ} {x : BitVec 32}

theorem readBootEntry_byte (m : Memory 32) (p : BitVec 32) {k : ℕ}
    (hk : k < BootParams.e820EntrySize) : m (p + BitVec.ofNat 32 k) = (readBootEntry m p).byte k := by
  unfold BootParams.e820EntrySize at hk
  unfold BootEntry.byte readBootEntry
  split
  next h =>
    rw [← Memory.field_byte m p 0 rfl h, Nat.zero_add]
  next h =>
    split
    next h' => rw [← Memory.field_byte m p 8 rfl (by omega), Nat.add_sub_cancel' (by omega)]
    next h' => rw [← Memory.field_byte m p 16 rfl (by omega), Nat.add_sub_cancel' (by omega)]

/-- What the copy of the initrd leaves, beside the header and the block, is still as on entry when
the header is complete. -/
theorem completedMem_same {span : ℕ} {q : BitVec 32} {k : ℕ}
    (hspan : (bootBlockSize s.mem hdr).toNat ≤ span) (hq : Beside s.heapCurrent hdr span q k)
    (hk : k ≤ 2 ^ 32)
    (hlaid : ∀ x, InSpan q k x → laidMem s mbi hdr initrdImage n x = readyMem s hdr x) :
    Memory.Same (completedMem s mbi hdr initrdImage n) q s.mem q k := by
  apply Memory.Same.of_unchanged _ hk
  intro x hx
  have hheader : ¬ InSpan hdr SetupHeader.kernelHeaderSize x := fun hin => hq.header x hin hx
  unfold completedMem
  rw [finishedHeader_frame hheader, hlaid x hx]
  exact readyMem_frame hheader fun hin => hq.block x (hin.mono hspan) hx

theorem bootBlockSize_le_lineSpan (mem : Memory 32) (mbi hdr : BitVec 32) (length : ℕ) :
    (bootBlockSize mem hdr).toNat ≤ lineSpan mem mbi hdr length :=
  (le_max_left _ _).trans (le_max_left _ _)

theorem line_le_lineSpan (mem : Memory 32) (mbi hdr : BitVec 32) (length : ℕ) :
    BootParams.size + length + 1 ≤ lineSpan mem mbi hdr length :=
  (le_max_right _ _).trans (le_max_left _ _)

/-- The span does not wrap, since the header lies beside it. -/
theorem LineInput.fits (hi : LineInput s mbi hdr length) :
    lineSpan s.mem mbi hdr length ≤ 2 ^ 32 := by
  have hpos : 0 < lineSpan s.mem mbi hdr length :=
    lt_of_lt_of_le (Nat.succ_pos _) (line_le_lineSpan s.mem mbi hdr length)
  have hsum := hi.blockHeader.add_le hpos (by decide)
  omega

/-- The information is as on entry when the header is complete. -/
theorem LineInput.completed_info (hi : LineInput s mbi hdr length)
    (hs : LineSpared s mbi hdr initrdImage n length) :
    Memory.Same (completedMem s mbi hdr initrdImage n) mbi s.mem mbi MultibootInfo.span :=
  completedMem_same (bootBlockSize_le_lineSpan _ _ _ _) hi.info (by decide)
    fun x hx => hs x (.inl hx)

/-- The command line that is copied is that of the module on entry. -/
theorem Expanded.line_eq (h : Expanded s mbi hdr linuxSize initrdImage n s' b length')
    (hi : LineInput s mbi hdr length) (hs : LineSpared s mbi hdr initrdImage n length)
    (hline : strlen s.mem (kernelLine s.mem mbi) addressSpace = some length) :
    kernelLine (completedMem s mbi hdr initrdImage n) mbi = kernelLine s.mem mbi ∧
      length' = length := by
  have hinfo := hi.completed_info hs
  have hcount : MultibootInfo.modsCount (completedMem s mbi hdr initrdImage n) mbi =
      MultibootInfo.modsCount s.mem mbi := Memory.field_congr hinfo (by decide)
  have haddr : MultibootInfo.modsAddr (completedMem s mbi hdr initrdImage n) mbi =
      MultibootInfo.modsAddr s.mem mbi := Memory.field_congr hinfo (by decide)
  have hmodule : getMbiModule (completedMem s mbi hdr initrdImage n) mbi MVMLINUZ =
      getMbiModule s.mem mbi MVMLINUZ := by
    unfold getMbiModule
    rw [hcount, haddr]
  have hrecord := completedMem_same (bootBlockSize_le_lineSpan _ _ _ _) hi.module (by decide)
    fun x hx => hs x (.inr (.inl hx))
  have heq : kernelLine (completedMem s mbi hdr initrdImage n) mbi = kernelLine s.mem mbi := by
    unfold kernelLine
    rw [hmodule]
    exact Memory.field_congr hrecord (by decide)
  refine ⟨heq, ?_⟩
  have hstring := completedMem_same (bootBlockSize_le_lineSpan _ _ _ _) hi.line
    (strlen_eq_some.mp hline).1 fun x hx => hs x (.inr (.inr (.inl hx)))
  have hrun := h.line
  rw [heq, strlen_congr hstring hline] at hrun
  exact (Option.some.inj hrun).symm

/-- The command line goes behind the boot parameters. -/
theorem LineSpared.linePtr (hs : LineSpared s mbi hdr initrdImage n length) :
    (laidMem s mbi hdr initrdImage n).field 32 hdr SetupHeader.cmdLinePtr =
      s.heapCurrent + BitVec.ofNat 32 BootParams.size := by
  rw [← readyMem_cmdLinePtr s hdr]
  exact Memory.field_of_unchanged (fun x hx => hs x (.inr (.inr (.inr hx)))) (by decide)

/-- The memory that the boot parameters are set up in. -/
theorem Expanded.lined (h : Expanded s mbi hdr linuxSize initrdImage n s' b length')
    (hi : LineInput s mbi hdr length) (hs : LineSpared s mbi hdr initrdImage n length)
    (hline : strlen s.mem (kernelLine s.mem mbi) addressSpace = some length) :
    linedMem s mbi hdr initrdImage n length' = (completedMem s mbi hdr initrdImage n).copy
      (s.heapCurrent + BitVec.ofNat 32 BootParams.size) (kernelLine s.mem mbi) length := by
  obtain ⟨hkernel, rfl⟩ := h.line_eq hi hs hline
  unfold linedMem
  rw [hs.linePtr, hkernel]

/-- Outside the span nothing happens between the copy of the initrd and the boot parameters but the
stores to the header. -/
theorem Expanded.lined_outside (h : Expanded s mbi hdr linuxSize initrdImage n s' b length')
    (hi : LineInput s mbi hdr length) (hs : LineSpared s mbi hdr initrdImage n length)
    (hline : strlen s.mem (kernelLine s.mem mbi) addressSpace = some length)
    (hx : ¬ InSpan s.heapCurrent (lineSpan s.mem mbi hdr length) x) :
    linedMem s mbi hdr initrdImage n length' x = completedMem s mbi hdr initrdImage n x := by
  rw [h.lined hi hs hline]
  apply Memory.copy_of_not_inSpan
  intro hin
  apply hx
  exact hin.of_offset ((Nat.le_succ _).trans (line_le_lineSpan _ _ _ _)) hi.fits

/-- The pointer that the kernel finds. -/
theorem Expanded.linePointer (h : Expanded s mbi hdr linuxSize initrdImage n s' b length')
    (hi : LineInput s mbi hdr length) (hs : LineSpared s mbi hdr initrdImage n length)
    (hline : strlen s.mem (kernelLine s.mem mbi) addressSpace = some length) :
    s'.mem.field 32 b.bootParams SetupHeader.cmdLinePtr =
      s.heapCurrent + BitVec.ofNat 32 BootParams.size := by
  have hsize : BootParams.size ≤ lineSpan s.mem mbi hdr length :=
    (Nat.le_add_right _ _).trans ((Nat.le_succ _).trans (line_le_lineSpan _ _ _ _))
  have hblock : Apart b.bootParams BootParams.size hdr SetupHeader.kernelHeaderSize := by
    rw [h.bootParams]
    exact hi.blockHeader.mono hsize le_rfl
  have hlined : (linedMem s mbi hdr initrdImage n length').field 32 hdr SetupHeader.cmdLinePtr =
      (completedMem s mbi hdr initrdImage n).field 32 hdr SetupHeader.cmdLinePtr := by
    apply Memory.field_of_unchanged _ (by decide)
    intro x hx
    apply h.lined_outside hi hs hline
    exact hi.blockHeader.symm x (hx.of_offset (by decide) (by decide))
  rw [Memory.field_congr_at (setupBootParams_header hblock h.setup) (by decide) (by decide), hlined]
  exact finishedHeader_cmdLinePtr.trans hs.linePtr

/-- The copy of the initrd leaves where the map lies. -/
theorem LineInput.laid_info (hi : LineInput s mbi hdr length)
    (hs : LineSpared s mbi hdr initrdImage n length) :
    Memory.Same (laidMem s mbi hdr initrdImage n) mbi s.mem mbi MultibootInfo.span := by
  apply Memory.Same.of_unchanged _ (by decide)
  intro x hx
  rw [hs x (.inl hx)]
  apply readyMem_frame
  · exact fun hin => hi.info.header x hin hx
  · exact fun hin => hi.info.block x (hin.mono (bootBlockSize_le_lineSpan _ _ _ _)) hx

theorem LineInput.lined_info (hi : LineInput s mbi hdr length)
    (hs : LineSpared s mbi hdr initrdImage n length)
    (h : Expanded s mbi hdr linuxSize initrdImage n s' b length')
    (hline : strlen s.mem (kernelLine s.mem mbi) addressSpace = some length) :
    Memory.Same (linedMem s mbi hdr initrdImage n length') mbi s.mem mbi MultibootInfo.span := by
  refine Memory.Same.trans (Memory.Same.of_unchanged ?_ (by decide)) (hi.completed_info hs)
  exact fun x hx => h.lined_outside hi hs hline (hi.info.block.symm x hx)

/-- The entries list the records as the copy of the initrd leaves them. -/
theorem Expanded.entries (h : Expanded s mbi hdr linuxSize initrdImage n s' b length')
    (hi : LineInput s mbi hdr length) (hs : LineSpared s mbi hdr initrdImage n length)
    (hline : strlen s.mem (kernelLine s.mem mbi) addressSpace = some length) {i : ℕ} {r : MemoryMap}
    (hr : (recordsOf (laidMem s mbi hdr initrdImage n) mbi)[i]? = some r) :
    readBootEntry s'.mem (bootEntry s.heapCurrent i) = r.toBootEntry := by
  have hlaid := hi.laid_info hs
  have hinfo := hi.lined_info hs h hline
  have haddr : MultibootInfo.mmapAddr (laidMem s mbi hdr initrdImage n) mbi =
      MultibootInfo.mmapAddr s.mem mbi := Memory.field_congr hlaid (by decide)
  have hlength : MultibootInfo.mmapLength (laidMem s mbi hdr initrdImage n) mbi =
      MultibootInfo.mmapLength s.mem mbi := Memory.field_congr hlaid (by decide)
  have haddr' : MultibootInfo.mmapAddr (linedMem s mbi hdr initrdImage n length') mbi =
      MultibootInfo.mmapAddr s.mem mbi := Memory.field_congr hinfo (by decide)
  have hlength' : MultibootInfo.mmapLength (linedMem s mbi hdr initrdImage n length') mbi =
      MultibootInfo.mmapLength s.mem mbi := Memory.field_congr hinfo (by decide)
  have hspan : BootParams.span (recordsOf s.mem mbi).length ≤ lineSpan s.mem mbi hdr length :=
    le_max_right _ _
  have hsetup := h.setup
  rw [h.bootParams] at hsetup
  have hentries := (setupBootParams_lists (hi.info.block.mono hspan le_rfl) (hspan.trans hi.fits)
    (by rw [hlength', length_recordsOf])
    (fun i hlt => haddr' ▸ (hi.map i hlt).block.mono hspan le_rfl) hsetup).2
  have hlt : i < (recordsOf (laidMem s mbi hdr initrdImage n) mbi).length :=
    (List.getElem?_eq_some_iff.mp hr).1
  have hlt' : i < (recordsOf s.mem mbi).length := by
    rw [length_recordsOf, hlength] at hlt
    rwa [length_recordsOf]
  rw [getElem?_recordsOf hlt, haddr] at hr
  have hread : readMap (linedMem s mbi hdr initrdImage n length')
      (mapEntry (MultibootInfo.mmapAddr s.mem mbi) i) =
        readMap (laidMem s mbi hdr initrdImage n) (mapEntry (MultibootInfo.mmapAddr s.mem mbi) i) := by
    apply readMap_congr
    apply Memory.Same.of_unchanged _ (by decide)
    intro x hx
    rw [h.lined_outside hi hs hline ((hi.map i hlt').block.symm x hx), completedMem]
    exact finishedHeader_frame fun hin => (hi.map i hlt').header x hin hx
  rw [hentries i hlt', haddr', hread, Option.some.inj hr]

/-- What the boot parameters and the entries do not take is left. -/
theorem Expanded.unstored (h : Expanded s mbi hdr linuxSize initrdImage n s' b length')
    (hi : LineInput s mbi hdr length) (hs : LineSpared s mbi hdr initrdImage n length)
    (hline : strlen s.mem (kernelLine s.mem mbi) addressSpace = some length)
    (hx : ¬ SetupStores s.heapCurrent (recordsOf (laidMem s mbi hdr initrdImage n) mbi).length x) :
    s'.mem x = linedMem s mbi hdr initrdImage n length' x := by
  have hspan : BootParams.span (recordsOf s.mem mbi).length ≤ lineSpan s.mem mbi hdr length :=
    le_max_right _ _
  have hinfo : Apart s.heapCurrent (BootParams.span (recordsOf s.mem mbi).length) mbi
      MultibootInfo.span := hi.info.block.mono hspan le_rfl
  have hcopied : Memory.Same ((linedMem s mbi hdr initrdImage n length').copy
      (s.heapCurrent + BitVec.ofNat 32 SetupHeader.setupSects)
      (hdr + BitVec.ofNat 32 SetupHeader.setupSects) SetupHeader.size) mbi s.mem mbi
        MultibootInfo.span := by
    refine Memory.Same.trans (Memory.Same.of_unchanged ?_ (by decide)) (hi.lined_info hs h hline)
    intro y hy
    apply Memory.copy_of_not_inSpan
    intro hin
    exact hinfo y (hin.of_offset (le_trans (by decide) (le_max_left _ _)) (hspan.trans hi.fits)) hy
  have hcount : MultibootInfo.mmapLength _ mbi = MultibootInfo.mmapLength s.mem mbi :=
    Memory.field_congr hcopied (by decide)
  have hlaid : (recordsOf (laidMem s mbi hdr initrdImage n) mbi).length =
      (recordsOf s.mem mbi).length := by
    have hlength : MultibootInfo.mmapLength (laidMem s mbi hdr initrdImage n) mbi =
        MultibootInfo.mmapLength s.mem mbi := Memory.field_congr (hi.laid_info hs) (by decide)
    rw [length_recordsOf, length_recordsOf, hlength]
  have hsetup := h.setup
  rw [h.bootParams] at hsetup
  apply setupBootParams_stores hsetup
  rwa [bootRounds_eq hinfo (by rw [hcount, length_recordsOf]), ← hlaid]

/-- Behind the boot parameters only entries are stored. -/
theorem not_setupStores_behind {bootParams : BitVec 32} {count o : ℕ} (ho : BootParams.size ≤ o)
    (hw : o < 2 ^ 32) (hcount : count ≤ (o - BootParams.e820Map) / BootParams.e820EntrySize) :
    ¬ SetupStores bootParams count (bootParams + BitVec.ofNat 32 o) := by
  have hat := toNat_add_ofNat_sub bootParams hw
  intro hin
  unfold BootParams.size BootParams.e820Map BootParams.e820EntrySize at *
  cases hin with
  | header h =>
    rw [inSpan_offset (by decide), hat] at h
    unfold SetupHeader.setupSects SetupHeader.size at h
    omega
  | entry i hi h =>
    unfold bootEntry BootParams.e820Map BootParams.e820EntrySize at h
    rw [inSpan_offset (by omega), hat] at h
    omega
  | count h =>
    rw [inSpan_offset (by decide), hat] at h
    unfold BootParams.e820Entries at h
    omega
  | screen p k hp h =>
    have hfit : ∀ f ∈ BootParams.screenStores, f.1 + f.2 ≤ BootParams.size := by decide
    have hend := hfit _ hp
    unfold BootParams.size at hend
    rw [inSpan_offset (by omega), hat] at h
    omega

/-- Before the boot parameters are set up, the bytes behind them are those of the command line, with what
the initrd has left for its zero. -/
theorem Expanded.linedByte (h : Expanded s mbi hdr linuxSize initrdImage n s' b length')
    (hi : LineInput s mbi hdr length) (hs : LineSpared s mbi hdr initrdImage n length)
    (hline : strlen s.mem (kernelLine s.mem mbi) addressSpace = some length) {k : ℕ}
    (hk : k ≤ length) :
    linedMem s mbi hdr initrdImage n length'
        (s.heapCurrent + BitVec.ofNat 32 (BootParams.size + k)) =
      if k < length then s.mem (kernelLine s.mem mbi + BitVec.ofNat 32 k)
      else laidMem s mbi hdr initrdImage n
        (s.heapCurrent + BitVec.ofNat 32 (BootParams.size + length)) := by
  have hfits := hi.fits
  have hend := line_le_lineSpan s.mem mbi hdr length
  have hw : BootParams.size + k < 2 ^ 32 := by omega
  rw [h.lined hi hs hline, ← add_ofNat_ofNat]
  split
  next hlt =>
    rw [Memory.copy_apply _ (by omega) _ hlt]
    · have hstring := completedMem_same (bootBlockSize_le_lineSpan _ _ _ _) hi.line
        (strlen_eq_some.mp hline).1 fun x hx => hs x (.inr (.inr (.inl hx)))
      exact hstring k (by omega)
    · right
      intro hin
      apply hi.line.block _ _ (hin.mono (Nat.le_succ _))
      rw [inSpan_add_ofNat (by decide)]
      omega
  next hge =>
    obtain rfl : k = length := by omega
    rw [Memory.copy_of_not_inSpan, add_ofNat_ofNat, completedMem]
    · apply finishedHeader_frame
      apply hi.blockHeader
      rw [inSpan_add_ofNat hw]
      exact hend
    · rw [inSpan_add_ofNat (by omega)]
      exact lt_irrefl _

/-- A byte behind the boot parameters, up to the end of the string: of an entry if one reaches it,
else of the command line or what the initrd has left for its zero. -/
theorem Expanded.lineByte (h : Expanded s mbi hdr linuxSize initrdImage n s' b length')
    (hi : LineInput s mbi hdr length) (hs : LineSpared s mbi hdr initrdImage n length)
    (hline : strlen s.mem (kernelLine s.mem mbi) addressSpace = some length) {k : ℕ}
    (hk : k ≤ length) :
    s'.mem (s.heapCurrent + BitVec.ofNat 32 (BootParams.size + k)) =
      (entryByte (recordsOf (laidMem s mbi hdr initrdImage n) mbi) (BootParams.size + k)).getD
        (if k < length then s.mem (kernelLine s.mem mbi + BitVec.ofNat 32 k)
          else laidMem s mbi hdr initrdImage n
            (s.heapCurrent + BitVec.ofNat 32 (BootParams.size + length))) := by
  have hfits := hi.fits
  have hend := line_le_lineSpan s.mem mbi hdr length
  have hsplit := Nat.div_add_mod (BootParams.size + k - BootParams.e820Map) BootParams.e820EntrySize
  have hmod := Nat.mod_lt (BootParams.size + k - BootParams.e820Map)
    (by decide : 0 < BootParams.e820EntrySize)
  have hplace : BootParams.size + k = BootParams.e820Map +
      (BootParams.size + k - BootParams.e820Map) / BootParams.e820EntrySize *
        BootParams.e820EntrySize +
      (BootParams.size + k - BootParams.e820Map) % BootParams.e820EntrySize := by
    unfold BootParams.size BootParams.e820Map BootParams.e820EntrySize at *
    omega
  unfold entryByte
  generalize hq : (BootParams.size + k - BootParams.e820Map) / BootParams.e820EntrySize = i at *
  generalize (BootParams.size + k - BootParams.e820Map) % BootParams.e820EntrySize = o at *
  cases hr : (recordsOf (laidMem s mbi hdr initrdImage n) mbi)[i]? with
  | some r =>
    rw [Option.map_some, Option.getD_some, ← h.entries hi hs hline hr, ← readBootEntry_byte _ _ hmod,
      hplace]
    unfold bootEntry
    rw [add_ofNat_ofNat]
  | none =>
    rw [Option.map_none, Option.getD_none]
    have hlow := List.getElem?_eq_none_iff.mp hr
    have hw : BootParams.size + k < 2 ^ 32 := by omega
    rw [h.unstored hi hs hline, h.linedByte hi hs hline hk]
    exact not_setupStores_behind (Nat.le_add_right _ _) hw (hq ▸ hlow)

/-- A string in the block is one that the block has room for. -/
theorem Expanded.room (h : Expanded s mbi hdr linuxSize initrdImage n s' b length')
    (hi : LineInput s mbi hdr length) (hs : LineSpared s mbi hdr initrdImage n length)
    (hline : strlen s.mem (kernelLine s.mem mbi) addressSpace = some length)
    (hd : Delivered s.mem mbi hdr length s' b) :
    BootParams.size + length < (bootBlockSize s.mem hdr).toNat := by
  have hptr := h.linePointer hi hs hline
  have hbegin := hd.inside 0 (Nat.zero_le _)
  have hend := hd.inside length le_rfl
  rw [hptr, h.bootParams, add_ofNat_ofNat] at hbegin hend
  rw [inSpan_add_ofNat (by decide)] at hbegin
  have hfits := hi.fits
  have hspan := line_le_lineSpan s.mem mbi hdr length
  rwa [inSpan_add_ofNat (by omega)] at hend

/-- The bytes are those of the command line and its zero exactly if they are left so. -/
theorem Expanded.bytes_iff (h : Expanded s mbi hdr linuxSize initrdImage n s' b length')
    (hi : LineInput s mbi hdr length) (hs : LineSpared s mbi hdr initrdImage n length)
    (hline : strlen s.mem (kernelLine s.mem mbi) addressSpace = some length) :
    (∀ k ≤ length, s'.mem (s.heapCurrent + BitVec.ofNat 32 (BootParams.size + k)) =
      s.mem (kernelLine s.mem mbi + BitVec.ofNat 32 k)) ↔
      LineLeft s mbi hdr initrdImage n length := by
  have hzero := (strlen_eq_some.mp hline).2.1
  constructor
  · intro hb
    constructor
    · intro k hk v hv
      have hbyte := h.lineByte hi hs hline hk
      rw [hv, Option.getD_some, hb k hk] at hbyte
      exact hbyte.symm
    · intro hnone
      have hbyte := h.lineByte hi hs hline (le_refl length)
      rw [hnone, Option.getD_none, if_neg (lt_irrefl _), hb length le_rfl, hzero] at hbyte
      exact hbyte.symm
  · intro hl k hk
    rw [h.lineByte hi hs hline hk]
    cases he : entryByte (recordsOf (laidMem s mbi hdr initrdImage n) mbi) (BootParams.size + k) with
    | some v => exact hl.entries k hk v he
    | none =>
      rw [Option.getD_none]
      split
      · rfl
      next hge =>
        obtain rfl : k = length := by omega
        rw [hl.zero he, hzero]

end delivered

/-- A map that ends within the boot parameters has no entry behind them. -/
theorem entryByte_of_room {map : List MemoryMap} (h : map.length ≤ BootParams.mapRoom) (k : ℕ) :
    entryByte map (BootParams.size + k) = none := by
  unfold entryByte
  rw [List.getElem?_eq_none, Option.map_none]
  refine h.trans ?_
  unfold BootParams.mapRoom BootParams.size BootParams.e820Map BootParams.e820EntrySize
  omega

/-- Header, information, map, module, command line and block in ascending order. -/
theorem lineInput_roomy {s : Machine} {length : ℕ} (hlength : length ≤ 16)
    (hcurrent : s.heapCurrent = 0x8000) (hblock : bootBlockSize s.mem 0x1000 = 0x1010)
    (hmodule : getMbiModule s.mem 0x1300 MVMLINUZ = 0x1380) (hkernel : kernelLine s.mem 0x1300 = 0x1390)
    (haddr : MultibootInfo.mmapAddr s.mem 0x1300 = 0x1340)
    (hcount : (recordsOf s.mem 0x1300).length = 1) : LineInput s 0x1300 0x1000 length := by
  have hspan : lineSpan s.mem 0x1300 0x1000 length ≤ 0x1011 := by
    unfold lineSpan
    rw [hblock, hcount]
    refine max_le (max_le (by decide) ?_) (by decide)
    unfold BootParams.size
    omega
  have hbeside : ∀ {q : BitVec 32} {k : ℕ}, (0x1000 : BitVec 32).toNat + 612 ≤ q.toNat →
      q.toNat + k ≤ (0x8000 : BitVec 32).toNat →
      Beside s.heapCurrent 0x1000 (lineSpan s.mem 0x1300 0x1000 length) q k := by
    intro q k hq hk
    refine ⟨apart_of_le hq (hk.trans (by decide)), ?_⟩
    rw [hcurrent]
    exact ((apart_of_le hk (by decide) : Apart q k 0x8000 0x1011).mono le_rfl hspan).symm
  constructor
  · rw [hcurrent]
    exact ((apart_of_le (by decide) (by decide) :
      Apart 0x1000 SetupHeader.kernelHeaderSize (0x8000 : BitVec 32) 0x1011).mono le_rfl hspan).symm
  · exact hbeside (by decide) (by decide)
  · rw [hmodule]
    exact hbeside (by decide) (by decide)
  · rw [hkernel]
    exact hbeside (by decide) (by change 0x1390 + (length + 1) ≤ 0x8000; omega)
  · rw [hcount, haddr]
    intro i hi
    obtain rfl : i = 0 := Nat.lt_one_iff.mp hi
    exact hbeside (by decide) (by decide)

/-- The initrd is copied to 0x200000, and nothing that is read lies there. -/
theorem lineSpared_roomy {s : Machine} {length : ℕ} (hlength : length ≤ 16)
    (htarget : initrdTarget s 0x1300 0x1000 0x3000 16 = (0x200000, 16))
    (hmodule : getMbiModule s.mem 0x1300 MVMLINUZ = 0x1380)
    (hkernel : kernelLine s.mem 0x1300 = 0x1390) : LineSpared s 0x1300 0x1000 0x3000 16 length := by
  intro x hx
  unfold laidMem
  rw [htarget]
  apply Memory.copy_of_not_inSpan
  unfold LineRead at hx
  rw [hmodule, hkernel] at hx
  have hbelow : ∀ {p : BitVec 32} {k : ℕ}, p.toNat + k ≤ 0x200000 → InSpan p k x →
      ¬ InSpan (0x200000 : BitVec 32) 16 x := fun hk hin => apart_of_le hk (by decide) _ hin
  rcases hx with hx | hx | hx | hx
  · exact hbelow (by decide) hx
  · exact hbelow (by decide) hx
  · exact hbelow (by change 0x1390 + (length + 1) ≤ 0x200000; omega) hx
  · exact hbelow (by decide) hx

theorem roomy_layout : bootBlockSize roomyMachine.mem 0x1000 = 0x1010 ∧
    getMbiModule roomyMachine.mem 0x1300 MVMLINUZ = 0x1380 ∧
    kernelLine roomyMachine.mem 0x1300 = 0x1390 ∧
    MultibootInfo.mmapAddr roomyMachine.mem 0x1300 = 0x1340 ∧
    (recordsOf roomyMachine.mem 0x1300).length = 1 ∧
    strlen roomyMachine.mem (kernelLine roomyMachine.mem 0x1300) addressSpace = some 0 := by
  rw [roomyMachine, bootMachine_eq]
  decide +kernel

/-- The zero of the empty command line is that of the block. -/
theorem roomy_left : LineLeft roomyMachine 0x1300 0x1000 0x3000 16 0 := by
  have hcount : (recordsOf (laidMem roomyMachine 0x1300 0x1000 0x3000 16) 0x1300).length ≤
      BootParams.mapRoom := by
    rw [laidMem, roomy_target, roomy_ready, roomyMachine, bootMachine_eq]
    decide +kernel
  constructor
  · intro k _ v hv
    rw [entryByte_of_room hcount] at hv
    cases hv
  · intro _
    have hplace : ¬ InSpan (0x200000 : BitVec 32) 16 0x9000 := by decide
    have hheader : ¬ InSpan (0x1000 : BitVec 32) SetupHeader.kernelHeaderSize 0x9000 := by decide
    rw [laidMem, roomy_target, roomy_ready]
    refine (Memory.copy_of_not_inSpan _ _ hplace).trans ((preparedMem_frame hheader).trans ?_)
    exact bootMachine_zero _ _ _ (by decide) (by decide) (by decide : InSpan 0x9000 1 0x9000) (by decide)

/-- A command line of the 16 bytes that the header allows. -/
def fullLineMachine : Machine := { roomyMachine with mem := roomyMachine.mem.fill 0x1390 0x61 16 }

example : fullLineMachine.mem 0x139f = 0x61 ∧ fullLineMachine.mem 0x13a0 = 0 := by decide +kernel

theorem fullLine_info : HeaderAt fullLineMachine.mem 0x1000 0x2000 ∧
    strlen fullLineMachine.mem (kernelLine fullLineMachine.mem 0x1300) addressSpace = some 16 ∧
    bootBlockSize fullLineMachine.mem 0x1000 = 0x1010 ∧
    getMbiModule fullLineMachine.mem 0x1300 MVMLINUZ = 0x1380 ∧
    kernelLine fullLineMachine.mem 0x1300 = 0x1390 ∧
    MultibootInfo.mmapAddr fullLineMachine.mem 0x1300 = 0x1340 ∧
    (recordsOf fullLineMachine.mem 0x1300).length = 1 ∧
    findInitrdBase (preparedMem fullLineMachine.mem 0x1000 0x8000) 0x1300 0x1000 16 = some 0x200000 ∧
    (preparedMem fullLineMachine.mem 0x1000 0x8000).field 8 0x1000
      SetupHeader.relocatableKernel ≠ 0 := by
  rw [fullLineMachine, roomyMachine, bootMachine_eq]
  decide +kernel

theorem fullLine_zero {x : BitVec 32} (hx : InSpan 0x8000 0x1010 x) : fullLineMachine.mem x = 0 := by
  have hout : ¬ InSpan (0x1390 : BitVec 32) 16 x :=
    fun hin => apart_of_le (by decide) (by decide) x hin hx
  exact (Memory.fill_of_not_inSpan _ _ hout).trans
    (bootMachine_zero _ _ _ (by decide) (by decide) hx (by decide))

theorem fullLine_boot : ∃ s' b, expandLinuxImage fullLineMachine 0x1300 0x1000 0x1000 0x3000 16 =
    some (s', some b) := by
  obtain ⟨hheader, -, -, -, -, -, -, hbase, hrel⟩ := fullLine_info
  have hsize : ¬ ((0x1000 : BitVec 32) = 0 ∨ 0x1000 < BitVec.ofNat 32 SetupHeader.kernelHeaderSize) := by
    decide
  have hprepared := hheader.prepareHeader hsize rfl rfl fun _ hx => fullLine_zero hx
  rw [expandLinuxImage_of_prepared hprepared (by decide) hbase hrel (by decide)]
  refine finishLinux_succeeds (?_ : _ = some 16) ?_ ?_
  all_goals
    rw [fullLineMachine, roomyMachine, bootMachine_eq]
    decide +kernel

end IkgtLoader
