import IkgtLoader.PreOs.E820Table
import IkgtLoader.PreOs.Hiding

/-! When the two walks over the map of the boot loader end, and stay within what they have
allocated: the distance to the next record is whatever the record says. -/
namespace IkgtLoader
open Flat Loop

/-- `mmap_addr + mmap_length`. -/
def mapEnd (mem : Memory 32) (mbi : BitVec 32) : BitVec 32 :=
  MultibootInfo.mmapAddr mem mbi + MultibootInfo.mmapLength mem mbi

/-- The checks of `get_e820_table_from_multiboot` are passed. The records that the walk can reach
while the page has room lie outside the page. -/
structure ConvertChecked (s : Machine) (inf : BitVec 32) : Prop where
  flags : MultibootInfo.flags s.mem inf &&& 3 ≠ 0
  short : ¬ 4096 < MultibootInfo.mmapLength s.mem inf
  served : (monPageAlloc s 1).2 ≠ NULL
  outside : ∀ j < 170, (∀ i ≤ j, recordAt (monPageAlloc s 1).1.mem
      (MultibootInfo.mmapAddr (monPageAlloc s 1).1.mem inf) i < mapEnd (monPageAlloc s 1).1.mem inf) →
    Apart (monPageAlloc s 1).2 PAGE_SIZE.toNat (recordAt (monPageAlloc s 1).1.mem
      (MultibootInfo.mmapAddr (monPageAlloc s 1).1.mem inf) j) 4

/-- The conversion ends, and no round of it writes beside the page. -/
def ConversionRobust (s : Machine) (inf : BitVec 32) : Prop :=
  ∃ fuel s' r, getE820TableFromMultiboot s inf fuel = some (s', r) ∧
    (∀ x, ¬ InSpan (monPageAlloc s 1).2 PAGE_SIZE.toNat x → s'.mem x = s.mem x) ∧
    ConvertsInPage (monPageAlloc s 1).2 (MultibootInfo.mmapAddr (monPageAlloc s 1).1.mem inf)
      (mapEnd (monPageAlloc s 1).1.mem inf) (monPageAlloc s 1).1.mem fuel

/-- The stated sizes lead out of the map after at most 170 records. -/
def ConversionEnds (s : Machine) (inf : BitVec 32) : Prop :=
  ∃ k ≤ 170, WalkEnds (monPageAlloc s 1).1.mem
    (MultibootInfo.mmapAddr (monPageAlloc s 1).1.mem inf) (mapEnd (monPageAlloc s 1).1.mem inf) k

section conversion
variable {e820 start stop : BitVec 32} {mem : Memory 32} {fuel : ℕ}

/-- What a conversion that stays in its page says about the walk. -/
theorem walkEnds_of_convertsInPage
    (hap : ∀ j < 170, (∀ i ≤ j, recordAt mem start i < stop) →
      Apart e820 PAGE_SIZE.toNat (recordAt mem start j) 4)
    (hadm : ConvertsInPage e820 start stop mem fuel) {c : Conversion}
    (hrun : convertLoop e820 start stop mem fuel = .next c) :
    ∃ k ≤ 170, WalkEnds mem start stop k := by
  let I : ℕ → Conversion → Prop := fun j c =>
    j ≤ 170 ∧ (∀ i < j, recordAt mem start i < stop) ∧ Converting e820 start mem j c
  have hbody : ∀ j c, c.next < stop → EntryInPage e820 j c → I j c →
      (convertStep e820 j c).All (I (j + 1)) (fun _ => False) fun _ => False := by
    rintro j c hc hok ⟨hj, hin, hconv⟩
    rw [entryInPage_iff (by rw [hconv.i]; omega), hconv.i] at hok
    rw [hconv.next] at hc
    have hin' : ∀ i ≤ j, recordAt mem start i < stop := by
      intro i hi
      rcases Nat.lt_or_eq_of_le hi with hlt | rfl
      · exact hin i hlt
      · exact hc
    obtain ⟨c', he, hc'⟩ := hconv.step hok (hap j hok hin') j
    rw [he]
    exact ⟨hok, fun i hi => hin' i (Nat.le_of_lt_succ hi), hc'⟩
  have h0 : I 0 ⟨mem, start, 0⟩ :=
    ⟨Nat.zero_le _, fun i hi => absurd hi (Nat.not_lt_zero i), .init e820 start mem⟩
  have hall := run_all_of_admits I (fun _ => False) hbody hadm h0
  change (convertLoop e820 start stop mem fuel).All _ _ _ at hall
  rw [hrun] at hall
  obtain ⟨j, ⟨hj, hin, hconv⟩, hout⟩ := hall
  rw [hconv.next] at hout
  exact ⟨j, hj, hin, hout⟩

theorem convertLoop_ne_quit (c : Conversion) : convertLoop e820 start stop mem fuel ≠ .quit c := by
  intro hrun
  have hall : (convertLoop e820 start stop mem fuel).All (fun _ => True) (fun _ => False)
      fun _ => True := by
    refine (run_all (fun _ _ => True) (fun _ => False) (fun _ => False) ?_ trivial).mono
      (fun _ _ => trivial) (fun _ hq => hq) fun _ _ => trivial
    intro i c _ _
    obtain ⟨m, hm, _⟩ := convertStep_spec e820 i c
    rw [hm]
    trivial
  rw [hrun] at hall
  exact hall

/-- A walk that ends in time keeps the conversion in its page. -/
theorem convertsInPage_of_walkEnds {k : ℕ} (hk : k ≤ 170) (hw : WalkEnds mem start stop k)
    (hap : ∀ j < 170, (∀ i ≤ j, recordAt mem start i < stop) →
      Apart e820 PAGE_SIZE.toNat (recordAt mem start j) 4) :
    ConvertsInPage e820 start stop mem k ∧
      ∃ c, convertLoop e820 start stop mem k = .next c ∧ Converting e820 start mem k c := by
  let I : ℕ → Conversion → Prop := fun j c => j ≤ k ∧ Converting e820 start mem j c
  have hcond : ∀ j c, I j c → (c.next < stop ↔ j < k) := by
    rintro j c ⟨hj, hc⟩
    rw [hc.next]
    constructor
    · intro hlt
      rcases Nat.lt_or_eq_of_le hj with hjk | rfl
      · exact hjk
      · exact absurd hlt hw.2
    · exact hw.1 j
  have hbody : ∀ j c, j < k → I j c → ∃ c', convertStep e820 j c = .next c' ∧ I (j + 1) c' := by
    rintro j c hj ⟨_, hc⟩
    have hin : ∀ i ≤ j, recordAt mem start i < stop := fun i hi => hw.1 i (by omega)
    obtain ⟨c', he, hc'⟩ := hc.step (by omega) (hap j (by omega) hin) j
    exact ⟨c', he, hj, hc'⟩
  have h0 : I 0 ⟨mem, start, 0⟩ := ⟨Nat.zero_le k, .init e820 start mem⟩
  constructor
  · apply admits_of_invariant I h0
    · intro j c hI hc
      have hj := (hcond j c hI).mp hc
      apply (entryInPage_iff ?_ j).mpr
      all_goals
        rw [hI.2.i]
        omega
    · intro j c c' hI hc he
      obtain ⟨c'', he', hI'⟩ := hbody j c ((hcond j c hI).mp hc) hI
      rw [he] at he'
      cases he'
      exact hI'
  · obtain ⟨c, hrun, _, hc⟩ := run_count I hcond hbody (Nat.zero_le k)
      (show k ≤ 0 + k by omega) h0
    exact ⟨c, hrun, hc⟩

theorem conversionRobust_iff {s : Machine} {inf : BitVec 32} (h : ConvertChecked s inf) :
    ConversionRobust s inf ↔ ConversionEnds s inf := by
  obtain ⟨hflags, hshort, hserved, hap⟩ := h
  have hcheck : ¬ (MultibootInfo.flags s.mem inf &&& 3 = 0 ∨
      4096 < MultibootInfo.mmapLength s.mem inf) := by
    rw [not_or]
    exact ⟨hflags, hshort⟩
  have hframe : ∀ x, ¬ InSpan (monPageAlloc s 1).2 PAGE_SIZE.toNat x →
      (monPageAlloc s 1).1.mem x = s.mem x := fun _ => monPageAlloc_frame
  unfold mapEnd at hap
  unfold ConversionRobust ConversionEnds getE820TableFromMultiboot mapEnd
  simp only [if_neg hcheck]
  generalize monPageAlloc s 1 = o at hserved hap hframe ⊢
  obtain ⟨s₁, e820⟩ := o
  dsimp only at hserved hap hframe ⊢
  simp only [if_neg hserved]
  generalize MultibootInfo.mmapAddr s₁.mem inf + MultibootInfo.mmapLength s₁.mem inf = stop at *
  generalize MultibootInfo.mmapAddr s₁.mem inf = start at *
  constructor
  · rintro ⟨fuel, s', r, hrun, -, hadm⟩
    cases hloop : convertLoop e820 start stop s₁.mem fuel with
    | next c => exact walkEnds_of_convertsInPage hap hadm hloop
    | quit c => exact absurd hloop (convertLoop_ne_quit c)
    | spent c =>
      rw [hloop] at hrun
      cases hrun
  · rintro ⟨k, hk, hw⟩
    obtain ⟨hadm, c, hrun, hc⟩ := convertsInPage_of_walkEnds hk hw hap
    refine ⟨k, ?_⟩
    simp only [hrun]
    refine ⟨_, _, rfl, ?_, hadm⟩
    intro x hx
    dsimp only
    rw [Memory.setField_of_outside _ _ hx (by decide) (by decide), hc.frame x hx]
    exact hframe x hx

end conversion

/-- The bytes that `hide_runtime_memory` asks for, a 32-bit product. -/
def hideRequest (mem : Memory 32) (mbi : BitVec 32) : BitVec 32 :=
  BitVec.ofNat 32 memoryMapSize *
    (MultibootInfo.mmapLength mem mbi / BitVec.ofNat 32 memoryMapSize + 2)

/-- The records stored for those before `n`. -/
def hideSlotsBefore (hideMemAddr hideMemSize : BitVec 32) (mem : Memory 32) (start : BitVec 32)
    (n : ℕ) : ℕ :=
  ((recordsFrom mem start n).map (hideSlots hideMemAddr hideMemSize)).sum

/-- The walk comes to the record `n`: those before it are in the map, none of them is refused, and
a block of `room` bytes holds what is stored for them. -/
def HideReaches (hideMemAddr hideMemSize : BitVec 32) (mem : Memory 32) (start stop : BitVec 32)
    (room n : ℕ) : Prop :=
  ∀ i < n, recordAt mem start i < stop ∧
    hideRecord hideMemAddr hideMemSize (readMap mem (recordAt mem start i)) ≠ none ∧
    hideSlotsBefore hideMemAddr hideMemSize mem start (i + 1) * memoryMapSize ≤ room

/-- All that a round stores lies in the block. -/
def EntriesInBlock (hideMemAddr hideMemSize newmmap size : BitVec 32) (_ : ℕ) (h : Hiding) : Prop :=
  ∀ k < hideSlots hideMemAddr hideMemSize (readMap h.mem h.mmap), ∀ x,
    InSpan (mapEntry newmmap (h.entryIdx.toNat + k)) memoryMapSize x → InSpan newmmap size.toNat x

/-- Every round of the loop stores in the block. -/
def HidesInBlock (hideMemAddr hideMemSize mbi newmmap size : BitVec 32) (mem : Memory 32)
    (fuel : ℕ) : Prop :=
  Admits (fun _ h => h.mmap < MultibootInfo.mmapAddr h.mem mbi + MultibootInfo.mmapLength h.mem mbi)
    (hideStep hideMemAddr hideMemSize newmmap) (EntriesInBlock hideMemAddr hideMemSize newmmap size)
    fuel 0 ⟨mem, 0, MultibootInfo.mmapAddr mem mbi⟩

section block
variable {hideMemAddr hideMemSize newmmap size start stop : BitVec 32} {mem m : Memory 32}
  {L c n : ℕ}

@[simp] theorem hideSlotsBefore_zero :
    hideSlotsBefore hideMemAddr hideMemSize mem start 0 = 0 := rfl

theorem hideSlotsBefore_succ : hideSlotsBefore hideMemAddr hideMemSize mem start (n + 1) =
    hideSlotsBefore hideMemAddr hideMemSize mem start n +
      hideSlots hideMemAddr hideMemSize (readMap mem (recordAt mem start n)) := by
  unfold hideSlotsBefore
  rw [recordsFrom_succ, List.map_append, List.sum_append]
  simp

/-- The count of what is stored is the length of the rewriting. -/
theorem length_eq_hideSlotsBefore {l : List MemoryMap}
    (hl : hideRecords hideMemAddr hideMemSize (fun k => readMap mem (recordAt mem start k)) n =
      some l) : l.length = hideSlotsBefore hideMemAddr hideMemSize mem start n := by
  induction n generalizing l with
  | zero =>
    rw [hideRecords, Option.some.injEq] at hl
    subst hl
    rfl
  | succ n ih =>
    obtain ⟨l', pieces, hl', hp, rfl⟩ := hideRecords_succ.mp hl
    rw [List.length_append, ih hl', length_hideRecord hp, hideSlotsBefore_succ]

variable (newmmap) in
/-- `c` records behind the first `L` lie in a block exactly if it has room for them. -/
theorem entries_in_iff (hL : L * memoryMapSize ≤ size.toNat) :
    (∀ k < c, ∀ x, InSpan (mapEntry newmmap (L + k)) memoryMapSize x →
        InSpan newmmap size.toNat x) ↔ (L + c) * memoryMapSize ≤ size.toNat := by
  have hsize := size.isLt
  constructor
  · intro h
    by_contra hlt
    -- the record that holds the first byte behind the block
    let k := size.toNat / memoryMapSize - L
    have hk : k < c ∧ (L + k) * memoryMapSize ≤ size.toNat ∧
        size.toNat < (L + k) * memoryMapSize + memoryMapSize := by
      unfold k memoryMapSize at *
      omega
    have hin := h k hk.1 (newmmap + BitVec.ofNat 32 size.toNat) (by
      rw [← Nat.add_sub_cancel' hk.2.1, ← add_ofNat_ofNat]
      apply (inSpan_add_ofNat (by omega)).mpr
      omega)
    exact absurd ((inSpan_add_ofNat hsize).mp hin) (lt_irrefl _)
  · intro hle k hk x hx
    have hmul : (L + k + 1) * memoryMapSize ≤ (L + c) * memoryMapSize :=
      Nat.mul_le_mul_right _ (by omega)
    rw [Nat.succ_mul] at hmul
    exact hx.of_offset (by omega) (Nat.le_of_lt hsize)

end block

/-- The state before the record `n` of the walk: only the block has changed. -/
structure HideProgress (hideMemAddr hideMemSize newmmap size start : BitVec 32) (mem : Memory 32)
    (n : ℕ) (h : Hiding) : Prop where
  idx : h.entryIdx = BitVec.ofNat 32 (hideSlotsBefore hideMemAddr hideMemSize mem start n)
  room : hideSlotsBefore hideMemAddr hideMemSize mem start n * memoryMapSize ≤ size.toNat
  mmap : h.mmap = recordAt mem start n
  frame : ∀ x, ¬ InSpan newmmap size.toNat x → h.mem x = mem x

section progress
variable {hideMemAddr hideMemSize newmmap size start stop : BitVec 32} {mem : Memory 32}
  {h : Hiding} {n : ℕ}

theorem HideProgress.init (hideMemAddr hideMemSize newmmap size start : BitVec 32) (mem : Memory 32) :
    HideProgress hideMemAddr hideMemSize newmmap size start mem 0 ⟨mem, 0, start⟩ :=
  ⟨rfl, by simp, rfl, fun _ _ => rfl⟩

theorem HideProgress.record (hp : HideProgress hideMemAddr hideMemSize newmmap size start mem n h)
    (hap : Apart newmmap size.toNat (recordAt mem start n) memoryMapSize) :
    readMap h.mem h.mmap = readMap mem (recordAt mem start n) := by
  rw [hp.mmap]
  apply readMap_congr
  apply Memory.Same.of_unchanged _ (by decide)
  exact fun x hx => hp.frame x (hap.symm x hx)

theorem HideProgress.inBlock_iff
    (hp : HideProgress hideMemAddr hideMemSize newmmap size start mem n h)
    (hap : Apart newmmap size.toNat (recordAt mem start n) memoryMapSize) (j : ℕ) :
    EntriesInBlock hideMemAddr hideMemSize newmmap size j h ↔
      hideSlotsBefore hideMemAddr hideMemSize mem start (n + 1) * memoryMapSize ≤ size.toNat := by
  have hroom := hp.room
  have hsize := size.isLt
  have hidx : h.entryIdx.toNat = hideSlotsBefore hideMemAddr hideMemSize mem start n := by
    rw [hp.idx]
    apply toNat_ofNat_of_lt
    unfold memoryMapSize at hroom
    omega
  unfold EntriesInBlock
  rw [hp.record hap, hidx, hideSlotsBefore_succ]
  exact entries_in_iff newmmap hroom

/-- A round that has room in the block, at a record beside it. -/
theorem HideProgress.step (hp : HideProgress hideMemAddr hideMemSize newmmap size start mem n h)
    (hap : Apart newmmap size.toNat (recordAt mem start n) memoryMapSize)
    (hroom : hideSlotsBefore hideMemAddr hideMemSize mem start (n + 1) * memoryMapSize ≤ size.toNat)
    (j : ℕ) : ∃ h', (∀ x, ¬ InSpan newmmap size.toNat x → h'.mem x = mem x) ∧
      match hideRecord hideMemAddr hideMemSize (readMap mem (recordAt mem start n)) with
      | none => hideStep hideMemAddr hideMemSize newmmap j h = .quit h'
      | some pieces => hideStep hideMemAddr hideMemSize newmmap j h = .next h' ∧
        HideProgress hideMemAddr hideMemSize newmmap size start mem (n + 1) h' ∧
        ∀ l, l.length = hideSlotsBefore hideMemAddr hideMemSize mem start n →
          Holds h.mem newmmap l → Holds h'.mem newmmap (l ++ pieces) := by
  have hsize := size.isLt
  have hrecord := hp.record hap
  have hin := (entries_in_iff newmmap hp.room).mpr (hideSlotsBefore_succ ▸ hroom)
  have hL : hideSlotsBefore hideMemAddr hideMemSize mem start n + 3 < 2 ^ 32 := by
    have hle := hp.room
    unfold memoryMapSize at hle
    omega
  obtain ⟨m, stored, hlen, hst, hout⟩ := hideStep_round hp.idx hL hrecord
    (fun k hk x hx => by rw [hp.mmap]; exact hap x (hin k hk x hx)) j
  have hframe : ∀ x, ¬ InSpan newmmap size.toNat x → m x = mem x := by
    intro x hx
    rw [← hp.frame x hx]
    exact hst.frame x fun k hk hk' => hx (hin k (hlen ▸ hk) x hk')
  cases he : hideRecord hideMemAddr hideMemSize (readMap mem (recordAt mem start n)) with
  | none =>
    rw [he] at hout
    obtain ⟨idx, hout⟩ := hout
    exact ⟨⟨m, idx, h.mmap⟩, hframe, hout⟩
  | some pieces =>
    rw [he] at hout
    obtain ⟨rfl, hout⟩ := hout
    refine ⟨⟨m, BitVec.ofNat 32 (hideSlotsBefore hideMemAddr hideMemSize mem start n +
      stored.length), nextRecord h.mem h.mmap⟩, hframe, hout, ⟨?_, hroom, ?_, hframe⟩, ?_⟩
    · rw [hideSlotsBefore_succ, hlen]
    · rw [recordAt_succ]
      unfold nextRecord
      dsimp only
      rw [hrecord, hp.mmap]
    · intro l hl hh
      rw [hideSlotsBefore_succ, ← hlen] at hroom
      exact hst.holds l hl (hroom.trans (Nat.le_of_lt hsize)) hh

end progress

/-- The checks of `hide_runtime_memory` are passed. The information and the records that the walk
can reach while the block has room lie outside the block. -/
structure HideChecked (s : Machine) (mbi hideMemAddr hideMemSize : BitVec 32) : Prop where
  flags : MultibootInfo.flags s.mem mbi &&& MBI_MEMMAP ≠ 0
  served : (allocateMemory s (hideRequest s.mem mbi)).2 ≠ NULL
  infoOutside : Apart (allocateMemory s (hideRequest s.mem mbi)).2 (hideRequest s.mem mbi).toNat mbi
    MultibootInfo.span
  outside : ∀ j, HideReaches hideMemAddr hideMemSize (allocateMemory s (hideRequest s.mem mbi)).1.mem
      (MultibootInfo.mmapAddr s.mem mbi) (mapEnd s.mem mbi) (hideRequest s.mem mbi).toNat j →
    recordAt (allocateMemory s (hideRequest s.mem mbi)).1.mem (MultibootInfo.mmapAddr s.mem mbi) j <
      mapEnd s.mem mbi →
    Apart (allocateMemory s (hideRequest s.mem mbi)).2 (hideRequest s.mem mbi).toNat
      (recordAt (allocateMemory s (hideRequest s.mem mbi)).1.mem
        (MultibootInfo.mmapAddr s.mem mbi) j) memoryMapSize

/-- The rewriting ends, whatever its result, and no round of it writes beside the block. -/
def HidingRobust (s : Machine) (mbi hideMemAddr hideMemSize : BitVec 32) : Prop :=
  ∃ fuel s' b, hideRuntimeMemory s mbi hideMemAddr hideMemSize fuel = some (s', b) ∧
    (∀ x, ¬ InSpan (allocateMemory s (hideRequest s.mem mbi)).2 (hideRequest s.mem mbi).toNat x →
      ¬ InSpan mbi MultibootInfo.span x → s'.mem x = s.mem x) ∧
    HidesInBlock hideMemAddr hideMemSize mbi (allocateMemory s (hideRequest s.mem mbi)).2
      (hideRequest s.mem mbi) (allocateMemory s (hideRequest s.mem mbi)).1.mem fuel

/-- The walk comes to a record where it leaves the map or is given up, with room in the block for
all that has been stored then. -/
def HidingEnds (s : Machine) (mbi hideMemAddr hideMemSize : BitVec 32) : Prop :=
  ∃ k, HideReaches hideMemAddr hideMemSize (allocateMemory s (hideRequest s.mem mbi)).1.mem
      (MultibootInfo.mmapAddr s.mem mbi) (mapEnd s.mem mbi) (hideRequest s.mem mbi).toNat k ∧
    (recordAt (allocateMemory s (hideRequest s.mem mbi)).1.mem (MultibootInfo.mmapAddr s.mem mbi) k <
        mapEnd s.mem mbi →
      hideRecord hideMemAddr hideMemSize (readMap (allocateMemory s (hideRequest s.mem mbi)).1.mem
        (recordAt (allocateMemory s (hideRequest s.mem mbi)).1.mem
          (MultibootInfo.mmapAddr s.mem mbi) k)) = none ∧
      hideSlotsBefore hideMemAddr hideMemSize (allocateMemory s (hideRequest s.mem mbi)).1.mem
        (MultibootInfo.mmapAddr s.mem mbi) (k + 1) * memoryMapSize ≤ (hideRequest s.mem mbi).toNat)

section rewriting
variable {hideMemAddr hideMemSize newmmap size start stop mbi : BitVec 32} {mem : Memory 32}

/-- The loop, which reads the end of the map from the information before every round. -/
def hideLoop (hideMemAddr hideMemSize mbi newmmap : BitVec 32) (mem : Memory 32) (fuel : ℕ) :
    Outcome Hiding :=
  Loop.run (fun _ h => h.mmap < MultibootInfo.mmapAddr h.mem mbi + MultibootInfo.mmapLength h.mem mbi)
    (hideStep hideMemAddr hideMemSize newmmap) fuel 0 ⟨mem, 0, MultibootInfo.mmapAddr mem mbi⟩

theorem allocateMemory_frame {s : Machine} {x : BitVec 32}
    (hx : ¬ InSpan (allocateMemory s size).2 size.toNat x) :
    (allocateMemory s size).1.mem x = s.mem x := by
  unfold allocateMemory at hx ⊢
  by_cases hlt : s.heapTops < s.heapCurrent + size
  · rw [reserve_refused _ _ _ hlt]
  · rw [reserve_served _ _ _ hlt] at hx
    exact reserve_mem_of_not_inSpan _ _ _ hx

theorem hideRuntimeMemory_eq {s : Machine} (hflags : MultibootInfo.flags s.mem mbi &&& MBI_MEMMAP ≠ 0)
    (hserved : (allocateMemory s (hideRequest s.mem mbi)).2 ≠ NULL) (fuel : ℕ) :
    hideRuntimeMemory s mbi hideMemAddr hideMemSize fuel =
      match hideLoop hideMemAddr hideMemSize mbi (allocateMemory s (hideRequest s.mem mbi)).2
        (allocateMemory s (hideRequest s.mem mbi)).1.mem fuel with
      | .spent _ => none
      | .quit h => some ({ (allocateMemory s (hideRequest s.mem mbi)).1 with mem := h.mem }, false)
      | .next h =>
        let mem := h.mem.setField mbi 48 (allocateMemory s (hideRequest s.mem mbi)).2
        some ({ (allocateMemory s (hideRequest s.mem mbi)).1 with
          mem := mem.setField mbi 44 (BitVec.ofNat 32 memoryMapSize * h.entryIdx) }, true) := by
  unfold hideRuntimeMemory
  unfold hideRequest at hserved ⊢
  rw [if_neg hflags]
  dsimp only
  generalize allocateMemory s _ = o at hserved ⊢
  obtain ⟨s₁, newmmap⟩ := o
  exact if_neg hserved

theorem mapEnd_of_frame (hinfo : Apart newmmap size.toNat mbi MultibootInfo.span) {m : Memory 32}
    (hf : ∀ x, ¬ InSpan newmmap size.toNat x → m x = mem x) :
    MultibootInfo.mmapAddr m mbi = MultibootInfo.mmapAddr mem mbi ∧ mapEnd m mbi = mapEnd mem mbi := by
  have hsame : Memory.Same m mbi mem mbi MultibootInfo.span := by
    apply Memory.Same.of_unchanged _ (by decide)
    exact fun x hx => hf x fun hin => hinfo x hin hx
  have haddr : MultibootInfo.mmapAddr m mbi = MultibootInfo.mmapAddr mem mbi :=
    Memory.field_congr hsame (by decide)
  have hlength : MultibootInfo.mmapLength m mbi = MultibootInfo.mmapLength mem mbi :=
    Memory.field_congr hsame (by decide)
  unfold mapEnd
  rw [haddr, hlength]
  exact ⟨rfl, rfl⟩

/-- What a rewriting that stays in its block says about the walk. -/
theorem hideReaches_of_hidesInBlock
    (hinfo : Apart newmmap size.toNat mbi MultibootInfo.span)
    (hap : ∀ j, HideReaches hideMemAddr hideMemSize mem (MultibootInfo.mmapAddr mem mbi)
      (mapEnd mem mbi) size.toNat j →
      recordAt mem (MultibootInfo.mmapAddr mem mbi) j < mapEnd mem mbi →
      Apart newmmap size.toNat (recordAt mem (MultibootInfo.mmapAddr mem mbi) j) memoryMapSize)
    {fuel : ℕ} (hadm : HidesInBlock hideMemAddr hideMemSize mbi newmmap size mem fuel) :
    (hideLoop hideMemAddr hideMemSize mbi newmmap mem fuel).All
      (fun _ => ∃ k, HideReaches hideMemAddr hideMemSize mem (MultibootInfo.mmapAddr mem mbi)
        (mapEnd mem mbi) size.toNat k ∧
        ¬ recordAt mem (MultibootInfo.mmapAddr mem mbi) k < mapEnd mem mbi)
      (fun _ => ∃ k, HideReaches hideMemAddr hideMemSize mem (MultibootInfo.mmapAddr mem mbi)
        (mapEnd mem mbi) size.toNat k ∧
        hideRecord hideMemAddr hideMemSize
          (readMap mem (recordAt mem (MultibootInfo.mmapAddr mem mbi) k)) = none ∧
        hideSlotsBefore hideMemAddr hideMemSize mem (MultibootInfo.mmapAddr mem mbi) (k + 1) *
          memoryMapSize ≤ size.toNat)
      fun _ => True := by
  generalize hstart : MultibootInfo.mmapAddr mem mbi = start at *
  generalize hstop : mapEnd mem mbi = stop at *
  let I : ℕ → Hiding → Prop := fun j h =>
    HideReaches hideMemAddr hideMemSize mem start stop size.toNat j ∧
      HideProgress hideMemAddr hideMemSize newmmap size start mem j h
  have hcond : ∀ j h, I j h → (h.mmap < MultibootInfo.mmapAddr h.mem mbi +
      MultibootInfo.mmapLength h.mem mbi ↔ recordAt mem start j < stop) := by
    rintro j h ⟨_, hp⟩
    have hend := (mapEnd_of_frame hinfo hp.frame).2
    unfold mapEnd at hend hstop
    rw [hend, hstop, hp.mmap]
  have h0 : I 0 ⟨mem, 0, start⟩ :=
    ⟨fun i hi => absurd hi (Nat.not_lt_zero i), .init _ _ _ _ _ _⟩
  have hadm' := hadm
  unfold HidesInBlock at hadm'
  rw [hstart] at hadm'
  unfold hideLoop
  rw [hstart]
  refine (run_all_of_admits I _ ?_ hadm' h0).mono ?_ (fun _ hq => hq) fun _ _ => trivial
  · rintro j h hc hok hI
    have hlt := (hcond j h hI).mp hc
    obtain ⟨hreach, hp⟩ := hI
    have hapj := hap j hreach hlt
    have hroom := (hp.inBlock_iff hapj j).mp hok
    obtain ⟨h', _, hstep⟩ := hp.step hapj hroom j
    split at hstep
    next hnone =>
      rw [hstep]
      exact ⟨j, hreach, hnone, hroom⟩
    next pieces hsome =>
      rw [hstep.1]
      refine ⟨fun i hi => ?_, hstep.2.1⟩
      rcases Nat.lt_succ_iff_lt_or_eq.mp hi with hij | rfl
      · exact hreach i hij
      · exact ⟨hlt, by simp [hsome], hroom⟩
  · rintro h ⟨j, hI, hout⟩
    exact ⟨j, hI.1, fun hlt => hout ((hcond j h hI).mpr hlt)⟩

/-- A walk that comes to its end in time keeps the rewriting in its block. -/
theorem hidesInBlock_of_hideReaches
    (hinfo : Apart newmmap size.toNat mbi MultibootInfo.span)
    (hap : ∀ j, HideReaches hideMemAddr hideMemSize mem (MultibootInfo.mmapAddr mem mbi)
      (mapEnd mem mbi) size.toNat j →
      recordAt mem (MultibootInfo.mmapAddr mem mbi) j < mapEnd mem mbi →
      Apart newmmap size.toNat (recordAt mem (MultibootInfo.mmapAddr mem mbi) j) memoryMapSize)
    {k : ℕ} (hreach : HideReaches hideMemAddr hideMemSize mem (MultibootInfo.mmapAddr mem mbi)
      (mapEnd mem mbi) size.toNat k)
    (hlast : recordAt mem (MultibootInfo.mmapAddr mem mbi) k < mapEnd mem mbi →
      hideRecord hideMemAddr hideMemSize
        (readMap mem (recordAt mem (MultibootInfo.mmapAddr mem mbi) k)) = none ∧
      hideSlotsBefore hideMemAddr hideMemSize mem (MultibootInfo.mmapAddr mem mbi) (k + 1) *
        memoryMapSize ≤ size.toNat) :
    (∀ fuel, HidesInBlock hideMemAddr hideMemSize mbi newmmap size mem fuel) ∧
      (hideLoop hideMemAddr hideMemSize mbi newmmap mem (k + 1)).All
        (fun h => ∀ x, ¬ InSpan newmmap size.toNat x → h.mem x = mem x)
        (fun h => ∀ x, ¬ InSpan newmmap size.toNat x → h.mem x = mem x) fun _ => False := by
  generalize hstart : MultibootInfo.mmapAddr mem mbi = start at *
  generalize hstop : mapEnd mem mbi = stop at *
  let I : ℕ → Hiding → Prop := fun j h =>
    j ≤ k ∧ HideProgress hideMemAddr hideMemSize newmmap size start mem j h
  have hcond : ∀ j h, I j h → (h.mmap < MultibootInfo.mmapAddr h.mem mbi +
      MultibootInfo.mmapLength h.mem mbi ↔ recordAt mem start j < stop) := by
    rintro j h ⟨_, hp⟩
    have hend := (mapEnd_of_frame hinfo hp.frame).2
    unfold mapEnd at hend hstop
    rw [hend, hstop, hp.mmap]
  have h0 : I 0 ⟨mem, 0, start⟩ := ⟨Nat.zero_le k, .init _ _ _ _ _ _⟩
  -- the room at the records before the last one and at that itself
  have hroom : ∀ j ≤ k, recordAt mem start j < stop →
      Apart newmmap size.toNat (recordAt mem start j) memoryMapSize ∧
      hideSlotsBefore hideMemAddr hideMemSize mem start (j + 1) * memoryMapSize ≤ size.toNat := by
    intro j hj hlt
    refine ⟨hap j (fun i hi => hreach i (by omega)) hlt, ?_⟩
    rcases Nat.lt_or_eq_of_le hj with hjk | rfl
    · exact (hreach j hjk).2.2
    · exact (hlast hlt).2
  have hbody : ∀ j h, h.mmap < MultibootInfo.mmapAddr h.mem mbi +
      MultibootInfo.mmapLength h.mem mbi → I j h →
      (hideStep hideMemAddr hideMemSize newmmap j h).All (I (j + 1))
        (fun h => ∀ x, ¬ InSpan newmmap size.toNat x → h.mem x = mem x) fun _ => False := by
    rintro j h hc hI
    have hlt := (hcond j h hI).mp hc
    obtain ⟨hj, hp⟩ := hI
    obtain ⟨hapj, hroomj⟩ := hroom j hj hlt
    obtain ⟨h', hframe, hstep⟩ := hp.step hapj hroomj j
    split at hstep
    next => rw [hstep]; exact hframe
    next pieces hsome =>
      rw [hstep.1]
      refine ⟨?_, hstep.2.1⟩
      rcases Nat.lt_or_eq_of_le hj with hjk | rfl
      · exact hjk
      · exact absurd (hlast hlt).1 (by simp [hsome])
  constructor
  · intro fuel
    unfold HidesInBlock
    rw [hstart]
    apply admits_of_invariant I h0
    · intro j h hI hc
      obtain ⟨hapj, hroomj⟩ := hroom j hI.1 ((hcond j h hI).mp hc)
      exact (hI.2.inBlock_iff hapj j).mpr hroomj
    · intro j h h' hI hc he
      have hb := hbody j h hc hI
      rwa [he] at hb
  · unfold hideLoop
    rw [hstart]
    refine (run_all I _ _ hbody h0).mono ?_ (fun _ hq => hq) ?_
    · rintro h ⟨j, _, hI, _⟩
      exact hI.2.frame
    · rintro h (hf | ⟨j, rfl, hI, _⟩)
      · exact hf
      · have hle := hI.1
        omega

theorem hidingRobust_iff {s : Machine} (h : HideChecked s mbi hideMemAddr hideMemSize) :
    HidingRobust s mbi hideMemAddr hideMemSize ↔ HidingEnds s mbi hideMemAddr hideMemSize := by
  obtain ⟨hflags, hserved, hinfo, hap⟩ := h
  have hframe : ∀ x, ¬ InSpan (allocateMemory s (hideRequest s.mem mbi)).2
      (hideRequest s.mem mbi).toNat x →
      (allocateMemory s (hideRequest s.mem mbi)).1.mem x = s.mem x := fun _ => allocateMemory_frame
  unfold HidingRobust HidingEnds
  simp only [hideRuntimeMemory_eq hflags hserved]
  generalize hideRequest s.mem mbi = size at *
  generalize allocateMemory s size = o at *
  obtain ⟨s₁, newmmap⟩ := o
  dsimp only at hserved hinfo hap hframe ⊢
  obtain ⟨hstart, hstop⟩ := mapEnd_of_frame hinfo hframe
  rw [← hstart, ← hstop] at hap ⊢
  constructor
  · rintro ⟨fuel, s', b, hrun, -, hadm⟩
    have hall := hideReaches_of_hidesInBlock hinfo hap hadm
    cases hloop : hideLoop hideMemAddr hideMemSize mbi newmmap s₁.mem fuel <;>
      rw [hloop] at hall hrun
    case next h =>
      obtain ⟨k, hreach, hout⟩ := hall
      exact ⟨k, hreach, fun hlt => absurd hlt hout⟩
    case quit h =>
      obtain ⟨k, hreach, hlast⟩ := hall
      exact ⟨k, hreach, fun _ => hlast⟩
    case spent h => cases hrun
  · rintro ⟨k, hreach, hlast⟩
    obtain ⟨hadm, hall⟩ := hidesInBlock_of_hideReaches hinfo hap hreach hlast
    refine ⟨k + 1, ?_⟩
    generalize hideLoop hideMemAddr hideMemSize mbi newmmap s₁.mem (k + 1) = o at hall ⊢
    cases o with
    | next h =>
      refine ⟨_, _, rfl, ?_, hadm _⟩
      intro x hx hinfo'
      dsimp only
      rw [Memory.setField_of_outside _ _ hinfo' (by decide) (by decide),
        Memory.setField_of_outside _ _ hinfo' (by decide) (by decide), hall x hx]
      exact hframe x hx
    | quit h => exact ⟨_, _, rfl, fun x hx _ => (hall x hx).trans (hframe x hx), hadm _⟩
    | spent h => exact hall.elim

end rewriting

/-- Both walks end and stay within what they have allocated, exactly if the stated sizes lead out
of the map in time. -/
theorem mapWalks_robust_iff {s t : Machine} {inf mbi hideMemAddr hideMemSize : BitVec 32}
    (hs : ConvertChecked s inf) (ht : HideChecked t mbi hideMemAddr hideMemSize) :
    (ConversionRobust s inf ↔ ConversionEnds s inf) ∧
      (HidingRobust t mbi hideMemAddr hideMemSize ↔ HidingEnds t mbi hideMemAddr hideMemSize) :=
  ⟨conversionRobust_iff hs, hidingRobust_iff ht⟩

section tiled
variable {s : Machine} {inf mbi hideMemAddr hideMemSize : BitVec 32} {n : ℕ}

/-- A map that is tiled, outside the page. -/
theorem ConvertInput.checked (h : ConvertInput s inf n) : ConvertChecked s inf := by
  have hframe : ∀ x, ¬ InSpan (monPageAlloc s 1).2 PAGE_SIZE.toNat x →
      (monPageAlloc s 1).1.mem x = s.mem x := fun _ => monPageAlloc_frame
  obtain ⟨haddr, hend⟩ := mapEnd_of_frame h.infoOutside hframe
  refine ⟨h.flags, ?_, h.served, ?_⟩
  · rw [BitVec.lt_def]
    exact Nat.not_lt.mpr h.short
  · have hmap := h.mapOutside
    have hfit := Nat.le_of_lt (MultibootInfo.mmapLength s.mem inf).isLt
    have ht := h.tiled.of_same hfit fun x hx => hframe x fun hin => hmap x hin hx
    rw [haddr, hend]
    intro j _ hj
    unfold mapEnd at hj
    have hjn := ht.lt_of_forall_lt (k := j) h.fits (by
      rwa [BitVec.ofNat_toNat, BitVec.setWidth_eq])
    exact fun x hx hr => hmap x hx (ht.inSpan hjn hfit (hr.mono (by decide)))

/-- A map that is tiled, outside the block. -/
theorem HideChecked.of_tiled (hflags : MultibootInfo.flags s.mem mbi &&& MBI_MEMMAP ≠ 0)
    (hserved : (allocateMemory s (hideRequest s.mem mbi)).2 ≠ NULL)
    (hinfo : Apart (allocateMemory s (hideRequest s.mem mbi)).2 (hideRequest s.mem mbi).toNat mbi
      MultibootInfo.span)
    (ht : TiledBy s.mem (MultibootInfo.mmapAddr s.mem mbi)
      (MultibootInfo.mmapLength s.mem mbi).toNat n)
    (hfits : (MultibootInfo.mmapAddr s.mem mbi).toNat +
      (MultibootInfo.mmapLength s.mem mbi).toNat < 2 ^ 32)
    (hmap : Apart (allocateMemory s (hideRequest s.mem mbi)).2 (hideRequest s.mem mbi).toNat
      (MultibootInfo.mmapAddr s.mem mbi) (MultibootInfo.mmapLength s.mem mbi).toNat) :
    HideChecked s mbi hideMemAddr hideMemSize := by
  refine ⟨hflags, hserved, hinfo, ?_⟩
  intro j hreach hlt
  have hfit := Nat.le_of_lt (MultibootInfo.mmapLength s.mem mbi).isLt
  have ht' := ht.of_same hfit fun x hx => allocateMemory_frame fun hin => hmap x hin hx
  have hjn := ht'.lt_of_forall_lt (k := j) hfits (by
    intro i hi
    rw [BitVec.ofNat_toNat, BitVec.setWidth_eq]
    rcases Nat.lt_or_eq_of_le hi with hij | rfl
    · exact (hreach i hij).1
    · exact hlt)
  exact fun x hx hr => hmap x hx (ht'.inSpan hjn hfit hr)

end tiled

/-- Two records of different sizes, and a range within the first of them. -/
theorem mapWalks_robust_iff_varied :
    (ConversionRobust variedMachine 0x100 ↔ ConversionEnds variedMachine 0x100) ∧
      (HidingRobust variedMachine 0x100 0x2000 0x1000 ↔
        HidingEnds variedMachine 0x100 0x2000 0x1000) := by
  obtain ⟨haddr, hlength⟩ := varied_info
  have hblock : (allocateMemory variedMachine (hideRequest variedMachine.mem 0x100)).2 = 0x8000 := by
    decide +kernel
  have hrequest : hideRequest variedMachine.mem 0x100 = 96 := by
    unfold hideRequest
    rw [hlength]
    rfl
  apply mapWalks_robust_iff convertInput_varied.checked
  refine HideChecked.of_tiled (n := 2) (by decide +kernel) ?_ ?_ ?_ ?_ ?_
  · rw [hblock]
    decide
  · rw [hblock, hrequest]
    exact (apart_of_le (by decide) (by decide)).symm
  · rw [haddr, hlength]
    exact tiledBy_varied
  · rw [haddr, hlength]
    decide
  · rw [hblock, hrequest, haddr, hlength]
    exact (apart_of_le (by decide) (by decide)).symm

/-- A map of one record at 0x200, whose size leads from it to itself. -/
def stuckMem : Memory 32 :=
  let mem : Memory 32 := fun _ => 0
  let mem := mem.setField 0x100 0 (0x43 : BitVec 32)
  let mem := mem.setField 0x100 44 (24 : BitVec 32)
  let mem := mem.setField 0x100 48 (0x200 : BitVec 32)
  mem.setField 0x200 0 (0xfffffffc : BitVec 32)

def stuckMachine : Machine := initializeMemoryManager stuckMem 0x8000 0x2000

section stuck
variable {mem : Memory 32}

theorem readMap_stuck (hsame : ∀ x, InSpan 0x200 24 x → mem x = stuckMem x) :
    readMap mem 0x200 = ⟨0xfffffffc, 0, 0, 0⟩ := by
  have heq : readMap mem 0x200 = readMap stuckMem 0x200 := by
    apply readMap_congr
    exact Memory.Same.of_unchanged hsame (by decide)
  rw [heq]
  decide +kernel

theorem recordAt_stuck (hsame : ∀ x, InSpan 0x200 24 x → mem x = stuckMem x) (k : ℕ) :
    recordAt mem 0x200 k = 0x200 := by
  have hnext : nextRecord mem 0x200 = 0x200 := by
    unfold nextRecord
    rw [readMap_stuck hsame]
    rfl
  exact Function.iterate_fixed hnext k

theorem stuck_info : MultibootInfo.mmapAddr stuckMem 0x100 = 0x200 ∧
    mapEnd stuckMem 0x100 = 0x218 := by decide +kernel

end stuck

/-- Neither loop ends on such a map, which passes all the checks. -/
theorem mapWalks_stuck :
    (ConvertChecked stuckMachine 0x100 ∧ ¬ ConversionRobust stuckMachine 0x100) ∧
      HideChecked stuckMachine 0x100 0x2000 0x1000 ∧
      ¬ HidingRobust stuckMachine 0x100 0x2000 0x1000 := by
  have hmem : stuckMachine.mem = stuckMem := rfl
  have hpage : (monPageAlloc stuckMachine 1).2 = 0x8000 := by decide +kernel
  have hblock : (allocateMemory stuckMachine (hideRequest stuckMem 0x100)).2 = 0x8000 := by
    decide +kernel
  have hrequest : (hideRequest stuckMem 0x100).toNat = 72 := by decide +kernel
  have hpageFrame : ∀ x, ¬ InSpan 0x8000 PAGE_SIZE.toNat x →
      (monPageAlloc stuckMachine 1).1.mem x = stuckMem x :=
    fun x hx => monPageAlloc_frame (hpage ▸ hx)
  have hblockFrame : ∀ x, ¬ InSpan 0x8000 72 x →
      (allocateMemory stuckMachine (hideRequest stuckMem 0x100)).1.mem x = stuckMem x :=
    fun x hx => allocateMemory_frame (by rwa [hblock, hrequest])
  obtain ⟨haddr, hend⟩ := stuck_info
  have hinfo : ∀ {n}, n ≤ PAGE_SIZE.toNat → Apart (0x8000 : BitVec 32) n 0x100 MultibootInfo.span := by
    intro n hn
    apply Apart.symm
    exact (apart_of_le (by decide) (by decide)).mono le_rfl hn
  have hmap : ∀ {n}, n ≤ PAGE_SIZE.toNat → Apart (0x8000 : BitVec 32) n 0x200 24 := by
    intro n hn
    apply Apart.symm
    exact (apart_of_le (by decide) (by decide)).mono le_rfl hn
  obtain ⟨haddr₁, hend₁⟩ := mapEnd_of_frame (hinfo le_rfl) hpageFrame
  have hstay₁ := recordAt_stuck fun x hx => hpageFrame x fun hin => hmap le_rfl x hin hx
  have hstay₂ := recordAt_stuck fun x hx => hblockFrame x fun hin => hmap (by decide) x hin hx
  have hrecord := readMap_stuck fun x hx => hblockFrame x fun hin => hmap (by decide) x hin hx
  have hconvert : ConvertChecked stuckMachine 0x100 := by
    refine ⟨by decide +kernel, by decide +kernel, by rw [hpage]; decide, ?_⟩
    intro j _ _
    rw [haddr₁, haddr, hpage, hstay₁]
    exact (hmap le_rfl).mono le_rfl (by decide)
  have hhide : HideChecked stuckMachine 0x100 0x2000 0x1000 := by
    refine ⟨by decide +kernel, ?_, ?_, ?_⟩
    · rw [hmem, hblock]
      decide
    · rw [hmem, hblock, hrequest]
      exact hinfo (by decide)
    · intro j _ _
      rw [hmem, haddr, hblock, hrequest, hstay₂]
      exact hmap (by decide)
  refine ⟨⟨hconvert, ?_⟩, hhide, ?_⟩
  · rw [conversionRobust_iff hconvert]
    rintro ⟨k, _, _, hout⟩
    rw [haddr₁, haddr, hend₁, hend, hstay₁] at hout
    exact hout (by decide)
  · rw [hidingRobust_iff hhide]
    rintro ⟨k, _, hlast⟩
    rw [hmem, haddr, hend, hstay₂, hrecord] at hlast
    exact absurd (hlast (by decide)).1 (by decide)

end IkgtLoader
