import IkgtLoader.Flat.Seen
import IkgtLoader.PreOs.MapBounds

/-! The map that is left when `hide_runtime_memory` returns, whatever its result: the old one, or the
pieces of all records, and which of the records that are handed on expose the range. -/
namespace IkgtLoader
open Flat Loop

section pieces
variable {hideMemAddr hideMemSize start : BitVec 32} {mem : Memory 32} {k i j : ℕ}
  {l : List MemoryMap} {q : MemoryMap}

/-- The pieces of a record stand behind those of the records before it. -/
theorem getElem?_hideRecords (hl : hideRecords hideMemAddr hideMemSize
    (fun i => readMap mem (recordAt mem start i)) k = some l) (hi : i < k)
    {pieces : List MemoryMap}
    (hp : hideRecord hideMemAddr hideMemSize (readMap mem (recordAt mem start i)) = some pieces)
    (hq : pieces[j]? = some q) :
    l[hideSlotsBefore hideMemAddr hideMemSize mem start i + j]? = some q := by
  induction k generalizing l with
  | zero => omega
  | succ k ih =>
    obtain ⟨l', pieces', hl', hp', rfl⟩ := hideRecords_succ.mp hl
    rcases Nat.lt_succ_iff_lt_or_eq.mp hi with hlt | rfl
    · have hin := ih hl' hlt
      rw [List.getElem?_append_left (List.getElem?_eq_some_iff.mp hin).1]
      exact hin
    · cases hp.symm.trans hp'
      rw [← length_eq_hideSlotsBefore hl', List.getElem?_append_right (Nat.le_add_right _ _),
        Nat.add_sub_cancel_left]
      exact hq

/-- Every record of the new map is a piece of an old one. -/
theorem exists_piece (hl : hideRecords hideMemAddr hideMemSize
    (fun i => readMap mem (recordAt mem start i)) k = some l) (hq : l[j]? = some q) :
    ∃ i < k, hideSlotsBefore hideMemAddr hideMemSize mem start i ≤ j ∧ ∃ pieces,
      hideRecord hideMemAddr hideMemSize (readMap mem (recordAt mem start i)) = some pieces ∧
        q ∈ pieces := by
  induction k generalizing l with
  | zero =>
    cases hl
    cases hq
  | succ k ih =>
    obtain ⟨l', pieces, hl', hp, rfl⟩ := hideRecords_succ.mp hl
    have hlen := length_eq_hideSlotsBefore hl'
    rcases Nat.lt_or_ge j l'.length with hlt | hge
    · rw [List.getElem?_append_left hlt] at hq
      obtain ⟨i, hi, h⟩ := ih hl' hq
      exact ⟨i, by omega, h⟩
    · rw [List.getElem?_append_right hge] at hq
      exact ⟨k, by omega, hlen ▸ hge, pieces, hp, List.mem_of_getElem? hq⟩

end pieces

/-- An AVAILABLE record covers an address of the range. -/
def MemoryMap.Exposes (r : MemoryMap) (hideMemAddr hideMemSize : BitVec 32) : Prop :=
  r.type = MULTIBOOT_MEMORY_AVAILABLE ∧ ∃ x, InRange hideMemAddr hideMemSize x ∧ r.Covers x

/-- The records that are handed on: their number is cut to eight bits. -/
def handedOn (map : List MemoryMap) : List MemoryMap := map.take (map.length % 256)

/-- The new map exposes the range exactly if a record that spoils it is handed on. -/
theorem handedOn_hideRecords_iff {hideMemAddr hideMemSize start : BitVec 32} {mem : Memory 32}
    {k : ℕ} {l : List MemoryMap} (h : hideMemAddr.toNat + hideMemSize.toNat < 2 ^ 32)
    (hpos : 0 < hideMemSize.toNat)
    (hw : ∀ i < k, (readMap mem (recordAt mem start i)).addr.toNat +
      (readMap mem (recordAt mem start i)).len.toNat ≤ 2 ^ 64)
    (hl : hideRecords hideMemAddr hideMemSize (fun i => readMap mem (recordAt mem start i)) k =
      some l) :
    (∀ q ∈ handedOn l, ¬ q.Exposes hideMemAddr hideMemSize) ↔
      ∀ i < k, (readMap mem (recordAt mem start i)).Spoils hideMemAddr hideMemSize →
        hideSlotsBefore hideMemAddr hideMemSize mem start k % 256 ≤
          hideSlotsBefore hideMemAddr hideMemSize mem start i := by
  have hlen := length_eq_hideSlotsBefore hl
  unfold handedOn
  rw [← hlen]
  constructor
  · intro hall i hi hs
    by_contra hlt
    obtain ⟨pieces, hp⟩ := hideRecord_isSome hl hi
    obtain ⟨q, rest, rfl, ht, x, hx, hc⟩ := head_of_spoils h hpos (hw i hi) hs hp
    have hq := getElem?_hideRecords (j := 0) hl hi hp rfl
    apply hall q _ ⟨ht, x, hx, hc⟩
    rw [Nat.add_zero] at hq
    apply List.mem_of_getElem? (i := hideSlotsBefore hideMemAddr hideMemSize mem start i)
    rw [List.getElem?_take_of_lt (Nat.lt_of_not_le hlt)]
    exact hq
  · rintro hall q hq ⟨ht, x, hx, hc⟩
    obtain ⟨j, hj⟩ := List.getElem?_of_mem hq
    rw [List.getElem?_take] at hj
    split at hj
    next hlt =>
      obtain ⟨i, hi, hle, pieces, hp, hin⟩ := exists_piece hl hj
      by_cases hs : (readMap mem (recordAt mem start i)).Spoils hideMemAddr hideMemSize
      · exact absurd (hall i hi hs) (by omega)
      · exact not_coveredBy_hideRecord h (hw i hi) hs hp hx ⟨q, hin, ht, hc⟩
    next => cases hj

section walk
variable (s : Machine) (mbi hideMemAddr hideMemSize : BitVec 32)

/-- The record `k` of the walk over the map. -/
def walked (k : ℕ) : MemoryMap := readMap s.mem (recordAt s.mem (MultibootInfo.mmapAddr s.mem mbi) k)

/-- The walk is in the map at the record `k`. -/
def InMap (k : ℕ) : Prop := recordAt s.mem (MultibootInfo.mmapAddr s.mem mbi) k < mapEnd s.mem mbi

/-- The walk comes to the record `k`: those before it are in the map, and none is refused. -/
def Comes (k : ℕ) : Prop :=
  ∀ i < k, InMap s mbi i ∧ hideRecord hideMemAddr hideMemSize (walked s mbi i) ≠ none

/-- There is no block for the new map. -/
def NoBlock : Prop := s.heapTops < s.heapCurrent + hideRequest s.mem mbi ∨ s.heapCurrent = NULL

/-- The rewriting is given up: there is no map or no block, or the walk comes to a record that is
refused. -/
def HideFails : Prop :=
  MultibootInfo.flags s.mem mbi &&& MBI_MEMMAP = 0 ∨ NoBlock s mbi ∨
    ∃ k, Comes s mbi hideMemAddr hideMemSize k ∧ InMap s mbi k ∧
      hideRecord hideMemAddr hideMemSize (walked s mbi k) = none

/-- The rewriting goes through, with `k` records before the end of the map. -/
structure HideCuts (k : ℕ) : Prop where
  flags : MultibootInfo.flags s.mem mbi &&& MBI_MEMMAP ≠ 0
  block : ¬ NoBlock s mbi
  comes : Comes s mbi hideMemAddr hideMemSize k
  stop : ¬ InMap s mbi k

/-- The end of the heap when the rewriting returns. -/
def launchBlock : BitVec 32 :=
  if MultibootInfo.flags s.mem mbi &&& MBI_MEMMAP = 0 then s.heapCurrent
  else (allocateMemory s (hideRequest s.mem mbi)).1.heapCurrent

/-- What the rewriting may store, `size` bytes from the end of the heap on, lies apart from the
information and the map. -/
structure HideBeside (size : BitVec 32) : Prop where
  request : (hideRequest s.mem mbi).toNat ≤ size.toNat
  info : Apart s.heapCurrent size.toNat mbi MultibootInfo.span
  map : ∀ i < (recordsOf s.mem mbi).length, Apart s.heapCurrent size.toNat
    (mapEntry (MultibootInfo.mmapAddr s.mem mbi) i) memoryMapSize
  walk : ∀ k, Comes s mbi hideMemAddr hideMemSize k → InMap s mbi k →
    hideSlotsBefore hideMemAddr hideMemSize s.mem (MultibootInfo.mmapAddr s.mem mbi) (k + 1) *
        memoryMapSize ≤ size.toNat ∧
      Apart s.heapCurrent size.toNat (recordAt s.mem (MultibootInfo.mmapAddr s.mem mbi) k)
        memoryMapSize

/-- A memory with the map that the kernel is launched with: the one of the entry in its old place, or
its pieces at the end of the heap. Of the `size` bytes there it says nothing else. -/
inductive Given (size : BitVec 32) (map : List MemoryMap) (g : Memory 32) : Prop
  | kept (h : HideFails s mbi hideMemAddr hideMemSize) (hmap : map = recordsOf s.mem mbi)
      (hframe : ∀ x, ¬ InSpan s.heapCurrent size.toNat x → g x = s.mem x)
  | cut (k : ℕ) (h : HideCuts s mbi hideMemAddr hideMemSize k)
      (hmap : hideRecords hideMemAddr hideMemSize (walked s mbi) k = some map)
      (hframe : ∀ x, ¬ InSpan s.heapCurrent size.toNat x →
        ¬ InSpan (mbi + BitVec.ofNat 32 44) 8 x → g x = s.mem x)
      (haddr : MultibootInfo.mmapAddr g mbi = s.heapCurrent)
      (hlength : MultibootInfo.mmapLength g mbi = BitVec.ofNat 32 (map.length * memoryMapSize))
      (hholds : Holds g s.heapCurrent map)

/-- What such a memory says: all but what is stored at the end of the heap beside its map. -/
def Known (size : BitVec 32) (map : List MemoryMap) (g : Memory 32) : Set (BitVec 32) :=
  {x | InSpan s.heapCurrent size.toNat x → ∃ i < map.length,
    InSpan (mapEntry (MultibootInfo.mmapAddr g mbi) i) memoryMapSize x}

end walk

section outcome
variable {s s₁ : Machine} {mbi hideMemAddr hideMemSize size : BitVec 32} {k j fuel : ℕ} {r : Bool}

theorem HideCuts.not_fails (h : HideCuts s mbi hideMemAddr hideMemSize k) :
    ¬ HideFails s mbi hideMemAddr hideMemSize := by
  rintro (hn | hn | ⟨j, hj, hin, hr⟩)
  · exact h.flags hn
  · exact h.block hn
  · rcases Nat.lt_trichotomy j k with hlt | rfl | hgt
    · exact (h.comes j hlt).2 hr
    · exact h.stop hin
    · exact h.stop (hj k hgt).1

theorem HideCuts.unique (h : HideCuts s mbi hideMemAddr hideMemSize k)
    (h' : HideCuts s mbi hideMemAddr hideMemSize j) : k = j := by
  rcases Nat.lt_trichotomy k j with hlt | heq | hgt
  · exact absurd (h'.comes k hlt).1 h.stop
  · exact heq
  · exact absurd (h.comes j hgt).1 h'.stop

/-- The new map has room in the block. -/
theorem HideCuts.room (h : HideCuts s mbi hideMemAddr hideMemSize k)
    (hb : HideBeside s mbi hideMemAddr hideMemSize size) {l : List MemoryMap}
    (hl : hideRecords hideMemAddr hideMemSize (walked s mbi) k = some l) :
    l.length * memoryMapSize ≤ size.toNat := by
  have hlen : l.length = hideSlotsBefore hideMemAddr hideMemSize s.mem
      (MultibootInfo.mmapAddr s.mem mbi) k := length_eq_hideSlotsBefore hl
  cases k with
  | zero =>
    cases hl
    exact Nat.zero_le _
  | succ k =>
    rw [hlen]
    exact (hb.walk k (fun i hi => h.comes i (Nat.lt_succ_of_lt hi)) (h.comes k k.lt_succ_self).1).1

/-- The loop, from a memory in which the block is changed already. -/
theorem hideLoop_given (hb : HideBeside s mbi hideMemAddr hideMemSize size) {m : Memory 32}
    (hm : ∀ x, ¬ InSpan s.heapCurrent size.toNat x → m x = s.mem x) (fuel : ℕ) :
    (hideLoop hideMemAddr hideMemSize mbi s.heapCurrent m fuel).All
      (fun h => ∃ k l, Comes s mbi hideMemAddr hideMemSize k ∧ ¬ InMap s mbi k ∧
        hideRecords hideMemAddr hideMemSize (walked s mbi) k = some l ∧ Holds h.mem s.heapCurrent l ∧
        HideProgress hideMemAddr hideMemSize s.heapCurrent size (MultibootInfo.mmapAddr s.mem mbi)
          s.mem k h)
      (fun h => (∃ k, Comes s mbi hideMemAddr hideMemSize k ∧ InMap s mbi k ∧
        hideRecord hideMemAddr hideMemSize (walked s mbi k) = none) ∧
        ∀ x, ¬ InSpan s.heapCurrent size.toNat x → h.mem x = s.mem x)
      fun _ => True := by
  obtain ⟨hstart, -⟩ := mapEnd_of_frame hb.info hm
  let I : ℕ → Hiding → Prop := fun k h =>
    Comes s mbi hideMemAddr hideMemSize k ∧
      HideProgress hideMemAddr hideMemSize s.heapCurrent size (MultibootInfo.mmapAddr s.mem mbi)
        s.mem k h ∧
      ∃ l, hideRecords hideMemAddr hideMemSize (walked s mbi) k = some l ∧ Holds h.mem s.heapCurrent l
  have hcond : ∀ k h, I k h → (h.mmap < MultibootInfo.mmapAddr h.mem mbi +
      MultibootInfo.mmapLength h.mem mbi ↔ InMap s mbi k) := by
    rintro k h ⟨_, hp, _⟩
    have hend := (mapEnd_of_frame hb.info hp.frame).2
    unfold mapEnd at hend
    rw [hend, hp.mmap]
    exact Iff.rfl
  have h0 : I 0 ⟨m, 0, MultibootInfo.mmapAddr s.mem mbi⟩ := by
    refine ⟨fun i hi => absurd hi (Nat.not_lt_zero i), ⟨rfl, by simp, rfl, hm⟩, [], rfl, ?_⟩
    intro k r hk
    cases hk
  unfold hideLoop
  rw [hstart]
  refine (run_all I _ (fun _ => False) ?_ h0).mono ?_ (fun _ hq => hq) fun _ _ => trivial
  · rintro k h hc hI
    have hin := (hcond k h hI).mp hc
    obtain ⟨hcomes, hp, l, hl, hholds⟩ := hI
    obtain ⟨hroom, hap⟩ := hb.walk k hcomes hin
    obtain ⟨h', hframe, hstep⟩ := hp.step hap hroom k
    split at hstep
    next hnone =>
      rw [hstep]
      exact ⟨⟨k, hcomes, hin, hnone⟩, hframe⟩
    next pieces hsome =>
      obtain ⟨hnext, hp', hpush⟩ := hstep
      rw [hnext]
      refine ⟨?_, hp', l ++ pieces, hideRecords_succ.mpr ⟨l, pieces, hl, hsome, rfl⟩, ?_⟩
      · intro i hi
        rcases Nat.lt_succ_iff_lt_or_eq.mp hi with hlt | rfl
        · exact hcomes i hlt
        · refine ⟨hin, fun hnone => ?_⟩
          cases hsome.symm.trans hnone
      · exact hpush l (length_eq_hideSlotsBefore hl) hholds
  · rintro h ⟨k, _, ⟨hcomes, hp, l, hl, hholds⟩, hout⟩
    exact ⟨k, l, hcomes, fun hin => hout ((hcond k h ⟨hcomes, hp, l, hl, hholds⟩).mpr hin), hl,
      hholds, hp⟩

/-- Where the fields of the map and its records are the same, so is the map. -/
theorem recordsOf_of_info {m m' : Memory 32}
    (haddr : MultibootInfo.mmapAddr m' mbi = MultibootInfo.mmapAddr m mbi)
    (hlength : MultibootInfo.mmapLength m' mbi = MultibootInfo.mmapLength m mbi)
    (hsame : ∀ i < (recordsOf m mbi).length, ∀ x,
      InSpan (mapEntry (MultibootInfo.mmapAddr m mbi) i) memoryMapSize x → m' x = m x) :
    recordsOf m' mbi = recordsOf m mbi := by
  rw [length_recordsOf] at hsame
  unfold recordsOf
  rw [haddr, hlength]
  apply List.map_congr_left
  intro i hi
  apply readMap_congr
  apply Memory.Same.of_unchanged _ (by decide)
  exact hsame i (List.mem_range.mp hi)

theorem allocateMemory_null : (allocateMemory s (hideRequest s.mem mbi)).2 = NULL ↔ NoBlock s mbi := by
  unfold NoBlock allocateMemory
  by_cases hlt : s.heapTops < s.heapCurrent + hideRequest s.mem mbi
  · rw [reserve_refused _ _ _ hlt]
    exact iff_of_true rfl (.inl hlt)
  · rw [reserve_served _ _ _ hlt]
    exact (or_iff_right hlt).symm

theorem allocateMemory_heapCurrent (h : ¬ NoBlock s mbi) :
    (allocateMemory s (hideRequest s.mem mbi)).2 = s.heapCurrent := by
  unfold allocateMemory
  rw [reserve_served _ _ _ fun hlt => h (.inl hlt)]

/-- The records that the fields tell of. -/
theorem recordsOf_of_holds {m : Memory 32} {table : BitVec 32} {l : List MemoryMap}
    (haddr : MultibootInfo.mmapAddr m mbi = table)
    (hlength : MultibootInfo.mmapLength m mbi = BitVec.ofNat 32 (l.length * memoryMapSize))
    (hfit : l.length * memoryMapSize < 2 ^ 32) (hh : Holds m table l) : recordsOf m mbi = l := by
  unfold recordsOf
  rw [hlength, haddr, BitVec.toNat_ofNat, Nat.mod_eq_of_lt hfit,
    Nat.mul_div_cancel _ (show 0 < memoryMapSize by decide)]
  apply List.ext_getElem
  · rw [List.length_map, List.length_range]
  · intro k hk hk'
    rw [List.getElem_map, List.getElem_range]
    exact hh k _ (List.getElem?_eq_getElem hk')

/-- Such a memory lists the map. -/
theorem Given.records {map : List MemoryMap} {g : Memory 32}
    (h : Given s mbi hideMemAddr hideMemSize size map g)
    (hb : HideBeside s mbi hideMemAddr hideMemSize size) : recordsOf g mbi = map := by
  cases h with
  | kept h hmap hframe =>
    subst hmap
    have hsame : Memory.Same g mbi s.mem mbi MultibootInfo.span := by
      apply Memory.Same.of_unchanged _ (by decide)
      exact fun x hx => hframe x (hb.info.symm x hx)
    apply recordsOf_of_info
    · exact Memory.field_congr hsame (by decide)
    · exact Memory.field_congr hsame (by decide)
    · exact fun i hi x hx => hframe x ((hb.map i hi).symm x hx)
  | cut k h hmap hframe haddr hlength hholds =>
    exact recordsOf_of_holds haddr hlength (Nat.lt_of_le_of_lt (h.room hb hmap) size.isLt) hholds

/-- Two such memories have the same map, and agree on all that they say. -/
theorem Given.eqOn {map map' : List MemoryMap} {g g' : Memory 32}
    (h : Given s mbi hideMemAddr hideMemSize size map g)
    (h' : Given s mbi hideMemAddr hideMemSize size map' g')
    (hb : HideBeside s mbi hideMemAddr hideMemSize size) :
    map' = map ∧ Set.EqOn g' g (Known s mbi size map g) := by
  cases h with
  | kept h hmap hframe =>
    cases h' with
    | kept _ hmap' hframe' =>
      subst hmap hmap'
      refine ⟨rfl, fun x hx => ?_⟩
      have haddr := (mapEnd_of_frame hb.info hframe).1
      -- the old records do not lie in the block
      have hout : ¬ InSpan s.heapCurrent size.toNat x := by
        intro hin
        obtain ⟨i, hi, hrecord⟩ := hx hin
        rw [haddr] at hrecord
        exact hb.map i hi x hin hrecord
      rw [hframe x hout, hframe' x hout]
    | cut k h' => exact absurd h h'.not_fails
  | cut k h hmap hframe haddr hlength hholds =>
    cases h' with
    | kept h' => exact absurd h' h.not_fails
    | cut j h' hmap' hframe' haddr' hlength' hholds' =>
      obtain rfl := h.unique h'
      obtain rfl : map' = map := Option.some.inj (hmap'.symm.trans hmap)
      refine ⟨rfl, fun x hx => ?_⟩
      by_cases hin : InSpan s.heapCurrent size.toNat x
      · obtain ⟨i, hi, hrecord⟩ := hx hin
        rw [haddr] at hrecord
        have hget := List.getElem?_eq_getElem hi
        have hread := (hholds' i _ hget).trans (hholds i _ hget).symm
        exact (same_of_readMap_eq hread).apply_inSpan hrecord
      · by_cases hfield : InSpan (mbi + BitVec.ofNat 32 44) 8 x
        · have hlow := haddr'.trans haddr.symm
          have hhigh := hlength'.trans hlength.symm
          have hsame : Memory.Same g' (mbi + BitVec.ofNat 32 44) g (mbi + BitVec.ofNat 32 44) 4 :=
            (Memory.field_eq_iff_same rfl).mp hhigh
          have hrest : Memory.Same g' (mbi + BitVec.ofNat 32 48) g (mbi + BitVec.ofNat 32 48) 4 :=
            (Memory.field_eq_iff_same rfl).mp hlow
          have hboth : Memory.Same g' (mbi + BitVec.ofNat 32 44) g (mbi + BitVec.ofNat 32 44) (4 + 4) := by
            apply hsame.append
            rwa [add_ofNat_ofNat]
          exact hboth.apply_inSpan hfield
        · rw [hframe x hin hfield, hframe' x hin hfield]

theorem launchBlock_eq (hflags : MultibootInfo.flags s.mem mbi &&& MBI_MEMMAP ≠ 0) :
    launchBlock s mbi = (allocateMemory s (hideRequest s.mem mbi)).1.heapCurrent := if_neg hflags

/-- The new map is what the two fields of the information tell of, once they are stored. -/
theorem HideCuts.given (h : HideCuts s mbi hideMemAddr hideMemSize k)
    (hb : HideBeside s mbi hideMemAddr hideMemSize size) {l : List MemoryMap}
    (hl : hideRecords hideMemAddr hideMemSize (walked s mbi) k = some l) {m : Memory 32}
    (hframe : ∀ x, ¬ InSpan s.heapCurrent size.toNat x → m x = s.mem x)
    (hholds : Holds m s.heapCurrent l) :
    Given s mbi hideMemAddr hideMemSize size l ((m.setField mbi 48 s.heapCurrent).setField mbi 44
      (BitVec.ofNat 32 (l.length * memoryMapSize))) := by
  have hroom := h.room hb hl
  refine .cut k h hl ?_ ?_ ?_ ?_
  · intro x hx hinfo
    rw [Memory.setField_of_not_inSpan, Memory.setField_of_not_inSpan]
    · exact hframe x hx
    · rw [inSpan_offset (by decide)] at hinfo ⊢
      omega
    · exact fun hin => hinfo (hin.mono (by decide))
  · unfold MultibootInfo.mmapAddr
    rw [Memory.field_setField_of_ne _ _ (by decide) (by decide) (by decide)]
    exact Memory.field_setField _ _ _ _ (by decide) (by decide)
  · unfold MultibootInfo.mmapLength
    exact Memory.field_setField _ _ _ _ (by decide) (by decide)
  · intro i q hq
    rw [← hholds i q hq]
    apply readMap_congr
    apply Memory.Same.of_unchanged _ (by decide)
    intro x hx
    have hi := (List.getElem?_eq_some_iff.mp hq).1
    have hle : (i + 1) * memoryMapSize ≤ size.toNat := (Nat.mul_le_mul_right _ hi).trans hroom
    rw [Nat.succ_mul] at hle
    have hout := hb.info x (hx.of_offset hle (Nat.le_of_lt size.isLt))
    rw [Memory.setField_of_outside _ _ hout (by decide) (by decide),
      Memory.setField_of_outside _ _ hout (by decide) (by decide)]

/-- What the call leaves, whatever its result. -/
theorem hideRuntimeMemory_given (hb : HideBeside s mbi hideMemAddr hideMemSize size)
    (h : hideRuntimeMemory s mbi hideMemAddr hideMemSize fuel = some (s₁, r)) :
    (∃ map, Given s mbi hideMemAddr hideMemSize size map s₁.mem) ∧
      s₁.heapCurrent = launchBlock s mbi := by
  have hblock : ∀ x, ¬ InSpan s.heapCurrent size.toNat x →
      (allocateMemory s (hideRequest s.mem mbi)).1.mem x = s.mem x := by
    intro x hx
    apply reserve_mem_of_not_inSpan
    exact fun hin => hx (hin.mono hb.request)
  by_cases hflags : MultibootInfo.flags s.mem mbi &&& MBI_MEMMAP = 0
  · unfold hideRuntimeMemory at h
    rw [if_pos hflags] at h
    cases h
    exact ⟨⟨_, .kept (.inl hflags) rfl fun x _ => rfl⟩, (if_pos hflags).symm⟩
  rw [launchBlock_eq hflags]
  by_cases hn : NoBlock s mbi
  · have hnull := allocateMemory_null.mpr hn
    unfold hideRuntimeMemory at h
    unfold hideRequest at hnull hblock ⊢
    rw [if_neg hflags] at h
    dsimp only at h
    generalize allocateMemory s _ = o at hnull hblock h ⊢
    obtain ⟨s₂, newmmap⟩ := o
    dsimp only at hnull hblock h
    rw [if_pos hnull] at h
    cases h
    exact ⟨⟨_, .kept (.inr (.inl hn)) rfl hblock⟩, rfl⟩
  · rw [hideRuntimeMemory_eq hflags fun h0 => hn (allocateMemory_null.mp h0),
      allocateMemory_heapCurrent hn] at h
    have hloop := hideLoop_given hb hblock fuel
    generalize hideLoop _ _ _ _ _ _ = o at hloop h
    cases o with
    | spent t => cases h
    | quit t =>
      obtain ⟨hk, hframe⟩ := hloop
      cases h
      exact ⟨⟨_, .kept (.inr (.inr hk)) rfl hframe⟩, rfl⟩
    | next t =>
      obtain ⟨k, l, hcomes, hout, hl, hholds, hp⟩ := hloop
      have hlen : l.length = hideSlotsBefore hideMemAddr hideMemSize s.mem
        (MultibootInfo.mmapAddr s.mem mbi) k := length_eq_hideSlotsBefore hl
      have hcuts : HideCuts s mbi hideMemAddr hideMemSize k := ⟨hflags, hn, hcomes, hout⟩
      have hgiven := hcuts.given hb hl hp.frame hholds
      rw [hlen, Nat.mul_comm, BitVec.ofNat_mul, ← hp.idx] at hgiven
      cases h
      exact ⟨⟨l, hgiven⟩, rfl⟩

end outcome

end IkgtLoader
