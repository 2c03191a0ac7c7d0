import IkgtLoader.PreOs.BootMap
import IkgtLoader.PreOs.E820Table

/-! The table of the monitor and the map of the guest come from the same records. The one reader
asks for the bits 0 and 1 of the flags and goes along the sizes of the records, the other asks for
bit 6 and finds a record every 24 bytes. -/
namespace IkgtLoader
open Flat Loop

/-- As many entries of the monitor's table as its count of bytes says. -/
def monitorMap (mem : Memory 32) (e820 : BitVec 32) : List E820Entry :=
  e820Entries mem e820 ((mem.field 32 e820 0).toNat / e820EntryExtSize)

/-- The guest's map, unless it counts more entries than its array has. -/
def guestMap (mem : Memory 32) (bootParams : BitVec 32) : Option (List BootEntry) :=
  let count := (mem.field 8 bootParams BootParams.e820Entries).toNat
  if count ≤ BootParams.E820MAX then
    some ((List.range count).map fun i => readBootEntry mem (bootEntry bootParams i))
  else none

/-- An entry of the monitor's table with the type that the guest is to see. -/
def E820Entry.toBootEntry (e : E820Entry) : BootEntry :=
  ⟨e.baseAddress, e.length,
    if e.addressRangeType = E820_BAD_MEM then E820_RESERVED_MEM else e.addressRangeType⟩

/-- The records that a map of 4096 bytes has at most. -/
def mostRecords : ℕ := 170

/-- A map of `n` records of any sizes, and room for what both readers write: a page from the heap,
and the boot parameters with the entries behind them. -/
structure TwoReaders (s : Machine) (mbi bootParams hdr : BitVec 32) (n : ℕ) : Prop where
  short : (MultibootInfo.mmapLength s.mem mbi).toNat ≤ 4096
  tiled : TiledBy s.mem (MultibootInfo.mmapAddr s.mem mbi)
    (MultibootInfo.mmapLength s.mem mbi).toNat n
  served : (monPageAlloc s 1).2 ≠ NULL
  pageMap : Apart (monPageAlloc s 1).2 PAGE_SIZE.toNat (MultibootInfo.mmapAddr s.mem mbi)
    (MultibootInfo.mmapLength s.mem mbi).toNat
  pageInfo : Apart (monPageAlloc s 1).2 PAGE_SIZE.toNat mbi MultibootInfo.span
  paramsMap : Apart bootParams (BootParams.span mostRecords) (MultibootInfo.mmapAddr s.mem mbi)
    (MultibootInfo.mmapLength s.mem mbi).toNat
  paramsInfo : Apart bootParams (BootParams.span mostRecords) mbi MultibootInfo.span
  paramsHeader : Apart bootParams (BootParams.span mostRecords) hdr SetupHeader.kernelHeaderSize

/-- Both readers succeed or none does, and what they list is the same. -/
structure ViewsAgree (s : Machine) (mbi bootParams hdr : BitVec 32) (fuel : ℕ) : Prop where
  success : (∃ s' e820, getE820TableFromMultiboot s mbi fuel = some (s', some e820)) ↔
    (setupBootParams s.mem mbi bootParams hdr).2 = true
  same : ∀ s' e820, getE820TableFromMultiboot s mbi fuel = some (s', some e820) →
    guestMap (setupBootParams s.mem mbi bootParams hdr).1 bootParams =
      some ((monitorMap s'.mem e820).map E820Entry.toBootEntry)

/-- The map ends below 4 GiB, it has a record for every 24 bytes and no more than the guest's array
has room for, and at each of these places stands what the record there along the sizes says. -/
structure RecordsCoincide (mem : Memory 32) (mbi : BitVec 32) (n : ℕ) : Prop where
  fits : (MultibootInfo.mmapAddr mem mbi).toNat + (MultibootInfo.mmapLength mem mbi).toNat < 2 ^ 32
  count : (MultibootInfo.mmapLength mem mbi).toNat / memoryMapSize = n
  room : n ≤ BootParams.E820MAX
  same : ∀ k < n, (readMap mem (mapEntry (MultibootInfo.mmapAddr mem mbi) k)).toBootEntry =
    (readMap mem (recordAt mem (MultibootInfo.mmapAddr mem mbi) k)).toBootEntry

section counts
variable {m : Memory 32} {mbi bootParams hdr : BitVec 32} {n : ℕ}

/-- The header is copied beside the information. -/
theorem copyHeader_info (m : Memory 32) (hdr : BitVec 32)
    (hinfo : Apart bootParams (BootParams.span n) mbi MultibootInfo.span)
    (hn : BootParams.span n ≤ 2 ^ 32) :
    Memory.Same (m.copy (bootParams + BitVec.ofNat 32 SetupHeader.setupSects)
      (hdr + BitVec.ofNat 32 SetupHeader.setupSects) SetupHeader.size) mbi m mbi
      MultibootInfo.span := by
  apply Memory.Same.of_unchanged _ (by decide)
  intro x hx
  apply Memory.copy_of_not_inSpan
  intro hin
  exact hinfo.symm x hx (hin.of_offset (le_trans (by decide) (le_max_left _ _)) hn)

/-- Without its flag `setup_boot_params` fails. -/
theorem setupBootParams_failed (hinfo : Apart bootParams (BootParams.span n) mbi MultibootInfo.span)
    (hn : BootParams.span n ≤ 2 ^ 32) (hflags : MultibootInfo.flags m mbi &&& MBI_MEMMAP = 0) :
    (setupBootParams m mbi bootParams hdr).2 = false := by
  have hsame : MultibootInfo.flags _ mbi = MultibootInfo.flags m mbi :=
    Memory.field_congr (copyHeader_info m hdr hinfo hn) (by decide)
  unfold setupBootParams
  dsimp only
  rw [if_pos (by rw [hsame, hflags])]

/-- The loop counts a record every 24 bytes, however many entries there is room for. -/
theorem setupBootParams_count (hinfo : Apart bootParams (BootParams.span n) mbi MultibootInfo.span)
    (hn : BootParams.span n ≤ 2 ^ 32) (hflags : MultibootInfo.flags m mbi &&& MBI_MEMMAP ≠ 0)
    (hlength : (MultibootInfo.mmapLength m mbi).toNat / memoryMapSize = n) :
    ∃ m', setupBootParams m mbi bootParams hdr = (m', true) ∧
      m'.field 8 bootParams BootParams.e820Entries = BitVec.ofNat 8 n := by
  have hcopy := copyHeader_info m hdr hinfo hn
  unfold setupBootParams
  dsimp only
  obtain ⟨m₁, hm₁⟩ : ∃ m₁, m.copy (bootParams + BitVec.ofNat 32 SetupHeader.setupSects)
    (hdr + BitVec.ofNat 32 SetupHeader.setupSects) SetupHeader.size = m₁ := ⟨_, rfl⟩
  rw [hm₁] at hcopy ⊢
  have hflags₁ : MultibootInfo.flags m₁ mbi = MultibootInfo.flags m mbi :=
    Memory.field_congr hcopy (by decide)
  rw [if_neg (by rwa [hflags₁])]
  let I : ℕ → Memory 32 × ℕ → Prop := fun i s =>
    i ≤ n ∧ s.2 = i ∧ Memory.Same s.1 mbi m mbi MultibootInfo.span
  have hcond : ∀ i s, I i s →
      (i < (MultibootInfo.mmapLength s.1 mbi).toNat / memoryMapSize ↔ i < n) := by
    rintro i s ⟨_, _, hs⟩
    have hlen : MultibootInfo.mmapLength s.1 mbi = MultibootInfo.mmapLength m mbi :=
      Memory.field_congr hs (by decide)
    rw [hlen, hlength]
  have hbody : ∀ i s, i < n → I i s → ∃ t,
      bootMapStep bootParams (MultibootInfo.mmapAddr m₁ mbi) i s = .next t ∧ I (i + 1) t := by
    rintro i s hi ⟨_, _, hs⟩
    obtain ⟨m', hm, hframe⟩ := bootMapStep_frame hi hn (MultibootInfo.mmapAddr m₁ mbi) s
    refine ⟨_, hm, hi, rfl, ?_⟩
    have hkept : Memory.Same m' mbi s.1 mbi MultibootInfo.span := by
      apply Memory.Same.of_unchanged _ (by decide)
      exact fun x hx => hframe x (hinfo.symm x hx)
    exact hkept.trans hs
  have hfuel : n ≤ 0 + mapFuel := by
    have hlt := (MultibootInfo.mmapLength m mbi).isLt
    unfold memoryMapSize at hlength
    unfold mapFuel
    omega
  obtain ⟨t, hrun, _, hcount, _⟩ := run_count I hcond hbody (Nat.zero_le n) hfuel
    (show I 0 (m₁, 0) from ⟨Nat.zero_le n, rfl, hcopy⟩)
  rw [hrun]
  refine ⟨_, rfl, ?_⟩
  dsimp only [Outcome.state]
  rw [Memory.field_of_unchanged (fun x hx => setupScreen_behind _ (by decide) (by decide) hx)
    (by decide), hcount]
  exact Memory.field_setField _ _ _ _ (by decide) (by decide)

end counts

theorem map_range_inj {α : Type*} {f g : ℕ → α} {a b : ℕ} :
    (List.range a).map f = (List.range b).map g ↔ a = b ∧ ∀ k < b, f k = g k := by
  constructor
  · intro h
    have hlen := congrArg List.length h
    rw [List.length_map, List.length_map, List.length_range, List.length_range] at hlen
    subst hlen
    exact ⟨rfl, fun k hk => List.map_inj_left.mp h k (List.mem_range.mpr hk)⟩
  · rintro ⟨rfl, h⟩
    exact List.map_congr_left fun k hk => h k (List.mem_range.mp hk)

/-- Records of size 20 lie every 24 bytes. -/
theorem mapEntry_eq_recordAt {mem : Memory 32} {start : BitVec 32} {n k : ℕ}
    (hsize : ∀ j < n, (readMap mem (recordAt mem start j)).size = 20) (hk : k ≤ n) :
    mapEntry start k = recordAt mem start k := by
  have hextent : extent (recordsFrom mem start k) = k * memoryMapSize := by
    induction k with
    | zero => rw [Nat.zero_mul]; rfl
    | succ k ih =>
      rw [extent_succ, ih (by omega), hsize k hk, Nat.succ_mul]
      rfl
  rw [recordAt_eq, hextent]
  rfl

theorem RecordsCoincide.of_sizes {mem : Memory 32} {mbi : BitVec 32} {n : ℕ}
    (hfits : (MultibootInfo.mmapAddr mem mbi).toNat + (MultibootInfo.mmapLength mem mbi).toNat < 2 ^ 32)
    (hcount : (MultibootInfo.mmapLength mem mbi).toNat / memoryMapSize = n)
    (hroom : n ≤ BootParams.E820MAX)
    (hsize : ∀ k < n, (readMap mem (recordAt mem (MultibootInfo.mmapAddr mem mbi) k)).size = 20) :
    RecordsCoincide mem mbi n := by
  refine ⟨hfits, hcount, hroom, fun k hk => ?_⟩
  rw [mapEntry_eq_recordAt hsize (Nat.le_of_lt hk)]

section readers
variable {s : Machine} {mbi bootParams hdr : BitVec 32} {n fuel : ℕ}

namespace TwoReaders

theorem spanned (h : TwoReaders s mbi bootParams hdr n) :
    (MultibootInfo.mmapLength s.mem mbi).toNat / memoryMapSize ≤ mostRecords ∧
      n ≤ (MultibootInfo.mmapLength s.mem mbi).toNat / memoryMapSize := by
  have hshort := h.short
  constructor
  · unfold memoryMapSize mostRecords
    omega
  · exact (Nat.le_div_iff_mul_le (by decide)).mpr h.tiled.mul_le

theorem infoSpan (h : TwoReaders s mbi bootParams hdr n) : Apart bootParams (BootParams.span
    ((MultibootInfo.mmapLength s.mem mbi).toNat / memoryMapSize)) mbi MultibootInfo.span := by
  apply h.paramsInfo.mono _ le_rfl
  have hle := h.spanned.1
  unfold BootParams.span BootParams.e820EntrySize
  omega

theorem span_le (h : TwoReaders s mbi bootParams hdr n) : BootParams.span
    ((MultibootInfo.mmapLength s.mem mbi).toNat / memoryMapSize) ≤ 2 ^ 32 := by
  have hle := h.spanned.1
  apply BootParams.span_le
  unfold mostRecords at hle
  unfold memoryMapSize at *
  omega

theorem bootInput (h : TwoReaders s mbi bootParams hdr n)
    (hflags : MultibootInfo.flags s.mem mbi &&& MBI_MEMMAP ≠ 0) :
    BootInput s.mem mbi bootParams hdr :=
  ⟨hflags, h.paramsInfo.mono (le_max_left _ _) le_rfl, h.paramsMap.mono (le_max_left _ _) le_rfl,
    h.paramsHeader.mono (le_max_left _ _) le_rfl⟩

/-- The guest's reader succeeds exactly with the flag of the map. -/
theorem guest_success (h : TwoReaders s mbi bootParams hdr n) :
    (setupBootParams s.mem mbi bootParams hdr).2 = true ↔
      MultibootInfo.flags s.mem mbi &&& MBI_MEMMAP ≠ 0 := by
  by_cases hflags : MultibootInfo.flags s.mem mbi &&& MBI_MEMMAP = 0
  · rw [setupBootParams_failed h.infoSpan h.span_le hflags]
    exact iff_of_false Bool.false_ne_true (not_not.mpr hflags)
  · obtain ⟨m', hm, _⟩ := setupBootParams_count h.infoSpan h.span_le hflags rfl
    rw [hm]
    exact iff_of_true rfl hflags

/-- What the guest is handed: a record every 24 bytes, if there are not too many. -/
theorem guestMap_eq (h : TwoReaders s mbi bootParams hdr n)
    (hflags : MultibootInfo.flags s.mem mbi &&& MBI_MEMMAP ≠ 0) :
    guestMap (setupBootParams s.mem mbi bootParams hdr).1 bootParams =
      if (MultibootInfo.mmapLength s.mem mbi).toNat / memoryMapSize ≤ BootParams.E820MAX then
        some ((recordsOf s.mem mbi).map MemoryMap.toBootEntry)
      else none := by
  obtain ⟨m', hm, hcount⟩ := setupBootParams_count h.infoSpan h.span_le hflags rfl
  have hle := h.spanned.1
  have hnat := toNat_ofNat_of_lt (w := 8) (Nat.lt_of_le_of_lt hle (by decide))
  unfold guestMap
  rw [hm, hcount, hnat]
  dsimp only
  split
  next hroom =>
    rw [← length_recordsOf] at hroom
    obtain ⟨m'', hm', hs⟩ := setupBootParams_stored (h.bootInput hflags) (hroom.trans (by decide))
    rw [hm] at hm'
    cases hm'
    unfold recordsOf
    rw [List.map_map, Option.some.injEq, ← length_recordsOf]
    exact List.map_congr_left fun k hk => hs.entries k (List.mem_range.mp hk)
  next => rfl

/-- The monitor's reader fails without one of its flags. -/
theorem monitor_failed (hflags : MultibootInfo.flags s.mem mbi &&& 3 = 0) :
    getE820TableFromMultiboot s mbi fuel = some (s, none) := by
  unfold getE820TableFromMultiboot
  rw [if_pos (.inl hflags)]

/-- With one of them it lists the records along their sizes, and none of a map that reaches the
end of the address space. -/
theorem monitor_lists (h : TwoReaders s mbi bootParams hdr n) (hfuel : n ≤ fuel)
    (hflags : MultibootInfo.flags s.mem mbi &&& 3 ≠ 0) :
    ∃ s' e820, getE820TableFromMultiboot s mbi fuel = some (s', some e820) ∧
      monitorMap s'.mem e820 = if (MultibootInfo.mmapAddr s.mem mbi).toNat +
          (MultibootInfo.mmapLength s.mem mbi).toNat < 2 ^ 32 then
        (recordsFrom s.mem (MultibootInfo.mmapAddr s.mem mbi) n).map MemoryMap.toE820 else [] := by
  split
  next hfits =>
    obtain ⟨s', hrun, hc⟩ := ConvertInput.converted
      ⟨hflags, h.short, h.tiled, hfits, h.served, h.pageMap, h.pageInfo⟩ hfuel
    refine ⟨s', _, hrun, ?_⟩
    unfold monitorMap
    rw [hc.size, Nat.mul_div_cancel _ (by decide)]
    exact hc.entries
  next hfits =>
    have hstop : ¬ MultibootInfo.mmapAddr s.mem mbi <
        MultibootInfo.mmapAddr s.mem mbi + MultibootInfo.mmapLength s.mem mbi := by
      have hshort := h.short
      have hlt := (MultibootInfo.mmapAddr s.mem mbi).isLt
      rw [BitVec.lt_def, BitVec.toNat_add]
      omega
    have hrun : convertLoop (monPageAlloc s 1).2 (MultibootInfo.mmapAddr s.mem mbi)
        (MultibootInfo.mmapAddr s.mem mbi + MultibootInfo.mmapLength s.mem mbi)
        (monPageAlloc s 1).1.mem fuel =
          .next ⟨(monPageAlloc s 1).1.mem, MultibootInfo.mmapAddr s.mem mbi, 0⟩ := by
      unfold convertLoop
      cases fuel with
      | zero => exact if_neg hstop
      | succ fuel => exact if_neg hstop
    refine ⟨_, _, getE820TableFromMultiboot_served hflags h.short h.served h.pageInfo hrun, ?_⟩
    unfold monitorMap
    dsimp only
    rw [Memory.field_setField _ _ _ _ (by decide) (by decide)]
    rfl

/-- Where both succeed, their lists are the same exactly for records that coincide. -/
theorem same_iff (h : TwoReaders s mbi bootParams hdr n) (hfuel : n ≤ fuel)
    (hmonitor : MultibootInfo.flags s.mem mbi &&& 3 ≠ 0)
    (hguest : MultibootInfo.flags s.mem mbi &&& MBI_MEMMAP ≠ 0) :
    (∀ s' e820, getE820TableFromMultiboot s mbi fuel = some (s', some e820) →
      guestMap (setupBootParams s.mem mbi bootParams hdr).1 bootParams =
        some ((monitorMap s'.mem e820).map E820Entry.toBootEntry)) ↔
      RecordsCoincide s.mem mbi n := by
  obtain ⟨s', e820, hrun, hlist⟩ := h.monitor_lists hfuel hmonitor
  have hone : (∀ s' e820, getE820TableFromMultiboot s mbi fuel = some (s', some e820) →
      guestMap (setupBootParams s.mem mbi bootParams hdr).1 bootParams =
        some ((monitorMap s'.mem e820).map E820Entry.toBootEntry)) ↔
      guestMap (setupBootParams s.mem mbi bootParams hdr).1 bootParams =
        some ((monitorMap s'.mem e820).map E820Entry.toBootEntry) := by
    constructor
    · exact fun hall => hall s' e820 hrun
    · intro hsame t p ht
      rw [hrun] at ht
      cases ht
      exact hsame
  rw [hone, h.guestMap_eq hguest, hlist]
  by_cases hroom : (MultibootInfo.mmapLength s.mem mbi).toNat / memoryMapSize ≤ BootParams.E820MAX
  · rw [if_pos hroom, Option.some.injEq]
    by_cases hfits : (MultibootInfo.mmapAddr s.mem mbi).toNat +
        (MultibootInfo.mmapLength s.mem mbi).toNat < 2 ^ 32
    · rw [if_pos hfits]
      unfold recordsOf recordsFrom
      rw [List.map_map, List.map_map, List.map_map, map_range_inj]
      constructor
      · rintro ⟨hcount, hsame⟩
        exact ⟨hfits, hcount, hcount ▸ hroom, hsame⟩
      · exact fun hc => ⟨hc.count, hc.same⟩
    · -- the guest lists what lies at the end of the address space, and the monitor nothing
      rw [if_neg hfits]
      apply iff_of_false _ fun hc => hfits hc.fits
      intro hnil
      have hzero := congrArg List.length hnil
      rw [List.length_map, length_recordsOf] at hzero
      have hle := h.spanned.2
      have hlength := h.tiled.length
      have hn : n = 0 := by
        rw [hzero] at hle
        exact Nat.le_zero.mp hle
      subst hn
      have hlt := (MultibootInfo.mmapAddr s.mem mbi).isLt
      apply hfits
      rw [← hlength]
      exact hlt
  · rw [if_neg hroom]
    apply iff_of_false (Option.some_ne_none _).symm
    intro hc
    exact hroom (hc.count ▸ hc.room)

end TwoReaders

/-- The two views agree exactly if the readers' flags are set together, and then the records
coincide. -/
theorem viewsAgree_iff (h : TwoReaders s mbi bootParams hdr n) (hfuel : n ≤ fuel) :
    ViewsAgree s mbi bootParams hdr fuel ↔
      (MultibootInfo.flags s.mem mbi &&& 3 ≠ 0 ↔ MultibootInfo.flags s.mem mbi &&& MBI_MEMMAP ≠ 0) ∧
      (MultibootInfo.flags s.mem mbi &&& MBI_MEMMAP ≠ 0 → RecordsCoincide s.mem mbi n) := by
  have hmonitor : (∃ s' e820, getE820TableFromMultiboot s mbi fuel = some (s', some e820)) ↔
      MultibootInfo.flags s.mem mbi &&& 3 ≠ 0 := by
    constructor
    · rintro ⟨s', e820, hrun⟩ hflags
      rw [TwoReaders.monitor_failed hflags] at hrun
      cases hrun
    · intro hflags
      obtain ⟨s', e820, hrun, _⟩ := h.monitor_lists hfuel hflags
      exact ⟨s', e820, hrun⟩
  constructor
  · rintro ⟨hsuccess, hsame⟩
    rw [hmonitor, h.guest_success] at hsuccess
    exact ⟨hsuccess, fun hguest => (h.same_iff hfuel (hsuccess.mpr hguest) hguest).mp hsame⟩
  · rintro ⟨hflags, hcoincide⟩
    constructor
    · rw [hmonitor, h.guest_success, hflags]
    · intro s' e820 hrun
      have hbit := hmonitor.mp ⟨s', e820, hrun⟩
      have hguest := hflags.mp hbit
      exact (h.same_iff hfuel hbit hguest).mpr (hcoincide hguest) s' e820 hrun

end readers

/-- The information at 0x100 and a map of two records of size 20 at 0x200, the second one of bad
memory. -/
def evenMem : Memory 32 :=
  let mem : Memory 32 := fun _ => 0
  let mem := mem.setField 0x100 0 (0x41 : BitVec 32)
  let mem := mem.setField 0x100 44 (48 : BitVec 32)
  let mem := mem.setField 0x100 48 (0x200 : BitVec 32)
  let mem := mem.setField 0x200 0 (20 : BitVec 32)
  let mem := mem.setField 0x200 4 (0x1000 : BitVec 64)
  let mem := mem.setField 0x200 12 (0x3000 : BitVec 64)
  let mem := mem.setField 0x200 20 MULTIBOOT_MEMORY_AVAILABLE
  let mem := mem.setField 0x218 0 (20 : BitVec 32)
  let mem := mem.setField 0x218 4 (0x8000 : BitVec 64)
  let mem := mem.setField 0x218 12 (0x1000 : BitVec 64)
  mem.setField 0x218 20 E820_BAD_MEM

/-- A heap of two pages at 0x8000. -/
def evenMachine : Machine := initializeMemoryManager evenMem 0x8000 0x2000

theorem even_info : MultibootInfo.flags evenMachine.mem 0x100 = 0x41 ∧
    MultibootInfo.mmapAddr evenMachine.mem 0x100 = 0x200 ∧
    MultibootInfo.mmapLength evenMachine.mem 0x100 = 48 ∧ recordsFrom evenMachine.mem 0x200 2 =
      [⟨20, 0x1000, 0x3000, MULTIBOOT_MEMORY_AVAILABLE⟩, ⟨20, 0x8000, 0x1000, E820_BAD_MEM⟩] := by
  decide +kernel

/-- Two readers at 0x8000 and at 0x4000, for a map of up to 3584 bytes at 0x200. -/
theorem twoReaders_low {s : Machine} {length n : ℕ}
    (haddr : MultibootInfo.mmapAddr s.mem 0x100 = 0x200)
    (hlength : (MultibootInfo.mmapLength s.mem 0x100).toNat = length) (hle : length ≤ 3584)
    (htiled : TiledBy s.mem 0x200 length n) (hpage : (monPageAlloc s 1).2 = 0x8000) :
    TwoReaders s 0x100 0x4000 0x6000 n := by
  have hmap : ∀ a : BitVec 32, 0x1000 ≤ a.toNat → ∀ k, a.toNat + k ≤ 2 ^ 32 →
      Apart a k 0x200 length := by
    intro a ha k hk
    apply (apart_of_le _ hk).symm
    change 512 + length ≤ a.toNat
    omega
  constructor
  · omega
  · rwa [haddr, hlength]
  · rw [hpage]
    decide
  · rw [hpage, haddr, hlength]
    exact hmap _ (by decide) _ (by decide)
  · rw [hpage]
    exact (apart_of_le (by decide) (by decide)).symm
  · rw [haddr, hlength]
    exact hmap _ (by decide) _ (by decide)
  · exact (apart_of_le (by decide) (by decide)).symm
  · exact apart_of_le (by decide) (by decide)

theorem twoReaders_even : TwoReaders evenMachine 0x100 0x4000 0x6000 2 := by
  obtain ⟨-, haddr, hlength, hrecords⟩ := even_info
  refine twoReaders_low haddr (congrArg BitVec.toNat hlength) (by decide) ⟨?_, ?_⟩ rfl
  · rw [hrecords]
    decide
  · rw [hrecords]
    rfl

theorem viewsAgree_even : ViewsAgree evenMachine 0x100 0x4000 0x6000 2 := by
  obtain ⟨hflags, haddr, hlength, hrecords⟩ := even_info
  apply (viewsAgree_iff twoReaders_even (le_refl 2)).mpr
  rw [hflags]
  refine ⟨by decide, fun _ => RecordsCoincide.of_sizes ?_ ?_ (by decide) ?_⟩
  · rw [haddr, hlength]
    decide
  · rw [hlength]
    rfl
  · rw [haddr]
    have hall : ∀ r ∈ recordsFrom evenMachine.mem 0x200 2, r.size = 20 := by
      rw [hrecords]
      decide
    exact fun k hk => hall _ (readMap_mem_recordsFrom hk)

/-- The second record behind one of size 24 is found by its size only. -/
theorem viewsAgree_varied :
    TwoReaders variedMachine 0x100 0x4000 0x6000 2 ∧
      MultibootInfo.flags variedMachine.mem 0x100 = 0x41 ∧
      ¬ ViewsAgree variedMachine 0x100 0x4000 0x6000 2 := by
  have hflags : MultibootInfo.flags variedMachine.mem 0x100 = 0x41 := by decide +kernel
  obtain ⟨haddr, hlength⟩ := varied_info
  have h : TwoReaders variedMachine 0x100 0x4000 0x6000 2 :=
    twoReaders_low haddr (congrArg BitVec.toNat hlength) (by decide) tiledBy_varied
      rfl
  refine ⟨h, hflags, fun hagree => ?_⟩
  have hcoincide := (h.same_iff (le_refl 2) (by rw [hflags]; decide)
    (by rw [hflags]; decide)).mp hagree.same
  have hsecond := hcoincide.same 1 (by decide)
  rw [haddr] at hsecond
  revert hsecond
  decide +kernel

end IkgtLoader
