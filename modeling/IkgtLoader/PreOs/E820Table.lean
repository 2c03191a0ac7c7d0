import IkgtLoader.PreOs.MapWalk

/-! `get_e820_table_from_multiboot`: the memory map of the boot loader becomes a table for the
monitor, in one page from the heap. -/
namespace IkgtLoader
open Flat Loop

/-- `int15_e820_memory_map_entry_ext_t`. -/
structure E820Entry where
  baseAddress : BitVec 64
  length : BitVec 64
  addressRangeType : BitVec 32
  extendedAttributes : BitVec 32
  deriving DecidableEq

/-- `sizeof(int15_e820_memory_map_entry_ext_t)`. -/
def e820EntryExtSize : ℕ := 24

def readE820Entry (mem : Memory 32) (p : BitVec 32) : E820Entry where
  baseAddress := mem.field 64 p 0
  length := mem.field 64 p 8
  addressRangeType := mem.field 32 p 16
  extendedAttributes := mem.field 32 p 20

/-- `&e820->memory_map_entry[i]`, behind the count of bytes. -/
def memoryMapEntry (e820 : BitVec 32) (i : ℕ) : BitVec 32 :=
  e820 + BitVec.ofNat 32 (4 + i * e820EntryExtSize)

/-- The locals of the loop, with the memory. -/
structure Conversion where
  mem : Memory 32
  next : BitVec 32
  i : ℕ

/-- One record: four stores, each from the record as it is at that moment. -/
def convertStep (e820 : BitVec 32) (_ : ℕ) (c : Conversion) : Outcome Conversion :=
  let entry := memoryMapEntry e820 c.i
  let mem := c.mem.setField entry 0 (readMap c.mem c.next).addr
  let mem := mem.setField entry 8 (readMap mem c.next).len
  let mem := mem.setField entry 16 (readMap mem c.next).type
  let mem := mem.setField entry 20 (1 : BitVec 32)
  .next ⟨mem, nextRecord mem c.next, c.i + 1⟩

/-- `for (next = start; next < end; ...)`. -/
def convertLoop (e820 start stop : BitVec 32) (mem : Memory 32) (fuel : ℕ) : Outcome Conversion :=
  Loop.run (fun _ c => c.next < stop) (convertStep e820) fuel 0 ⟨mem, start, 0⟩

/-- `*e820_addr`, or nothing for -1; no result at all means that the fuel is spent. `inf` is what
the guest's RBX points to. -/
def getE820TableFromMultiboot (s : Machine) (inf : BitVec 32) (fuel : ℕ) :
    Option (Machine × Option (BitVec 32)) :=
  if MultibootInfo.flags s.mem inf &&& 3 = 0 ∨ 4096 < MultibootInfo.mmapLength s.mem inf then
    some (s, none)
  else
    match monPageAlloc s 1 with
    | (s, e820) =>
      if e820 = NULL then some (s, none)
      else
        match convertLoop e820 (MultibootInfo.mmapAddr s.mem inf)
            (MultibootInfo.mmapAddr s.mem inf + MultibootInfo.mmapLength s.mem inf) s.mem fuel with
        | .next c =>
          let size := BitVec.ofNat 32 c.i * BitVec.ofNat 32 e820EntryExtSize
          some ({ s with mem := c.mem.setField e820 0 size }, some e820)
        | .quit c => some ({ s with mem := c.mem }, none)
        | .spent _ => none

/-- The entry that a round stores lies in the page. -/
def EntryInPage (e820 : BitVec 32) (_ : ℕ) (c : Conversion) : Prop :=
  ∀ x, InSpan (memoryMapEntry e820 c.i) e820EntryExtSize x → InSpan e820 PAGE_SIZE.toNat x

/-- Every round of the loop stores in the page. -/
def ConvertsInPage (e820 start stop : BitVec 32) (mem : Memory 32) (fuel : ℕ) : Prop :=
  Admits (fun _ c => c.next < stop) (convertStep e820) (EntryInPage e820) fuel 0 ⟨mem, start, 0⟩

section entries
variable {e820 : BitVec 32} {i : ℕ} {c : Conversion} {m : Memory 32}

theorem memoryMapEntry_in (hi : i < 170) {x : BitVec 32}
    (hx : InSpan (memoryMapEntry e820 i) e820EntryExtSize x) : InSpan e820 PAGE_SIZE.toNat x := by
  apply hx.of_offset
  · change 4 + i * 24 + 24 ≤ 4096
    omega
  · decide

/-- The page has room for 170 entries, and the next ones begin or end behind it. -/
theorem memoryMapEntry_in_iff (hfit : i < 2 ^ 27) :
    (∀ x, InSpan (memoryMapEntry e820 i) e820EntryExtSize x → InSpan e820 PAGE_SIZE.toNat x) ↔
      i < 170 := by
  constructor
  · intro h
    have hlast := h (memoryMapEntry e820 i + BitVec.ofNat 32 23) (by
      rw [inSpan_add_ofNat (by decide)]
      decide)
    unfold memoryMapEntry e820EntryExtSize at hlast
    rw [add_ofNat_ofNat, inSpan_add_ofNat (by omega)] at hlast
    change 4 + i * 24 + 23 < 4096 at hlast
    omega
  · exact fun hi x hx => memoryMapEntry_in hi hx

theorem entryInPage_iff (hfit : c.i < 2 ^ 26) (j : ℕ) : EntryInPage e820 j c ↔ c.i < 170 :=
  memoryMapEntry_in_iff (by omega)

theorem memoryMapEntry_apart {j : ℕ} (hne : i ≠ j) (hi : i < 170) (hj : j < 170) :
    Apart (memoryMapEntry e820 i) e820EntryExtSize (memoryMapEntry e820 j) e820EntryExtSize := by
  unfold memoryMapEntry e820EntryExtSize
  apply apart_offset
  · omega
  · omega
  · omega

/-- What a round stores: one entry, of the record if this does not lie in the way. -/
theorem convertStep_spec (e820 : BitVec 32) (k : ℕ) (c : Conversion) :
    ∃ m, convertStep e820 k c = .next ⟨m, nextRecord m c.next, c.i + 1⟩ ∧
      (∀ x, ¬ InSpan (memoryMapEntry e820 c.i) e820EntryExtSize x → m x = c.mem x) ∧
      (Apart (memoryMapEntry e820 c.i) e820EntryExtSize c.next memoryMapSize →
        readE820Entry m (memoryMapEntry e820 c.i) =
          ⟨(readMap c.mem c.next).addr, (readMap c.mem c.next).len, (readMap c.mem c.next).type, 1⟩) := by
  have hs : e820EntryExtSize ≤ 2 ^ 32 := by decide
  have h0 : Memory.Same c.mem c.next c.mem c.next memoryMapSize := fun _ _ => rfl
  unfold convertStep
  dsimp only
  generalize memoryMapEntry e820 c.i = entry
  refine ⟨_, rfl, fun x hx => ?_, fun hap => ?_⟩
  · rw [Memory.setField_of_outside _ _ hx (by decide) hs,
      Memory.setField_of_outside _ _ hx (by decide) hs,
      Memory.setField_of_outside _ _ hx (by decide) hs,
      Memory.setField_of_outside _ _ hx (by decide) hs]
  · have h1 := h0.setField hap (o := 0) (by decide) hs (by decide) (readMap c.mem c.next).addr
    have h2 := h1.setField hap (o := 8) (by decide) hs (by decide) (readMap c.mem c.next).len
    rw [readMap_congr h1, readMap_congr h2]
    unfold readE820Entry
    rw [E820Entry.mk.injEq]
    refine ⟨?_, ?_, ?_, ?_⟩
    · rw [Memory.field_setField_of_ne _ _ (by decide) (by decide) (by decide),
        Memory.field_setField_of_ne _ _ (by decide) (by decide) (by decide),
        Memory.field_setField_of_ne _ _ (by decide) (by decide) (by decide)]
      exact Memory.field_setField _ _ _ _ (by decide) (by decide)
    · rw [Memory.field_setField_of_ne _ _ (by decide) (by decide) (by decide),
        Memory.field_setField_of_ne _ _ (by decide) (by decide) (by decide)]
      exact Memory.field_setField _ _ _ _ (by decide) (by decide)
    · rw [Memory.field_setField_of_ne _ _ (by decide) (by decide) (by decide)]
      exact Memory.field_setField _ _ _ _ (by decide) (by decide)
    · exact Memory.field_setField _ _ _ _ (by decide) (by decide)

theorem readE820Entry_congr {m' : Memory 32} {p : BitVec 32}
    (h : Memory.Same m' p m p e820EntryExtSize) : readE820Entry m' p = readE820Entry m p := by
  unfold readE820Entry
  rw [Memory.field_congr h (by decide), Memory.field_congr h (by decide),
    Memory.field_congr h (by decide), Memory.field_congr h (by decide)]

/-- The count lies in front of the entries. -/
theorem readE820Entry_setCount (hi : i < 170) (v : BitVec 32) :
    readE820Entry (m.setField e820 0 v) (memoryMapEntry e820 i) =
      readE820Entry m (memoryMapEntry e820 i) := by
  apply readE820Entry_congr
  apply Memory.Same.of_unchanged _ (by decide)
  intro x hx
  apply Memory.setField_of_not_inSpan
  have hbeside : Apart (e820 + BitVec.ofNat 32 0) 4 (memoryMapEntry e820 i) e820EntryExtSize := by
    unfold memoryMapEntry e820EntryExtSize
    apply apart_offset
    · omega
    · decide
    · omega
  exact hbeside.symm x hx

end entries

/-- The state before the record `i`: only the page has changed. -/
structure Converting (e820 start : BitVec 32) (mem : Memory 32) (i : ℕ) (c : Conversion) : Prop where
  next : c.next = recordAt mem start i
  i : c.i = i
  frame : ∀ x, ¬ InSpan e820 PAGE_SIZE.toNat x → c.mem x = mem x

section loop
variable {e820 start stop : BitVec 32} {mem : Memory 32} {i n : ℕ} {c : Conversion}

theorem Converting.init (e820 start : BitVec 32) (mem : Memory 32) :
    Converting e820 start mem 0 ⟨mem, start, 0⟩ := ⟨rfl, rfl, fun _ _ => rfl⟩

/-- A round that has room in the page, at a record whose size is not in it. -/
theorem Converting.step (h : Converting e820 start mem i c) (hi : i < 170)
    (hap : Apart e820 PAGE_SIZE.toNat (recordAt mem start i) 4) (k : ℕ) :
    ∃ c', convertStep e820 k c = .next c' ∧ Converting e820 start mem (i + 1) c' := by
  obtain ⟨m, hm, hframe, _⟩ := convertStep_spec e820 k c
  obtain ⟨hnext, hidx, hold⟩ := h
  rw [hidx] at hm hframe
  rw [hnext] at hm
  have hnew : ∀ x, ¬ InSpan e820 PAGE_SIZE.toNat x → m x = mem x := by
    intro x hx
    rw [hframe x fun hin => hx (memoryMapEntry_in hi hin)]
    exact hold x hx
  refine ⟨_, hm, ?_, rfl, hnew⟩
  rw [recordAt_succ]
  apply nextRecord_congr
  apply Memory.Same.of_unchanged _ (by decide)
  exact fun x hx => hnew x (hap.symm x hx)

/-- The entries of the records before `i`. -/
def Holding (e820 start : BitVec 32) (mem : Memory 32) (i : ℕ) (m : Memory 32) : Prop :=
  ∀ k < i, readE820Entry m (memoryMapEntry e820 k) =
    ⟨(readMap mem (recordAt mem start k)).addr, (readMap mem (recordAt mem start k)).len,
      (readMap mem (recordAt mem start k)).type, 1⟩

/-- A round at a record beside the page adds its entry to those before it. -/
theorem Converting.hold (h : Converting e820 start mem i c) (hi : i < 170)
    (hap : Apart e820 PAGE_SIZE.toNat (recordAt mem start i) memoryMapSize)
    (hh : Holding e820 start mem i c.mem) {c' : Conversion} {k : ℕ}
    (hc : convertStep e820 k c = .next c') : Holding e820 start mem (i + 1) c'.mem := by
  obtain ⟨m, hm, hframe, hentry⟩ := convertStep_spec e820 k c
  obtain ⟨hnext, hidx, hold⟩ := h
  rw [hidx] at hm hframe hentry
  rw [hnext] at hentry
  rw [hm] at hc
  cases hc
  intro k hk
  rcases Nat.lt_succ_iff_lt_or_eq.mp hk with hlt | rfl
  · rw [← hh k hlt]
    apply readE820Entry_congr
    apply Memory.Same.of_unchanged _ (by decide)
    exact fun x hx => hframe x (memoryMapEntry_apart (by omega) (by omega) (by omega) x hx)
  · have hsame : Memory.Same c.mem (recordAt mem start k) mem (recordAt mem start k) memoryMapSize := by
      apply Memory.Same.of_unchanged _ (by decide)
      exact fun x hx => hold x (hap.symm x hx)
    rw [← readMap_congr hsame]
    exact hentry fun x hx => hap x (memoryMapEntry_in hi hx)

/-- The loop over a map that is tiled, beside the page. -/
theorem convertLoop_tiled {length fuel : ℕ} (ht : TiledBy mem start length n) (hlen : length ≤ 4096)
    (hfit : start.toNat + length < 2 ^ 32) (hap : Apart e820 PAGE_SIZE.toNat start length)
    (hfuel : n ≤ fuel) :
    ConvertsInPage e820 start (start + BitVec.ofNat 32 length) mem fuel ∧
      ∃ c, convertLoop e820 start (start + BitVec.ofNat 32 length) mem fuel = .next c ∧
        Converting e820 start mem n c ∧ Holding e820 start mem n c.mem := by
  have hn : n ≤ 170 := by
    have hmul := ht.mul_le
    unfold memoryMapSize at hmul
    omega
  have hrecord : ∀ i < n, Apart e820 PAGE_SIZE.toNat (recordAt mem start i) memoryMapSize :=
    fun i hi x hx hr => hap x hx (ht.inSpan hi (by omega) hr)
  let I : ℕ → Conversion → Prop := fun i c =>
    i ≤ n ∧ Converting e820 start mem i c ∧ Holding e820 start mem i c.mem
  have hcond : ∀ i c, I i c → (c.next < start + BitVec.ofNat 32 length ↔ i < n) := by
    rintro i c ⟨hi, hc, _⟩
    rw [hc.next]
    exact ht.lt_stop_iff hfit hi
  have hbody : ∀ i c, i < n → I i c → ∃ c', convertStep e820 i c = .next c' ∧ I (i + 1) c' := by
    rintro i c hi ⟨_, hc, hh⟩
    obtain ⟨c', he, hc'⟩ := hc.step (show i < 170 by omega) ((hrecord i hi).mono le_rfl (by decide)) i
    exact ⟨c', he, hi, hc', hc.hold (by omega) (hrecord i hi) hh he⟩
  have h0 : I 0 ⟨mem, start, 0⟩ :=
    ⟨Nat.zero_le n, .init e820 start mem, fun k hk => absurd hk (Nat.not_lt_zero k)⟩
  constructor
  · apply admits_of_invariant I h0
    · intro i c hI hc
      have hi := (hcond i c hI).mp hc
      apply (entryInPage_iff ?_ i).mpr
      all_goals
        rw [hI.2.1.i]
        omega
    · intro i c c' hI hc he
      obtain ⟨c'', he', hI'⟩ := hbody i c ((hcond i c hI).mp hc) hI
      rw [he] at he'
      cases he'
      exact hI'
  · obtain ⟨c, hrun, _, hc, hh⟩ := run_count I hcond hbody (Nat.zero_le n)
      (show n ≤ 0 + fuel by omega) h0
    exact ⟨c, hrun, hc, hh⟩

end loop

theorem monPageAlloc_frame {s : Machine} {x : BitVec 32}
    (hx : ¬ InSpan (monPageAlloc s 1).2 PAGE_SIZE.toNat x) :
    (monPageAlloc s 1).1.mem x = s.mem x := by
  unfold monPageAlloc at hx ⊢
  by_cases hlt : s.heapTops < alignForward s.heapCurrent + 1 * PAGE_SIZE
  · rw [reserve_refused _ _ _ hlt]
  · rw [reserve_served _ _ _ hlt] at hx
    exact reserve_mem_of_not_inSpan _ _ _ hx

/-- A page that is served is zero. -/
theorem monPageAlloc_zero {s : Machine} (hserved : (monPageAlloc s 1).2 ≠ NULL) {x : BitVec 32}
    (hx : InSpan (monPageAlloc s 1).2 PAGE_SIZE.toNat x) : (monPageAlloc s 1).1.mem x = 0 := by
  unfold monPageAlloc at hserved hx ⊢
  by_cases hlt : s.heapTops < alignForward s.heapCurrent + 1 * PAGE_SIZE
  · rw [reserve_refused _ _ _ hlt] at hserved
    exact absurd rfl hserved
  · rw [reserve_served _ _ _ hlt] at hx
    exact reserve_mem_of_inSpan _ _ _ hlt hx

/-- With a page from the heap, the loop decides. -/
theorem getE820TableFromMultiboot_served {s : Machine} {inf : BitVec 32} {fuel : ℕ}
    (hflags : MultibootInfo.flags s.mem inf &&& 3 ≠ 0)
    (hshort : (MultibootInfo.mmapLength s.mem inf).toNat ≤ 4096)
    (hserved : (monPageAlloc s 1).2 ≠ NULL)
    (hinfo : Apart (monPageAlloc s 1).2 PAGE_SIZE.toNat inf MultibootInfo.span) {c : Conversion}
    (hrun : convertLoop (monPageAlloc s 1).2 (MultibootInfo.mmapAddr s.mem inf)
      (MultibootInfo.mmapAddr s.mem inf + MultibootInfo.mmapLength s.mem inf)
      (monPageAlloc s 1).1.mem fuel = .next c) :
    getE820TableFromMultiboot s inf fuel =
      some ({ (monPageAlloc s 1).1 with
        mem := c.mem.setField (monPageAlloc s 1).2 0 (BitVec.ofNat 32 (c.i * e820EntryExtSize)) },
        some (monPageAlloc s 1).2) := by
  have hframe : ∀ x, ¬ InSpan (monPageAlloc s 1).2 PAGE_SIZE.toNat x →
      (monPageAlloc s 1).1.mem x = s.mem x := fun _ => monPageAlloc_frame
  have hcheck : ¬ (MultibootInfo.flags s.mem inf &&& 3 = 0 ∨
      4096 < MultibootInfo.mmapLength s.mem inf) := by
    rw [not_or, BitVec.lt_def]
    exact ⟨hflags, Nat.not_lt.mpr hshort⟩
  unfold getE820TableFromMultiboot
  rw [if_neg hcheck, BitVec.ofNat_mul]
  generalize monPageAlloc s 1 = o at hframe hinfo hserved hrun ⊢
  obtain ⟨s₁, e820⟩ := o
  dsimp only at hframe hinfo hserved hrun ⊢
  have hsame : Memory.Same s₁.mem inf s.mem inf MultibootInfo.span := by
    apply Memory.Same.of_unchanged _ (by decide)
    exact fun x hx => hframe x fun hin => hinfo x hin hx
  have haddr : MultibootInfo.mmapAddr s₁.mem inf = MultibootInfo.mmapAddr s.mem inf :=
    Memory.field_congr hsame (by decide)
  have hlength : MultibootInfo.mmapLength s₁.mem inf = MultibootInfo.mmapLength s.mem inf :=
    Memory.field_congr hsame (by decide)
  rw [if_neg hserved, haddr, hlength, hrun]

/-- `count` entries of the table. -/
def e820Entries (mem : Memory 32) (e820 : BitVec 32) (count : ℕ) : List E820Entry :=
  (List.range count).map fun i => readE820Entry mem (memoryMapEntry e820 i)

/-- The entry for a record. -/
def MemoryMap.toE820 (r : MemoryMap) : E820Entry := ⟨r.addr, r.len, r.type, 1⟩

/-- A map of `n` records of any sizes, beside the page that is handed out. -/
structure ConvertInput (s : Machine) (inf : BitVec 32) (n : ℕ) : Prop where
  flags : MultibootInfo.flags s.mem inf &&& 3 ≠ 0
  short : (MultibootInfo.mmapLength s.mem inf).toNat ≤ 4096
  tiled : TiledBy s.mem (MultibootInfo.mmapAddr s.mem inf)
    (MultibootInfo.mmapLength s.mem inf).toNat n
  fits : (MultibootInfo.mmapAddr s.mem inf).toNat + (MultibootInfo.mmapLength s.mem inf).toNat < 2 ^ 32
  served : (monPageAlloc s 1).2 ≠ NULL
  mapOutside : Apart (monPageAlloc s 1).2 PAGE_SIZE.toNat (MultibootInfo.mmapAddr s.mem inf)
    (MultibootInfo.mmapLength s.mem inf).toNat
  infoOutside : Apart (monPageAlloc s 1).2 PAGE_SIZE.toNat inf MultibootInfo.span

/-- What the table says, and that it fits into the page with its count. -/
structure Converted (s : Machine) (inf : BitVec 32) (n : ℕ) (s' : Machine) (e820 : BitVec 32) :
    Prop where
  size : (s'.mem.field 32 e820 0).toNat = n * e820EntryExtSize
  entries : e820Entries s'.mem e820 n =
    (recordsFrom s.mem (MultibootInfo.mmapAddr s.mem inf) n).map MemoryMap.toE820
  room : 4 + n * e820EntryExtSize ≤ PAGE_SIZE.toNat
  frame : ∀ x, ¬ InSpan e820 PAGE_SIZE.toNat x → s'.mem x = s.mem x

section tiled
variable {s : Machine} {inf : BitVec 32} {n fuel : ℕ}

/-- The page that is handed out leaves the map as it was. -/
theorem ConvertInput.unchanged (h : ConvertInput s inf n) {x : BitVec 32}
    (hx : InSpan (MultibootInfo.mmapAddr s.mem inf) (MultibootInfo.mmapLength s.mem inf).toNat x) :
    (monPageAlloc s 1).1.mem x = s.mem x :=
  monPageAlloc_frame fun hin => h.mapOutside x hin hx

/-- The loop converts the records of such a map, and stays in the page. -/
theorem ConvertInput.looped (h : ConvertInput s inf n) (hfuel : n ≤ fuel) :
    ConvertsInPage (monPageAlloc s 1).2 (MultibootInfo.mmapAddr s.mem inf)
        (MultibootInfo.mmapAddr s.mem inf + MultibootInfo.mmapLength s.mem inf)
        (monPageAlloc s 1).1.mem fuel ∧
      ∃ c, convertLoop (monPageAlloc s 1).2 (MultibootInfo.mmapAddr s.mem inf)
          (MultibootInfo.mmapAddr s.mem inf + MultibootInfo.mmapLength s.mem inf)
          (monPageAlloc s 1).1.mem fuel = .next c ∧
        Converting (monPageAlloc s 1).2 (MultibootInfo.mmapAddr s.mem inf)
          (monPageAlloc s 1).1.mem n c ∧
        Holding (monPageAlloc s 1).2 (MultibootInfo.mmapAddr s.mem inf)
          (monPageAlloc s 1).1.mem n c.mem := by
  have hlt := Nat.le_of_lt (MultibootInfo.mmapLength s.mem inf).isLt
  have hloop := convertLoop_tiled (h.tiled.of_same hlt fun _ hx => h.unchanged hx) h.short h.fits
    h.mapOutside hfuel
  rwa [BitVec.ofNat_toNat, BitVec.setWidth_eq] at hloop

/-- The table of such a map. -/
theorem ConvertInput.converted (h : ConvertInput s inf n) (hfuel : n ≤ fuel) :
    ∃ s', getE820TableFromMultiboot s inf fuel = some (s', some (monPageAlloc s 1).2) ∧
      Converted s inf n s' (monPageAlloc s 1).2 := by
  have hlt := Nat.le_of_lt (MultibootInfo.mmapLength s.mem inf).isLt
  have hrecords := h.tiled.recordsFrom_eq hlt fun _ hx => h.unchanged hx
  obtain ⟨-, c, hrun, hc, hh⟩ := h.looped hfuel
  rw [getE820TableFromMultiboot_served h.flags h.short h.served h.infoOutside hrun]
  refine ⟨_, rfl, ?_⟩
  have hroom : 4 + n * e820EntryExtSize ≤ PAGE_SIZE.toNat := by
    have hshort := h.short
    have hmul := h.tiled.mul_le
    change 4 + n * 24 ≤ 4096
    unfold memoryMapSize at hmul
    omega
  rw [hc.i]
  constructor
  · dsimp only
    rw [Memory.field_setField _ _ _ _ (by decide) (by decide)]
    change 4 + n * e820EntryExtSize ≤ 4096 at hroom
    exact toNat_ofNat_of_lt (by omega)
  · rw [← hrecords]
    unfold e820Entries recordsFrom
    rw [List.map_map]
    apply List.map_congr_left
    intro i hi
    have hi := List.mem_range.mp hi
    change 4 + n * 24 ≤ 4096 at hroom
    rw [readE820Entry_setCount (by omega)]
    exact hh i hi
  · exact hroom
  · intro x hx
    dsimp only
    rw [Memory.setField_of_outside _ _ hx (by decide) (by decide), hc.frame x hx]
    exact monPageAlloc_frame hx

end tiled

/-- A map that is tiled is converted record by record, and every store of the loop stays in the
page. -/
theorem getE820TableFromMultiboot_tiled {s : Machine} {inf : BitVec 32} {n fuel : ℕ}
    (h : ConvertInput s inf n) (hfuel : n ≤ fuel) :
    ∃ s' e820, getE820TableFromMultiboot s inf fuel = some (s', some e820) ∧
      Converted s inf n s' e820 ∧
      ConvertsInPage e820 (MultibootInfo.mmapAddr s.mem inf)
        (MultibootInfo.mmapAddr s.mem inf + MultibootInfo.mmapLength s.mem inf)
        (monPageAlloc s 1).1.mem fuel := by
  obtain ⟨hpage, -⟩ := h.looped hfuel
  obtain ⟨s', hrun, hc⟩ := h.converted hfuel
  exact ⟨s', _, hrun, hc, hpage⟩

/-- The information at 0x100 and a map of two records at 0x200, the first of size 24. -/
def variedMem : Memory 32 :=
  let mem : Memory 32 := fun _ => 0
  let mem := mem.setField 0x100 0 (0x41 : BitVec 32)
  let mem := mem.setField 0x100 44 (52 : BitVec 32)
  let mem := mem.setField 0x100 48 (0x200 : BitVec 32)
  let mem := mem.setField 0x200 0 (24 : BitVec 32)
  let mem := mem.setField 0x200 4 (0x1000 : BitVec 64)
  let mem := mem.setField 0x200 12 (0x3000 : BitVec 64)
  let mem := mem.setField 0x200 20 MULTIBOOT_MEMORY_AVAILABLE
  let mem := mem.setField 0x21c 0 (20 : BitVec 32)
  let mem := mem.setField 0x21c 4 (0x8000 : BitVec 64)
  let mem := mem.setField 0x21c 12 (0x1000 : BitVec 64)
  mem.setField 0x21c 20 MULTIBOOT_MEMORY_RESERVED

/-- A heap of two pages at 0x8000. -/
def variedMachine : Machine := initializeMemoryManager variedMem 0x8000 0x2000

theorem recordsFrom_varied : recordsFrom variedMachine.mem 0x200 2 =
    [⟨24, 0x1000, 0x3000, MULTIBOOT_MEMORY_AVAILABLE⟩,
      ⟨20, 0x8000, 0x1000, MULTIBOOT_MEMORY_RESERVED⟩] := by decide +kernel

theorem varied_info : MultibootInfo.mmapAddr variedMachine.mem 0x100 = 0x200 ∧
    MultibootInfo.mmapLength variedMachine.mem 0x100 = 52 := by decide +kernel

theorem tiledBy_varied : TiledBy variedMachine.mem 0x200 52 2 := by
  constructor
  · rw [recordsFrom_varied]
    decide
  · rw [recordsFrom_varied]
    decide

theorem convertInput_varied : ConvertInput variedMachine 0x100 2 := by
  have hpage : (monPageAlloc variedMachine 1).2 = 0x8000 := rfl
  obtain ⟨haddr, hlength⟩ := varied_info
  constructor
  · decide +kernel
  · rw [hlength]
    decide
  · rw [haddr, hlength]
    exact tiledBy_varied
  · rw [haddr, hlength]
    decide
  · rw [hpage]
    decide
  · rw [hpage, haddr, hlength]
    exact (apart_of_le (by decide) (by decide)).symm
  · rw [hpage]
    exact (apart_of_le (by decide) (by decide)).symm

/-- Two records of different sizes. -/
theorem getE820TableFromMultiboot_varied :
    ∃ s' e820, getE820TableFromMultiboot variedMachine 0x100 2 = some (s', some e820) ∧
      Converted variedMachine 0x100 2 s' e820 ∧ e820Entries s'.mem e820 2 =
        [⟨0x1000, 0x3000, 1, 1⟩, ⟨0x8000, 0x1000, 2, 1⟩] := by
  obtain ⟨s', e820, hrun, hc, _⟩ := getE820TableFromMultiboot_tiled convertInput_varied (le_refl 2)
  refine ⟨s', e820, hrun, hc, ?_⟩
  rw [hc.entries, varied_info.1, recordsFrom_varied]
  rfl

end IkgtLoader
