import IkgtLoader.Flat.BitField
import IkgtLoader.Flat.StrideSearch
import IkgtLoader.PreOs.E820Table

/-! `get_e820_table_from_sfi`: the memory map of the simple firmware interface becomes a table for
the monitor. -/
namespace IkgtLoader
open Flat Loop

/-! The fields of `sfi_header_t` that are looked at. -/
namespace SfiHeader

def size : ℕ := 24

def sig (mem : Memory 32) (hdr : BitVec 32) : BitVec 32 := mem.field 32 hdr 0

def len (mem : Memory 32) (hdr : BitVec 32) : BitVec 32 := mem.field 32 hdr 4

end SfiHeader

/-- What is used of `sfi_mem_dsc_t`. -/
structure SfiMemDsc where
  type : BitVec 32
  paddr : BitVec 64
  pages : BitVec 64

/-- `sizeof(sfi_mem_dsc_t)`. -/
def sfiMemDscSize : ℕ := 36

def readSfiMemDsc (mem : Memory 32) (dsc : BitVec 32) : SfiMemDsc where
  type := mem.field 32 dsc 0
  paddr := mem.field 64 dsc 4
  pages := mem.field 64 dsc 20

def SYST : BitVec 32 := 0x54535953

def MMAP : BitVec 32 := 0x50414d4d

/-- A table without its header. -/
structure SfiTable where
  table : BitVec 32
  size : BitVec 32

/-- The arguments of `find_sfi_table`. -/
structure SfiSearch where
  start : BitVec 32
  stop : BitVec 32
  step : BitVec 32
  tableLevel : BitVec 32
  sig : BitVec 32

section search
variable (mem : Memory 32) (q : SfiSearch)

/-- The header that is looked at, at the address or where a pointer there leads. -/
def SfiSearch.hdr (addr : BitVec 32) : BitVec 32 :=
  if q.tableLevel = 0 then addr else mem.field 32 addr 0

def SfiSearch.Hit (addr : BitVec 32) : Prop :=
  q.hdr mem addr ≠ 0 ∧ SfiHeader.sig mem (q.hdr mem addr) = q.sig

instance : DecidablePred (q.Hit mem) := fun _ => inferInstanceAs (Decidable (_ ∧ _))

/-- The table behind a header; its size is that of the whole less that of the header. -/
def sfiTableAt (hdr : BitVec 32) : SfiTable where
  table := hdr + BitVec.ofNat 32 SfiHeader.size
  size := SfiHeader.len mem hdr - BitVec.ofNat 32 SfiHeader.size

/-- The table, or nothing for -1; no result at all means that the fuel is spent. -/
def findSfiTable (fuel : ℕ) : Option (Option SfiTable) :=
  match strideSearch q.start q.stop q.step (q.Hit mem) fuel with
  | .next _ => some none
  | .quit addr => some (some (sfiTableAt mem (q.hdr mem addr)))
  | .spent _ => none

end search

def systSearch : SfiSearch := ⟨0xe0000, 0xfffff, 16, 0, SYST⟩

def mmapSearch (t : SfiTable) : SfiSearch := ⟨t.table, t.table + t.size - 1, 8, 1, MMAP⟩

/-! The values of `int15_e820_range_type_t`. -/
def INT15_E820_ADDRESS_RANGE_TYPE_MEMORY : BitVec 32 := 1

def INT15_E820_ADDRESS_RANGE_TYPE_RESERVED : BitVec 32 := 2

def INT15_E820_ADDRESS_RANGE_TYPE_ACPI : BitVec 32 := 3

def INT15_E820_ADDRESS_RANGE_TYPE_NVS : BitVec 32 := 4

def sfiE820Type (type : BitVec 32) : BitVec 32 :=
  match type.toNat with
  | 1 | 2 | 3 | 4 | 5 | 6 | 7 => INT15_E820_ADDRESS_RANGE_TYPE_MEMORY
  | 9 => INT15_E820_ADDRESS_RANGE_TYPE_ACPI
  | 10 => INT15_E820_ADDRESS_RANGE_TYPE_NVS
  | _ => INT15_E820_ADDRESS_RANGE_TYPE_RESERVED

/-- `extended_attributes.bits.enabled`. -/
def extendedEnabled : BitField := ⟨0, 1⟩

/-- `dsc[i]`. -/
def sfiMemDsc (table : BitVec 32) (i : ℕ) : BitVec 32 := table + BitVec.ofNat 32 (i * sfiMemDscSize)

/-- One descriptor: four stores, each from the descriptor as it is at that moment. -/
def sfiStep (e820 table : BitVec 32) (i : ℕ) (mem : Memory 32) : Outcome (Memory 32) :=
  let blk := memoryMapEntry e820 i
  let dsc := sfiMemDsc table i
  let mem := mem.setField blk 0 (readSfiMemDsc mem dsc).paddr
  let mem := mem.setField blk 8 ((readSfiMemDsc mem dsc).pages * 0x1000)
  let mem := mem.setField blk 16 (sfiE820Type (readSfiMemDsc mem dsc).type)
  .next (mem.modify 32 blk 20 fun x => extendedEnabled.set x (1 : BitVec 32))

/-- `for (i = 0; i < cnt; i++)`. -/
def sfiLoop (e820 table : BitVec 32) (cnt : ℕ) (mem : Memory 32) (fuel : ℕ) : Outcome (Memory 32) :=
  run (fun i _ => i < cnt) (sfiStep e820 table) fuel 0 mem

/-- The number of descriptors that are converted. -/
def SfiTable.cnt (t : SfiTable) : ℕ := t.size.toNat / sfiMemDscSize

/-- `*e820_addr`, or nothing for -1; no result at all means that the fuel is spent. -/
def getE820TableFromSfi (s : Machine) (fuel : ℕ) : Option (Machine × Option (BitVec 32)) :=
  match findSfiTable s.mem systSearch fuel with
  | none => none
  | some none => some (s, none)
  | some (some syst) =>
    match findSfiTable s.mem (mmapSearch syst) fuel with
    | none => none
    | some none => some (s, none)
    | some (some t) =>
      match monPageAlloc s 1 with
      | (s, e820) =>
        if e820 = NULL then some (s, none)
        else
          match sfiLoop e820 t.table t.cnt s.mem fuel with
          | .next mem =>
            let size := BitVec.ofNat 32 t.cnt * BitVec.ofNat 32 e820EntryExtSize
            some ({ s with mem := mem.setField e820 0 size }, some e820)
          | .quit mem => some ({ s with mem := mem }, none)
          | .spent _ => none

/-- The entry for a descriptor. -/
def SfiMemDsc.toE820 (d : SfiMemDsc) : E820Entry := ⟨d.paddr, d.pages * 0x1000, sfiE820Type d.type, 1⟩

theorem readSfiMemDsc_congr {m m' : Memory 32} {p : BitVec 32}
    (h : Memory.Same m p m' p sfiMemDscSize) : readSfiMemDsc m p = readSfiMemDsc m' p := by
  unfold readSfiMemDsc
  rw [Memory.field_congr h (by decide), Memory.field_congr h (by decide),
    Memory.field_congr h (by decide)]

section step
variable {e820 table : BitVec 32} {i k : ℕ} {m mem : Memory 32}

/-- What a round stores: one entry, of the descriptor if this does not lie in the way. -/
theorem sfiStep_spec (e820 table : BitVec 32) (i : ℕ) (m : Memory 32) :
    ∃ m', sfiStep e820 table i m = .next m' ∧
      (∀ x, ¬ InSpan (memoryMapEntry e820 i) e820EntryExtSize x → m' x = m x) ∧
      (Apart (memoryMapEntry e820 i) e820EntryExtSize (sfiMemDsc table i) sfiMemDscSize →
        (readE820Entry m (memoryMapEntry e820 i)).extendedAttributes = 0 →
        readE820Entry m' (memoryMapEntry e820 i) = (readSfiMemDsc m (sfiMemDsc table i)).toE820) := by
  have hs : e820EntryExtSize ≤ 2 ^ 32 := by decide
  have h0 : Memory.Same m (sfiMemDsc table i) m (sfiMemDsc table i) sfiMemDscSize := fun _ _ => rfl
  unfold sfiStep Memory.modify
  dsimp only
  generalize memoryMapEntry e820 i = blk
  generalize sfiMemDsc table i = dsc at h0 ⊢
  refine ⟨_, rfl, fun x hx => ?_, fun hap hext => ?_⟩
  · rw [Memory.setField_of_outside _ _ hx (by decide) hs,
      Memory.setField_of_outside _ _ hx (by decide) hs,
      Memory.setField_of_outside _ _ hx (by decide) hs,
      Memory.setField_of_outside _ _ hx (by decide) hs]
  · have h1 := h0.setField hap (o := 0) (by decide) hs (by decide) (readSfiMemDsc m dsc).paddr
    have h2 := h1.setField hap (o := 8) (by decide) hs (by decide)
      ((readSfiMemDsc m dsc).pages * 0x1000)
    rw [readSfiMemDsc_congr h1, readSfiMemDsc_congr h2]
    unfold readE820Entry SfiMemDsc.toE820
    rw [E820Entry.mk.injEq]
    refine ⟨?_, ?_, ?_, ?_⟩
    · rw [Memory.field_setField_of_ne _ _ (by decide) (by decide) (by decide),
        Memory.field_setField_of_ne _ _ (by decide) (by decide) (by decide),
        Memory.field_setField_of_ne _ _ (by decide) (by decide) (by decide)]
      exact Memory.field_setField _ _ _ _ (by decide) (by decide)
    · rw [Memory.field_setField_of_ne _ _ (by decide) (by decide) (by decide),
        Memory.field_setField_of_ne _ _ (by decide) (by decide) (by decide)]
      exact Memory.field_setField _ _ _ _ (by decide) (by decide)
    · rw [Memory.field_setField_of_ne _ _ (by decide) (by decide) (by decide)]
      exact Memory.field_setField _ _ _ _ (by decide) (by decide)
    · have hold : m.field 32 blk 20 = 0 := hext
      rw [Memory.field_setField _ _ _ _ (by decide) (by decide),
        Memory.field_setField_of_ne _ _ (by decide) (by decide) (by decide),
        Memory.field_setField_of_ne _ _ (by decide) (by decide) (by decide),
        Memory.field_setField_of_ne _ _ (by decide) (by decide) (by decide), hold]
      decide

/-- The state before the descriptor `i`: the entries of those before it, and zeros behind. -/
structure SfiConverting (e820 table : BitVec 32) (mem : Memory 32) (i : ℕ) (m : Memory 32) : Prop where
  frame : ∀ x, ¬ InSpan e820 PAGE_SIZE.toNat x → m x = mem x
  held : ∀ k < i, readE820Entry m (memoryMapEntry e820 k) =
    (readSfiMemDsc mem (sfiMemDsc table k)).toE820
  fresh : ∀ k, i ≤ k → k < 170 → (readE820Entry m (memoryMapEntry e820 k)).extendedAttributes = 0

theorem SfiConverting.step (h : SfiConverting e820 table mem i m) (hi : i < 170)
    (hap : Apart e820 PAGE_SIZE.toNat (sfiMemDsc table i) sfiMemDscSize) :
    ∃ m', sfiStep e820 table i m = .next m' ∧ SfiConverting e820 table mem (i + 1) m' := by
  obtain ⟨m', hm, hframe, hentry⟩ := sfiStep_spec e820 table i m
  have hother : ∀ k, k < 170 → k ≠ i →
      readE820Entry m' (memoryMapEntry e820 k) = readE820Entry m (memoryMapEntry e820 k) := by
    intro k hk hne
    apply readE820Entry_congr
    apply Memory.Same.of_unchanged _ (by decide)
    exact fun x hx => hframe x (memoryMapEntry_apart hne hk hi x hx)
  refine ⟨m', hm, ?_, ?_, ?_⟩
  · intro x hx
    rw [hframe x fun hin => hx (memoryMapEntry_in hi hin)]
    exact h.frame x hx
  · intro k hk
    rcases Nat.lt_succ_iff_lt_or_eq.mp hk with hlt | rfl
    · rw [hother k (by omega) (by omega)]
      exact h.held k hlt
    · have hsame : Memory.Same m (sfiMemDsc table k) mem (sfiMemDsc table k) sfiMemDscSize := by
        apply Memory.Same.of_unchanged _ (by decide)
        exact fun x hx => h.frame x (hap.symm x hx)
      rw [← readSfiMemDsc_congr hsame]
      exact hentry (fun x hx => hap x (memoryMapEntry_in hi hx)) (h.fresh k le_rfl hi)
  · intro k hk hlt
    rw [hother k hlt (by omega)]
    exact h.fresh k (by omega) hlt

/-- Every round of the loop stores in the page. -/
def SfiStoresInPage (e820 table : BitVec 32) (cnt : ℕ) (mem : Memory 32) (fuel : ℕ) : Prop :=
  Admits (fun i _ => i < cnt) (sfiStep e820 table)
    (fun i _ => ∀ x, InSpan (memoryMapEntry e820 i) e820EntryExtSize x → InSpan e820 PAGE_SIZE.toNat x)
    fuel 0 mem

theorem sfiStep_next (e820 table : BitVec 32) (i : ℕ) (m : Memory 32) :
    ∃ m', sfiStep e820 table i m = .next m' := by
  obtain ⟨m', hm, _⟩ := sfiStep_spec e820 table i m
  exact ⟨m', hm⟩

/-- The loop ends after `cnt` rounds. -/
theorem sfiLoop_ends {cnt fuel : ℕ} (hfuel : cnt ≤ fuel) :
    ∃ m', sfiLoop e820 table cnt m fuel = .next m' := by
  obtain ⟨m', hm, _⟩ := run_count (fun _ _ => True) (fun i (s : Memory 32) _ => Iff.rfl)
    (fun i s _ _ => (sfiStep_next e820 table i s).imp fun _ h => ⟨h, trivial⟩) (Nat.zero_le cnt)
    (show cnt ≤ 0 + fuel by omega) trivial
  exact ⟨m', hm⟩

/-- If it ends, the fuel was enough. -/
theorem sfiLoop_next {cnt fuel : ℕ} {m' : Memory 32}
    (h : sfiLoop e820 table cnt m fuel = .next m') : cnt ≤ fuel := by
  by_contra hlt
  have hall : ∀ j (_ : Memory 32), 0 ≤ j → j ≤ 0 + fuel → j < cnt := fun j _ _ hj => by omega
  obtain ⟨t, ht⟩ := run_spent (sfiStep_next e820 table) (s := m) hall
  unfold sfiLoop at h
  rw [ht] at h
  cases h

/-- The loop over at most 170 descriptors beside the page. -/
theorem sfiLoop_spec {cnt fuel : ℕ} {m' : Memory 32} (hzero : SfiConverting e820 table mem 0 mem)
    (hcnt : cnt ≤ 170)
    (hap : ∀ i < cnt, Apart e820 PAGE_SIZE.toNat (sfiMemDsc table i) sfiMemDscSize)
    (h : sfiLoop e820 table cnt mem fuel = .next m') : SfiConverting e820 table mem cnt m' := by
  obtain ⟨u, hu, _, hconv⟩ := run_count (fun i m => i ≤ cnt ∧ SfiConverting e820 table mem i m)
    (fun i (s : Memory 32) _ => Iff.rfl) (fun i s hi hI => by
      obtain ⟨t, ht, hnext⟩ := hI.2.step (show i < 170 by omega) (hap i hi)
      exact ⟨t, ht, hi, hnext⟩) (Nat.zero_le cnt) (show cnt ≤ 0 + fuel by have := sfiLoop_next h; omega)
    ⟨Nat.zero_le cnt, hzero⟩
  unfold sfiLoop at h
  rw [h] at hu
  cases hu
  exact hconv

theorem sfiStoresInPage_iff {cnt fuel : ℕ} (hcnt : cnt < 2 ^ 27) (hfuel : cnt ≤ fuel) :
    SfiStoresInPage e820 table cnt mem fuel ↔ cnt ≤ 170 := by
  unfold SfiStoresInPage
  rw [admits_count_iff (sfiStep_next e820 table)]
  constructor
  · intro h
    by_contra hgt
    have hin := h 170 (Nat.zero_le _) (by omega) (by omega)
    rw [memoryMapEntry_in_iff (by decide)] at hin
    exact absurd hin (by decide)
  · intro h j _ _ hj
    rw [memoryMapEntry_in_iff (by omega)]
    omega

end step

/-- The search comes to a first hit, which leads to the header. -/
def SfiSearch.Finds (q : SfiSearch) (mem : Memory 32) (hdr : BitVec 32) : Prop :=
  ∃ k, FoundAt q.start q.stop q.step (q.Hit mem) k ∧ hdr = q.hdr mem (probe q.start q.step k)

/-- The search comes to an end. -/
def SfiSearch.Ends (q : SfiSearch) (mem : Memory 32) : Prop :=
  SearchEnds q.start q.stop q.step (q.Hit mem)

section find
variable {mem : Memory 32} {q : SfiSearch} {hdr hdr' : BitVec 32} {fuel : ℕ}

theorem SfiSearch.Finds.unique (h : q.Finds mem hdr) (h' : q.Finds mem hdr') : hdr = hdr' := by
  obtain ⟨k, hk, rfl⟩ := h
  obtain ⟨j, hj, rfl⟩ := h'
  rw [hk.unique hj]

theorem findSfiTable_some {t : SfiTable} (h : findSfiTable mem q fuel = some (some t)) :
    ∃ hdr, q.Finds mem hdr ∧ t = sfiTableAt mem hdr := by
  have hspec : (strideSearch q.start q.stop q.step (q.Hit mem) fuel).All _ _ _ := strideSearch_spec
  unfold findSfiTable at h
  cases he : strideSearch q.start q.stop q.step (q.Hit mem) fuel with
  | next a => rw [he] at h; cases h
  | spent a => rw [he] at h; cases h
  | quit a =>
    rw [he] at h hspec
    cases h
    obtain ⟨k, hk, rfl⟩ := hspec
    exact ⟨_, ⟨k, hk, rfl⟩, rfl⟩

/-- Where there is a first hit, the search does not fail. -/
theorem SfiSearch.Finds.result (h : q.Finds mem hdr) : findSfiTable mem q fuel = none ∨
    findSfiTable mem q fuel = some (some (sfiTableAt mem hdr)) := by
  have hspec : (strideSearch q.start q.stop q.step (q.Hit mem) fuel).All _ _ _ := strideSearch_spec
  unfold findSfiTable
  cases he : strideSearch q.start q.stop q.step (q.Hit mem) fuel with
  | spent a => exact .inl rfl
  | next a =>
    rw [he] at hspec
    obtain ⟨k, hk, rfl⟩ := h
    obtain ⟨j, hmiss, hout⟩ := hspec
    rcases Nat.lt_or_ge k j with hlt | hge
    · exact absurd hk.hit (hmiss k hlt)
    · exact absurd (hk.probed j hge) (BitVec.not_le.mpr hout)
  | quit a =>
    rw [he] at hspec
    obtain ⟨k, hk, rfl⟩ := hspec
    rw [h.unique ⟨k, hk, rfl⟩]
    exact .inr rfl

theorem SfiSearch.Ends.result (h : q.Ends mem) : ∃ n, ∀ fuel, n ≤ fuel → findSfiTable mem q fuel ≠ none := by
  obtain ⟨k, hk⟩ := h
  refine ⟨k + 1, fun fuel hfuel hnone => ?_⟩
  unfold findSfiTable at hnone
  cases he : strideSearch q.start q.stop q.step (q.Hit mem) fuel with
  | next a => rw [he] at hnone; cases hnone
  | quit a => rw [he] at hnone; cases hnone
  | spent a => exact strideSearch_ends hk (by omega) a he

theorem findSfiTable_of_not_ends (h : ¬ q.Ends mem) : findSfiTable mem q fuel = none := by
  obtain ⟨a, ha⟩ : ∃ a, strideSearch q.start q.stop q.step (q.Hit mem) fuel = .spent a :=
    strideSearch_spent h
  unfold findSfiTable
  rw [ha]

/-- The search of the first megabyte passes its end. -/
theorem systSearch_ends (mem : Memory 32) : systSearch.Ends mem := ⟨0x2000, .inl (by decide)⟩

/-- The second search, in steps of 8, passes its end exactly if there is an address in its steps above
the end; otherwise it goes round. -/
theorem mmapSearch_ends_iff (mem : Memory 32) (t : SfiTable) : (mmapSearch t).Ends mem ↔
    (mmapSearch t).stop.toNat < 2 ^ 32 - 8 + (mmapSearch t).start.toNat % 8 ∨
      ∃ k, (mmapSearch t).Hit mem (probe (mmapSearch t).start 8 k) := by
  obtain ⟨start, hstart⟩ : ∃ start, (mmapSearch t).start = start := ⟨_, rfl⟩
  obtain ⟨stop, hstop⟩ : ∃ stop, (mmapSearch t).stop = stop := ⟨_, rfl⟩
  have hlt := start.isLt
  have hprobe : ∀ k, (probe start 8 k).toNat = (start.toNat + k * 8) % 2 ^ 32 := by
    intro k
    unfold probe
    rw [BitVec.toNat_add, BitVec.toNat_mul, BitVec.toNat_ofNat]
    change (_ + _ % _ * 8 % _) % _ = _
    omega
  unfold SfiSearch.Ends SearchEnds
  rw [hstart, hstop, show (mmapSearch t).step = 8 from rfl]
  constructor
  · rintro ⟨k, h | h⟩
    · left
      rw [BitVec.lt_def, hprobe] at h
      omega
    · exact .inr ⟨k, h⟩
  · rintro (h | ⟨k, h⟩)
    · refine ⟨(2 ^ 32 - 8 + start.toNat % 8 - start.toNat) / 8, .inl ?_⟩
      rw [BitVec.lt_def, hprobe]
      omega
    · exact ⟨k, .inr h⟩

end find

/-- The complete descriptors of a table. -/
def sfiCount (mem : Memory 32) (hdr : BitVec 32) : ℕ :=
  ((SfiHeader.len mem hdr).toNat - SfiHeader.size) / sfiMemDscSize

/-- The descriptors of a table as entries. -/
def sfiEntries (mem : Memory 32) (hdr : BitVec 32) : List E820Entry :=
  (List.range (sfiCount mem hdr)).map fun i =>
    (readSfiMemDsc mem (sfiMemDsc (sfiTableAt mem hdr).table i)).toE820

/-- What the function leaves for the table behind a header. -/
structure SfiConverted (s : Machine) (hdr : BitVec 32) (s' : Machine) (e820 : BitVec 32)
    (fuel : ℕ) : Prop where
  size : (s'.mem.field 32 e820 0).toNat = sfiCount s.mem hdr * e820EntryExtSize
  entries : e820Entries s'.mem e820 (sfiCount s.mem hdr) = sfiEntries s.mem hdr
  inPage : SfiStoresInPage e820 (sfiTableAt s.mem hdr).table (sfiTableAt s.mem hdr).cnt
    (monPageAlloc s 1).1.mem fuel
  frame : ∀ x, ¬ InSpan e820 PAGE_SIZE.toNat x → s'.mem x = s.mem x

/-- The function comes to an end, and what it returns is the converted table at the first pointer to a
header with the signature `MMAP`. -/
structure SfiConverts (s : Machine) : Prop where
  ends : ∃ fuel, getE820TableFromSfi s fuel ≠ none
  converted : ∀ fuel s' e820, getE820TableFromSfi s fuel = some (s', some e820) →
    ∃ syst hdr, systSearch.Finds s.mem syst ∧ (mmapSearch (sfiTableAt s.mem syst)).Finds s.mem hdr ∧
      SfiConverted s hdr s' e820 fuel

/-- The table of pointers does not end in the last 8 bytes before `2^32`, unless there is a hit on the
way round; and the page has room for the descriptors. -/
structure SfiBounded (s : Machine) (syst : BitVec 32) : Prop where
  stops : let q := mmapSearch (sfiTableAt s.mem syst)
    q.stop.toNat < 2 ^ 32 - 8 + q.start.toNat % 8 ∨ ∃ k, q.Hit s.mem (probe q.start 8 k)
  room : ∀ hdr, (mmapSearch (sfiTableAt s.mem syst)).Finds s.mem hdr → (monPageAlloc s 1).2 ≠ NULL →
    (sfiTableAt s.mem hdr).cnt ≤ 170

/-- The descriptors that are read lie outside the page, if one is handed out. -/
def SfiOutside (s : Machine) : Prop :=
  ∀ syst hdr, systSearch.Finds s.mem syst → (mmapSearch (sfiTableAt s.mem syst)).Finds s.mem hdr →
    (monPageAlloc s 1).2 ≠ NULL → (sfiTableAt s.mem hdr).cnt ≤ 170 →
    ∀ i < (sfiTableAt s.mem hdr).cnt,
      Apart (monPageAlloc s 1).2 PAGE_SIZE.toNat (sfiMemDsc (sfiTableAt s.mem hdr).table i) sfiMemDscSize

section run
variable {s s' : Machine} {syst hdr e820 : BitVec 32} {fuel : ℕ}

/-- What has happened when the function returns 0. -/
theorem getE820TableFromSfi_some (h : getE820TableFromSfi s fuel = some (s', some e820)) :
    ∃ syst hdr m, systSearch.Finds s.mem syst ∧ (mmapSearch (sfiTableAt s.mem syst)).Finds s.mem hdr ∧
      (monPageAlloc s 1).2 = e820 ∧ e820 ≠ NULL ∧
      sfiLoop e820 (sfiTableAt s.mem hdr).table (sfiTableAt s.mem hdr).cnt (monPageAlloc s 1).1.mem fuel =
        .next m ∧
      s'.mem = m.setField e820 0
        (BitVec.ofNat 32 (sfiTableAt s.mem hdr).cnt * BitVec.ofNat 32 e820EntryExtSize) := by
  unfold getE820TableFromSfi at h
  split at h
  next => cases h
  next => cases h
  next t₁ hfind₁ =>
    obtain ⟨syst, hsyst, rfl⟩ := findSfiTable_some hfind₁
    split at h
    next => cases h
    next => cases h
    next t₂ hfind₂ =>
      obtain ⟨hdr, hhdr, rfl⟩ := findSfiTable_some hfind₂
      refine ⟨syst, hdr, ?_⟩
      generalize monPageAlloc s 1 = o at h ⊢
      obtain ⟨u, page⟩ := o
      dsimp only at h ⊢
      by_cases hnull : page = NULL
      · rw [if_pos hnull] at h
        cases congrArg Prod.snd (Option.some.inj h)
      · rw [if_neg hnull] at h
        cases hloop : sfiLoop page (sfiTableAt s.mem hdr).table (sfiTableAt s.mem hdr).cnt u.mem fuel with
        | next m =>
          rw [hloop] at h
          obtain ⟨hs, he⟩ := Prod.mk.inj (Option.some.inj h)
          obtain rfl := Option.some.inj he
          exact ⟨m, hsyst, hhdr, rfl, hnull, hloop, by rw [← hs]⟩
        | quit m =>
          rw [hloop] at h
          cases congrArg Prod.snd (Option.some.inj h)
        | spent m =>
          rw [hloop] at h
          cases h

/-- The count as the code computes it, where it is small. -/
theorem sfiCount_eq {mem : Memory 32} (h : (sfiTableAt mem hdr).cnt ≤ 170) :
    sfiCount mem hdr = (sfiTableAt mem hdr).cnt := by
  have hlt := (SfiHeader.len mem hdr).isLt
  have hsize : (sfiTableAt mem hdr).size.toNat = (2 ^ 32 - 24 + (SfiHeader.len mem hdr).toNat) % 2 ^ 32 :=
    BitVec.toNat_sub _ _
  unfold SfiTable.cnt sfiMemDscSize at h ⊢
  unfold sfiCount sfiMemDscSize SfiHeader.size
  omega

theorem cnt_lt (mem : Memory 32) (hdr : BitVec 32) : (sfiTableAt mem hdr).cnt < 2 ^ 27 := by
  have hlt := (sfiTableAt mem hdr).size.isLt
  unfold SfiTable.cnt sfiMemDscSize
  omega

/-- A table of at most 170 descriptors outside the page is converted. -/
theorem SfiConverted.of_room (hout : SfiOutside s) (hsyst : systSearch.Finds s.mem syst)
    (hhdr : (mmapSearch (sfiTableAt s.mem syst)).Finds s.mem hdr)
    (hroom : (sfiTableAt s.mem hdr).cnt ≤ 170) (hpage : (monPageAlloc s 1).2 = e820)
    (hserved : e820 ≠ NULL) {m : Memory 32} (hloop : sfiLoop e820 (sfiTableAt s.mem hdr).table
      (sfiTableAt s.mem hdr).cnt (monPageAlloc s 1).1.mem fuel = .next m)
    (hmem : s'.mem = m.setField e820 0
      (BitVec.ofNat 32 (sfiTableAt s.mem hdr).cnt * BitVec.ofNat 32 e820EntryExtSize)) :
    SfiConverted s hdr s' e820 fuel := by
  have hap := hout syst hdr hsyst hhdr (hpage ▸ hserved) hroom
  have hcount := sfiCount_eq hroom
  subst hpage
  have hframe : ∀ x, ¬ InSpan (monPageAlloc s 1).2 PAGE_SIZE.toNat x →
      (monPageAlloc s 1).1.mem x = s.mem x := fun _ => monPageAlloc_frame
  have hzero : ∀ x, InSpan (monPageAlloc s 1).2 PAGE_SIZE.toNat x → (monPageAlloc s 1).1.mem x = 0 :=
    fun _ => monPageAlloc_zero hserved
  generalize monPageAlloc s 1 = o at *
  obtain ⟨u, page⟩ := o
  dsimp only at *
  have hinit : SfiConverting page (sfiTableAt s.mem hdr).table u.mem 0 u.mem := by
    refine ⟨fun _ _ => rfl, fun k hk => absurd hk (Nat.not_lt_zero k), fun k _ hk => ?_⟩
    refine Memory.field_of_zero (fun x hx => hzero x (memoryMapEntry_in hk ?_)) (by decide)
    exact hx.of_offset (by decide) (by decide)
  have hconv := sfiLoop_spec hinit hroom hap hloop
  constructor
  · rw [hmem, Memory.field_setField _ _ _ _ (by decide) (by decide), hcount, ← BitVec.ofNat_mul]
    exact toNat_ofNat_of_lt (by unfold e820EntryExtSize; omega)
  · unfold e820Entries sfiEntries
    rw [hcount]
    apply List.map_congr_left
    intro i hi
    have hi := List.mem_range.mp hi
    have hsame : Memory.Same u.mem (sfiMemDsc (sfiTableAt s.mem hdr).table i) s.mem
        (sfiMemDsc (sfiTableAt s.mem hdr).table i) sfiMemDscSize := by
      apply Memory.Same.of_unchanged _ (by decide)
      exact fun x hx => hframe x fun hin => hap i hi x hin hx
    rw [hmem, readE820Entry_setCount (by omega), hconv.held i hi, readSfiMemDsc_congr hsame]
  · exact (sfiStoresInPage_iff (cnt_lt s.mem hdr) (sfiLoop_next hloop)).mpr hroom
  · intro x hx
    rw [hmem, Memory.setField_of_outside _ _ hx (by decide) (by decide), hconv.frame x hx]
    exact hframe x hx

/-- With enough fuel a first hit is the result. -/
theorem SfiSearch.Finds.eventually {q : SfiSearch} (h : q.Finds s.mem hdr) :
    ∃ n, ∀ fuel, n ≤ fuel → findSfiTable s.mem q fuel = some (some (sfiTableAt s.mem hdr)) := by
  have hends : q.Ends s.mem := by
    obtain ⟨k, hk, _⟩ := h
    exact ⟨k, .inr hk.hit⟩
  obtain ⟨n, hn⟩ := hends.result
  exact ⟨n, fun fuel hfuel => h.result.resolve_left (hn fuel hfuel)⟩

/-- Where both tables are found the function comes to an end, and with a page it returns 0. -/
theorem getE820TableFromSfi_found (hsyst : systSearch.Finds s.mem syst)
    (hhdr : (mmapSearch (sfiTableAt s.mem syst)).Finds s.mem hdr) :
    ∃ fuel r, getE820TableFromSfi s fuel = some r ∧
      ((monPageAlloc s 1).2 ≠ NULL → r.2 = some (monPageAlloc s 1).2) := by
  obtain ⟨n₁, h₁⟩ := hsyst.eventually
  obtain ⟨n₂, h₂⟩ := hhdr.eventually
  obtain ⟨fuel, hfuel⟩ : ∃ fuel, fuel = n₁ + n₂ + (sfiTableAt s.mem hdr).cnt := ⟨_, rfl⟩
  refine ⟨fuel, ?_⟩
  unfold getE820TableFromSfi
  rw [h₁ fuel (by omega)]
  dsimp only
  rw [h₂ fuel (by omega)]
  dsimp only
  generalize monPageAlloc s 1 = o
  obtain ⟨u, page⟩ := o
  dsimp only
  by_cases hnull : page = NULL
  · exact ⟨_, if_pos hnull, fun h => absurd hnull h⟩
  · have hcnt : (sfiTableAt s.mem hdr).cnt ≤ fuel := by omega
    obtain ⟨m, hm⟩ : ∃ m, sfiLoop page (sfiTableAt s.mem hdr).table (sfiTableAt s.mem hdr).cnt u.mem
      fuel = .next m := sfiLoop_ends hcnt
    rw [if_neg hnull, hm]
    exact ⟨_, rfl, fun _ => rfl⟩

/-- A search for the second table that does not end is not survived. -/
theorem SfiConverts.ends_mmap (h : SfiConverts s) (hsyst : systSearch.Finds s.mem syst) :
    (mmapSearch (sfiTableAt s.mem syst)).Ends s.mem := by
  by_contra hno
  obtain ⟨fuel, hfuel⟩ := h.ends
  apply hfuel
  unfold getE820TableFromSfi
  have hresult : findSfiTable s.mem systSearch fuel = none ∨ _ := hsyst.result
  rcases hresult with hr | hr
  · rw [hr]
  · rw [hr]
    dsimp only
    rw [findSfiTable_of_not_ends hno]

/-- The stores leave the page where it has no room. -/
theorem SfiConverts.room (h : SfiConverts s) (hsyst : systSearch.Finds s.mem syst)
    (hhdr : (mmapSearch (sfiTableAt s.mem syst)).Finds s.mem hdr)
    (hserved : (monPageAlloc s 1).2 ≠ NULL) : (sfiTableAt s.mem hdr).cnt ≤ 170 := by
  obtain ⟨fuel, ⟨t, r⟩, hrun, hr⟩ := getE820TableFromSfi_found hsyst hhdr
  obtain rfl := hr hserved
  obtain ⟨syst', hdr', hsyst', hhdr', hconv⟩ := h.converted fuel t _ hrun
  obtain rfl := hsyst.unique hsyst'
  obtain rfl := hhdr.unique hhdr'
  obtain ⟨_, hdr'', m, hsyst'', hhdr'', hpage, _, hloop, _⟩ := getE820TableFromSfi_some hrun
  obtain rfl := hsyst.unique hsyst''
  obtain rfl := hhdr.unique hhdr''
  exact (sfiStoresInPage_iff (cnt_lt s.mem hdr) (sfiLoop_next hloop)).mp hconv.inPage

/-- With a second search that ends, so does the function. -/
theorem getE820TableFromSfi_ends (h : ∀ syst, systSearch.Finds s.mem syst →
    (mmapSearch (sfiTableAt s.mem syst)).Ends s.mem) : ∃ fuel, getE820TableFromSfi s fuel ≠ none := by
  obtain ⟨n₁, h₁⟩ := (systSearch_ends s.mem).result
  cases hfind : findSfiTable s.mem systSearch n₁ with
  | none => exact absurd hfind (h₁ n₁ le_rfl)
  | some r =>
    cases r with
    | none =>
      refine ⟨n₁, ?_⟩
      unfold getE820TableFromSfi
      rw [hfind]
      exact Option.some_ne_none _
    | some t =>
      obtain ⟨syst, hsyst, rfl⟩ := findSfiTable_some hfind
      obtain ⟨n₂, h₂⟩ := (h syst hsyst).result
      have hfirst := hsyst.result.resolve_left (h₁ (n₁ + n₂) (by omega))
      cases hfind₂ : findSfiTable s.mem (mmapSearch (sfiTableAt s.mem syst)) (n₁ + n₂) with
      | none => exact absurd hfind₂ (h₂ _ (by omega))
      | some r =>
        cases r with
        | none =>
          refine ⟨n₁ + n₂, ?_⟩
          unfold getE820TableFromSfi
          rw [hfirst]
          dsimp only
          rw [hfind₂]
          exact Option.some_ne_none _
        | some t =>
          obtain ⟨hdr, hhdr, rfl⟩ := findSfiTable_some hfind₂
          obtain ⟨fuel, r, hrun, _⟩ := getE820TableFromSfi_found hsyst hhdr
          exact ⟨fuel, by rw [hrun]; exact Option.some_ne_none _⟩

end run

/-- With the descriptors outside the page, the conversion does what it should exactly when the table of
pointers is bounded and the page has room. -/
theorem sfiConverts_iff (s : Machine) (hout : SfiOutside s) :
    SfiConverts s ↔ ∀ syst, systSearch.Finds s.mem syst → SfiBounded s syst := by
  constructor
  · intro h syst hsyst
    exact ⟨(mmapSearch_ends_iff s.mem _).mp (h.ends_mmap hsyst), fun hdr hhdr hserved =>
      h.room hsyst hhdr hserved⟩
  · intro h
    constructor
    · exact getE820TableFromSfi_ends fun syst hsyst =>
        (mmapSearch_ends_iff s.mem _).mpr (h syst hsyst).stops
    · intro fuel s' e820 hrun
      obtain ⟨syst, hdr, m, hsyst, hhdr, hpage, hserved, hloop, hmem⟩ := getE820TableFromSfi_some hrun
      have hroom := (h syst hsyst).room hdr hhdr (hpage ▸ hserved)
      exact ⟨syst, hdr, hsyst, hhdr,
        SfiConverted.of_room hout hsyst hhdr hroom hpage hserved hloop hmem⟩

/-- A system table at 0xe0000 with one pointer, which leads to a memory map of `len` bytes; its first
descriptor is of conventional memory. -/
def sfiMem (len : BitVec 32) : Memory 32 :=
  let mem : Memory 32 := fun _ => 0
  let mem := mem.setField 0xe0000 0 SYST
  let mem := mem.setField 0xe0000 4 (32 : BitVec 32)
  let mem := mem.setField 0xe0018 0 (0xe0100 : BitVec 32)
  let mem := mem.setField 0xe0100 0 MMAP
  let mem := mem.setField 0xe0100 4 len
  let mem := mem.setField 0xe0118 0 (7 : BitVec 32)
  let mem := mem.setField 0xe0118 4 (0x100000 : BitVec 64)
  mem.setField 0xe0118 20 (0x100 : BitVec 64)

def sfiMachine (len : BitVec 32) : Machine := initializeMemoryManager (sfiMem len) 0x200000 0x2000

/-- A map of two descriptors, and one of 171. -/
def smallSfi : Machine := sfiMachine 96

def crowdedSfi : Machine := sfiMachine 6180

example : SfiHeader.len smallSfi.mem 0xe0100 = 96 := by decide +kernel

/-- Both tables are found at the first place that is looked at. -/
theorem smallSfi_tables : systSearch.Finds smallSfi.mem 0xe0000 ∧
    (mmapSearch (sfiTableAt smallSfi.mem 0xe0000)).Finds smallSfi.mem 0xe0100 ∧
    SfiHeader.len smallSfi.mem 0xe0100 = 96 := by
  refine ⟨⟨0, ⟨by decide, ?_, by decide⟩, ?_⟩, ⟨0, ⟨?_, ?_, by decide⟩, ?_⟩, ?_⟩
  all_goals decide +kernel

theorem crowdedSfi_tables : systSearch.Finds crowdedSfi.mem 0xe0000 ∧
    (mmapSearch (sfiTableAt crowdedSfi.mem 0xe0000)).Finds crowdedSfi.mem 0xe0100 ∧
    (sfiTableAt crowdedSfi.mem 0xe0100).cnt = 171 := by
  refine ⟨⟨0, ⟨by decide, ?_, by decide⟩, ?_⟩, ⟨0, ⟨?_, ?_, by decide⟩, ?_⟩, ?_⟩
  all_goals decide +kernel

theorem smallSfi_table : sfiTableAt smallSfi.mem 0xe0100 = ⟨0xe0118, 72⟩ := by
  unfold sfiTableAt
  rw [smallSfi_tables.2.2]
  rfl

theorem sfiConverts_small : SfiConverts smallSfi := by
  obtain ⟨hfinds, hmap, -⟩ := smallSfi_tables
  refine (sfiConverts_iff smallSfi fun syst hdr hsyst hhdr _ _ i hi => ?_).mpr fun syst hsyst => ?_
  · obtain rfl := hfinds.unique hsyst
    obtain rfl := hmap.unique hhdr
    have hpage : (monPageAlloc smallSfi 1).2 = 0x200000 := by decide
    rw [smallSfi_table] at hi ⊢
    rw [hpage]
    have hi : i < 2 := hi
    obtain rfl | rfl : i = 0 ∨ i = 1 := by omega
    · exact (apart_of_le (by decide) (by decide)).symm
    · exact (apart_of_le (by decide) (by decide)).symm
  · obtain rfl := hfinds.unique hsyst
    refine ⟨.inl (by decide +kernel), fun hdr hhdr _ => ?_⟩
    obtain rfl := hmap.unique hhdr
    rw [smallSfi_table]
    decide

/-- One descriptor more than fits: its entry leaves the page. -/
theorem crowdedSfi_leaves_page : (sfiTableAt crowdedSfi.mem 0xe0100).cnt = 171 ∧
    ¬ SfiConverts crowdedSfi := by
  obtain ⟨hsyst, hmap, hcnt⟩ := crowdedSfi_tables
  refine ⟨hcnt, fun h => ?_⟩
  have hroom := h.room hsyst hmap (by decide)
  rw [hcnt] at hroom
  exact absurd hroom (by decide)

end IkgtLoader
