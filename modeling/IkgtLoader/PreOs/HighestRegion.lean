import Mathlib.Data.List.Nodup
import IkgtLoader.PreOs.RamSearch

/-! When `get_highest_sized_ram` finds the highest region of the map: the search is over at the
first record above the limit, wherever this stands, and takes ends modulo `2 ^ 64`. -/
namespace IkgtLoader
open Flat

namespace MemoryMap

/-- An AVAILABLE record of the size, not from zero on, that ends below the limit. -/
structure Usable (size limit : ℕ) (r : MemoryMap) : Prop where
  type : r.type = MULTIBOOT_MEMORY_AVAILABLE
  base : 0 < r.addr.toNat
  size : size ≤ r.len.toNat
  stop : r.addr.toNat + r.len.toNat ≤ limit

/-- The end is no 64-bit number. -/
def Wraps (r : MemoryMap) : Prop := 2 ^ 64 ≤ r.addr.toNat + r.len.toNat

end MemoryMap

/-- Base and length of a usable record with the greatest base, zeros if there is no such record. -/
def Highest (size limit : ℕ) (map : List MemoryMap) (region : BitVec 64 × BitVec 64) : Prop :=
  (∃ r ∈ map, r.Usable size limit ∧ (∀ q ∈ map, q.Usable size limit → q.addr.toNat ≤ r.addr.toNat) ∧
      region = (r.addr, r.len)) ∨
    (∀ r ∈ map, ¬ r.Usable size limit) ∧ region = (0, 0)

/-- No usable record behind the first one above the limit is higher than those before it, and no
record that wraps is chosen among these. -/
structure SearchSuffices (size limit : ℕ) (map : List MemoryMap) : Prop where
  behind : ∀ r ∈ map, r.Usable size limit →
    ∃ q ∈ searched limit map, q.Usable size limit ∧ r.addr.toNat ≤ q.addr.toNat
  wrapped : ∀ before r after, searched limit map = before ++ r :: after → r.Fits size → r.Wraps →
    (∃ q ∈ searched limit map, q.Usable size limit ∧ r.addr.toNat < q.addr.toNat) ∨
      ∃ q ∈ before, q.Usable size limit ∧ q.addr.toNat = r.addr.toNat

section highest
variable {size limit : ℕ} {map map' : List MemoryMap} {region region' : BitVec 64 × BitVec 64}
  {r : MemoryMap}

/-- The order of the records does not matter to what the highest region is. -/
theorem Highest.of_perm (h : map.Perm map') (hr : Highest size limit map region) :
    Highest size limit map' region := by
  unfold Highest at *
  simpa only [h.mem_iff] using hr

/-- There is one highest region if the bases are distinct. -/
theorem Highest.unique (hbases : (map.map MemoryMap.addr).Nodup)
    (h : Highest size limit map region) (h' : Highest size limit map region') : region = region' := by
  rcases h with ⟨r, hr, hu, hmax, rfl⟩ | ⟨hnone, rfl⟩
  · rcases h' with ⟨q, hq, hu', hmax', rfl⟩ | ⟨hnone, rfl⟩
    · have haddr : r.addr = q.addr :=
        BitVec.eq_of_toNat_eq (Nat.le_antisymm (hmax' r hr hu) (hmax q hq hu'))
      rw [List.inj_on_of_nodup_map hbases hr hq haddr]
    · exact absurd hu (hnone r hr)
  · rcases h' with ⟨q, hq, hu', -, rfl⟩ | ⟨-, rfl⟩
    · exact absurd hu' (hnone q hq)
    · rfl

theorem MemoryMap.Usable.fits (h : r.Usable size limit) : r.Fits size := ⟨h.type, h.size, h.base⟩

theorem searched_subset : searched limit map ⊆ map := (List.takeWhile_sublist _).subset

/-- A record that is searched and fits is usable, unless it wraps. -/
theorem usable_of_searched (h : r ∈ searched limit map) (hf : r.Fits size) (hw : ¬ r.Wraps) :
    r.Usable size limit := by
  have hover : ¬ r.Over limit := by simpa using List.mem_takeWhile_imp h
  refine ⟨hf.1, hf.2.2, hf.2.1, ?_⟩
  unfold MemoryMap.Wraps at hw
  have hstop : r.stop.toNat = r.addr.toNat + r.len.toNat := by
    rw [toNat_stop, Nat.mod_eq_of_lt (Nat.lt_of_not_le hw)]
  rw [← hstop]
  exact Nat.le_of_not_lt fun hlt => hover ⟨hf.1, hlt⟩

end highest

/-- What the search keeps: the first of the records that fit with the highest base. -/
theorem highestFit_first (size : BitVec 64) (map : List MemoryMap) :
    match highestFit size.toNat map with
    | none => ∀ q ∈ map, ¬ q.Fits size.toNat
    | some r => ∃ before after, map = before ++ r :: after ∧ r.Fits size.toNat ∧
        (∀ q ∈ before, q.Fits size.toNat → q.addr.toNat < r.addr.toNat) ∧
        ∀ q ∈ map, q.Fits size.toNat → q.addr.toNat ≤ r.addr.toNat := by
  induction map using List.reverseRecOn with
  | nil => simp [highestFit]
  | append_singleton map r ih =>
    by_cases hf : r.Fits size.toNat
    · rw [highestFit_concat_of_fits hf]
      cases hm : highestFit size.toNat map with
      | none =>
        rw [hm] at ih
        have hlt : (regionOf none).1 < r.addr := hf.2.2
        rw [if_pos hlt]
        refine ⟨map, [], rfl, hf, fun q hq hq' => absurd hq' (ih q hq), ?_⟩
        intro q hq hq'
        rcases List.mem_append.mp hq with hq | hq
        · exact absurd hq' (ih q hq)
        · rw [List.mem_singleton.mp hq]
      | some m =>
        rw [hm] at ih
        obtain ⟨before, after, hmap, hfm, hbefore, hmax⟩ := ih
        change match (if m.addr < r.addr then some r else some m) with | none => _ | some r => _
        by_cases hlt : m.addr < r.addr
        · rw [if_pos hlt]
          refine ⟨map, [], rfl, hf, fun q hq hq' => ?_, ?_⟩
          · exact Nat.lt_of_le_of_lt (hmax q hq hq') (BitVec.lt_def.mp hlt)
          · intro q hq hq'
            rcases List.mem_append.mp hq with hq | hq
            · exact Nat.le_of_lt (Nat.lt_of_le_of_lt (hmax q hq hq') (BitVec.lt_def.mp hlt))
            · rw [List.mem_singleton.mp hq]
        · rw [if_neg hlt]
          refine ⟨before, after ++ [r], by simp [hmap], hfm, hbefore, ?_⟩
          intro q hq hq'
          rcases List.mem_append.mp hq with hq | hq
          · exact hmax q hq hq'
          · rw [List.mem_singleton.mp hq]
            exact Nat.le_of_not_lt fun h => hlt (BitVec.lt_def.mpr h)
    · rw [highestFit_concat_of_not_fits hf]
      have hr : ∀ q ∈ [r], ¬ q.Fits size.toNat := by simpa using hf
      cases hm : highestFit size.toNat map with
      | none =>
        rw [hm] at ih
        intro q hq
        exact (List.mem_append.mp hq).elim (ih q) (hr q)
      | some m =>
        rw [hm] at ih
        obtain ⟨before, after, hmap, hfm, hbefore, hmax⟩ := ih
        refine ⟨before, after ++ [r], by simp [hmap], hfm, hbefore, ?_⟩
        intro q hq hq'
        exact (List.mem_append.mp hq).elim (fun hq => hmax q hq hq') fun hq => absurd hq' (hr q hq)

section search
variable {size limit : BitVec 64} {map : List MemoryMap}

/-- The first of the highest is the highest region exactly if the search suffices. -/
theorem highest_regionOf_iff :
    Highest size.toNat limit.toNat map
        (regionOf (highestFit size.toNat (searched limit.toNat map))) ↔
      SearchSuffices size.toNat limit.toNat map := by
  have hfirst := highestFit_first size (searched limit.toNat map)
  cases hm : highestFit size.toNat (searched limit.toNat map) with
  | none =>
    rw [hm] at hfirst
    constructor
    · rintro (⟨r, _, hu, _, he⟩ | ⟨hnone, _⟩)
      · have haddr : r.addr = 0 := (congrArg Prod.fst he).symm
        have hbase := hu.base
        rw [haddr] at hbase
        exact absurd hbase (lt_irrefl 0)
      · refine ⟨fun r hr hu => absurd hu (hnone r hr), ?_⟩
        intro before r after he hf
        exact absurd hf (hfirst r (by rw [he]; simp))
    · intro hs
      refine .inr ⟨fun r hr hu => ?_, rfl⟩
      obtain ⟨q, hq, hu', _⟩ := hs.behind r hr hu
      exact hfirst q hq hu'.fits
  | some m =>
    rw [hm] at hfirst
    obtain ⟨before, after, hsplit, hf, hbefore, hmax⟩ := hfirst
    have hin : m ∈ searched limit.toNat map := by simp [hsplit]
    constructor
    · intro hh
      -- the record that is found is one that may be found
      obtain ⟨g, _, hu, hbest, he⟩ : ∃ g ∈ map, g.Usable size.toNat limit.toNat ∧
          (∀ q ∈ map, q.Usable size.toNat limit.toNat → q.addr.toNat ≤ g.addr.toNat) ∧
          regionOf (some m) = (g.addr, g.len) := by
        rcases hh with hg | ⟨_, he⟩
        · exact hg
        · have haddr : m.addr = 0 := congrArg Prod.fst he
          have hbase := hf.2.2
          rw [haddr] at hbase
          exact absurd hbase (lt_irrefl 0)
      have haddr : m.addr = g.addr := congrArg Prod.fst he
      have hlen : m.len = g.len := congrArg Prod.snd he
      have hum : m.Usable size.toNat limit.toNat := by
        refine ⟨hf.1, hf.2.2, hf.2.1, ?_⟩
        rw [haddr, hlen]
        exact hu.stop
      constructor
      · intro r hr hr'
        refine ⟨m, hin, hum, ?_⟩
        rw [haddr]
        exact hbest r hr hr'
      · intro before' r after' hsplit' hfr hw
        have hne : r ≠ m := by
          rintro rfl
          have hstop := hum.stop
          have hlimit := limit.isLt
          unfold MemoryMap.Wraps at hw
          omega
        rcases Nat.lt_or_eq_of_le (hmax r (by simp [hsplit']) hfr) with hlt | heq
        · exact .inl ⟨m, hin, hum, hlt⟩
        · refine .inr ⟨m, ?_, hum, heq.symm⟩
          -- with the same base it stands behind the record that is found
          rw [hsplit] at hsplit'
          rcases List.append_eq_append_iff.mp hsplit' with ⟨l, rfl, hl⟩ | ⟨l, rfl, hl⟩
          · cases l with
            | nil => exact absurd (List.cons.inj hl).1.symm hne
            | cons q l =>
              rw [← (List.cons.inj hl).1]
              simp
          · cases l with
            | nil => exact absurd (List.cons.inj hl).1 hne
            | cons q l =>
              have hq := (List.cons.inj hl).1
              subst hq
              exact absurd heq (Nat.ne_of_lt (hbefore r (by simp) hfr))
    · intro hs
      have hum : m.Usable size.toNat limit.toNat := by
        apply usable_of_searched hin hf
        intro hw
        rcases hs.wrapped before m after hsplit hf hw with ⟨q, hq, hu, hlt⟩ | ⟨q, hq, hu, heq⟩
        · exact absurd hlt (Nat.not_lt.mpr (hmax q hq hu.fits))
        · exact absurd heq (Nat.ne_of_lt (hbefore q hq hu.fits))
      refine .inl ⟨m, searched_subset hin, hum, ?_, rfl⟩
      intro r hr hu
      obtain ⟨q, hq, hu', hle⟩ := hs.behind r hr hu
      exact hle.trans (hmax q hq hu'.fits)

end search

/-- The highest region is found exactly if the search suffices, and then in any order of records
with distinct bases. -/
theorem getHighestSizedRam_highest_iff (mem : Memory 32) (mbi : BitVec 32) (size limit : BitVec 64) :
    (Highest size.toNat limit.toNat (recordsOf mem mbi) (getHighestSizedRam mem mbi size limit) ↔
      SearchSuffices size.toNat limit.toNat (recordsOf mem mbi)) ∧
    ∀ mem' mbi', (recordsOf mem mbi).Perm (recordsOf mem' mbi') →
      ((recordsOf mem mbi).map MemoryMap.addr).Nodup →
      SearchSuffices size.toNat limit.toNat (recordsOf mem mbi) →
      SearchSuffices size.toNat limit.toNat (recordsOf mem' mbi') →
      getHighestSizedRam mem mbi size limit = getHighestSizedRam mem' mbi' size limit := by
  constructor
  · rw [getHighestSizedRam_eq]
    exact highest_regionOf_iff
  · intro mem' mbi' hperm hbases hs hs'
    rw [getHighestSizedRam_eq, getHighestSizedRam_eq]
    exact (highest_regionOf_iff.mpr hs).unique hbases
      ((highest_regionOf_iff.mpr hs').of_perm hperm.symm)

/-- AVAILABLE records at 1 MB, from 2 MB to above 4 GB, and at 1 GB. -/
def overLimitMem : Memory 32 :=
  let mem : Memory 32 := fun _ => 0
  let mem := mem.setField 0x100 44 (72 : BitVec 32)
  let mem := mem.setField 0x100 48 (0x200 : BitVec 32)
  let mem := mem.setField 0x200 4 (0x100000 : BitVec 64)
  let mem := mem.setField 0x200 12 (0x1000 : BitVec 64)
  let mem := mem.setField 0x200 20 MULTIBOOT_MEMORY_AVAILABLE
  let mem := mem.setField 0x218 4 (0x100000000 : BitVec 64)
  let mem := mem.setField 0x218 12 (0x1000 : BitVec 64)
  let mem := mem.setField 0x218 20 MULTIBOOT_MEMORY_AVAILABLE
  let mem := mem.setField 0x230 4 (0x40000000 : BitVec 64)
  let mem := mem.setField 0x230 12 (0x1000 : BitVec 64)
  mem.setField 0x230 20 MULTIBOOT_MEMORY_AVAILABLE

/-- The record above 4 GB hides the one behind it. -/
theorem getHighestSizedRam_over_limit :
    getHighestSizedRam overLimitMem 0x100 0x1000 0x100000000 = (0x100000, 0x1000) ∧
      ¬ Highest 0x1000 0x100000000 (recordsOf overLimitMem 0x100)
        (getHighestSizedRam overLimitMem 0x100 0x1000 0x100000000) := by
  have hrecords : recordsOf overLimitMem 0x100 =
      [⟨0, 0x100000, 0x1000, MULTIBOOT_MEMORY_AVAILABLE⟩,
        ⟨0, 0x100000000, 0x1000, MULTIBOOT_MEMORY_AVAILABLE⟩,
        ⟨0, 0x40000000, 0x1000, MULTIBOOT_MEMORY_AVAILABLE⟩] := by decide +kernel
  have hfound : getHighestSizedRam overLimitMem 0x100 0x1000 0x100000000 = (0x100000, 0x1000) := by
    decide +kernel
  have hhigher : MemoryMap.Usable 0x1000 0x100000000
      ⟨0, 0x40000000, 0x1000, MULTIBOOT_MEMORY_AVAILABLE⟩ :=
    ⟨rfl, by decide, by decide, by decide⟩
  refine ⟨hfound, ?_⟩
  rw [hfound, hrecords]
  rintro (⟨r, _, _, hbest, he⟩ | ⟨hnone, _⟩)
  · have haddr : (0x100000 : BitVec 64) = r.addr := congrArg Prod.fst he
    have hle := hbest _ (by simp) hhigher
    rw [← haddr] at hle
    exact absurd hle (by decide)
  · exact hnone _ (by simp) hhigher

end IkgtLoader
