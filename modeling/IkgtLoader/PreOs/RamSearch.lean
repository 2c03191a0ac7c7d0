import Mathlib.Data.List.MinMax
import Mathlib.Data.List.TakeWhile
import IkgtLoader.PreOs.LinuxLoader

/-! Which record `get_highest_sized_ram` settles on: it stops at the first AVAILABLE record that
ends above the limit, and takes the one with the highest base before it. -/
namespace IkgtLoader
open Flat Loop

namespace MemoryMap

/-- An AVAILABLE record that ends above the limit, where ends are taken modulo `2 ^ 64`. -/
def Over (limit : ℕ) (r : MemoryMap) : Prop :=
  r.type = MULTIBOOT_MEMORY_AVAILABLE ∧ limit < r.stop.toNat

instance (limit : ℕ) (r : MemoryMap) : Decidable (r.Over limit) :=
  inferInstanceAs (Decidable (_ ∧ _))

/-- An AVAILABLE record of the size that does not begin at zero. -/
def Fits (size : ℕ) (r : MemoryMap) : Prop :=
  r.type = MULTIBOOT_MEMORY_AVAILABLE ∧ size ≤ r.len.toNat ∧ 0 < r.addr.toNat

instance (size : ℕ) (r : MemoryMap) : Decidable (r.Fits size) :=
  inferInstanceAs (Decidable (_ ∧ _ ∧ _))

end MemoryMap

/-- The records before the first that ends above the limit. -/
def searched (limit : ℕ) (map : List MemoryMap) : List MemoryMap :=
  map.takeWhile fun r => ¬ r.Over limit

/-- Of those that fit the one with the highest base, and of equal bases the first. -/
def highestFit (size : ℕ) (map : List MemoryMap) : Option MemoryMap :=
  (map.filter fun r => r.Fits size).argmax fun r => r.addr.toNat

/-- The record as a base and a size, zeros for none. -/
def regionOf : Option MemoryMap → BitVec 64 × BitVec 64
  | none => (0, 0)
  | some r => (r.addr, r.len)

section search
variable {size limit : BitVec 64} {mem : Memory 32} {mmap : BitVec 32} {map : List MemoryMap}
  {r : MemoryMap}

theorem highestFit_concat_of_fits (h : r.Fits size.toNat) : highestFit size.toNat (map ++ [r]) =
    if (regionOf (highestFit size.toNat map)).1 < r.addr then some r
    else highestFit size.toNat map := by
  unfold highestFit
  rw [List.filter_append, List.filter_singleton, decide_eq_true h]
  change List.argmax _ (_ ++ [r]) = _
  rw [List.argmax_concat]
  cases List.argmax (fun r => r.addr.toNat) (map.filter fun r => r.Fits size.toNat) with
  | none =>
    unfold regionOf
    exact (if_pos h.2.2).symm
  | some c => rfl

theorem highestFit_concat_of_not_fits (h : ¬ r.Fits size.toNat) :
    highestFit size.toNat (map ++ [r]) = highestFit size.toNat map := by
  unfold highestFit
  rw [List.filter_append, List.filter_singleton, decide_eq_false h]
  change List.argmax _ (_ ++ []) = _
  rw [List.append_nil]

/-- One round takes the record into account, or stops the search. -/
theorem highestStep_spec (i : ℕ) :
    highestStep mem mmap size limit i (regionOf (highestFit size.toNat map)) =
      if (readMap mem (mapEntry mmap i)).Over limit.toNat then
        .quit (regionOf (highestFit size.toNat map))
      else .next (regionOf (highestFit size.toNat (map ++ [readMap mem (mapEntry mmap i)]))) := by
  unfold highestStep
  dsimp only
  generalize readMap mem (mapEntry mmap i) = r
  by_cases ht : r.type ≠ MULTIBOOT_MEMORY_AVAILABLE
  · have hno : ¬ r.Over limit.toNat := fun ho => ht ho.1
    rw [if_pos ht, if_neg hno, highestFit_concat_of_not_fits fun hf => ht hf.1]
  rw [if_neg ht]
  by_cases hover : limit < r.stop
  · rw [if_pos hover, if_pos ⟨not_not.mp ht, hover⟩]
  have hno : ¬ r.Over limit.toNat := fun ho => hover ho.2
  rw [if_neg hover, if_neg hno]
  by_cases hfit : r.Fits size.toNat
  · rw [highestFit_concat_of_fits hfit]
    by_cases hlt : (regionOf (highestFit size.toNat map)).1 < r.addr
    · rw [if_pos ⟨hfit.2.1, hlt⟩, if_pos hlt]
      rfl
    · have hne : ¬ (size ≤ r.len ∧ (regionOf (highestFit size.toNat map)).1 < r.addr) :=
        fun h => hlt h.2
      rw [if_neg hne, if_neg hlt]
  · rw [highestFit_concat_of_not_fits hfit, if_neg]
    rintro ⟨hs, hlt⟩
    exact hfit ⟨not_not.mp ht, hs, Nat.lt_of_le_of_lt (Nat.zero_le _) hlt⟩

theorem takeWhile_range {p : MemoryMap → Bool} (f : ℕ → MemoryMap) {i n : ℕ} (hi : i ≤ n)
    (hp : ∀ k < i, p (f k)) (hend : i = n ∨ ¬ p (f i)) :
    ((List.range n).map f).takeWhile p = (List.range i).map f := by
  obtain ⟨k, rfl⟩ := Nat.exists_eq_add_of_le hi
  rw [List.range_add, List.map_append, List.takeWhile_append_of_pos]
  · rcases hend with he | hn
    · have h0 : k = 0 := by omega
      subst h0
      simp
    · cases k with
      | zero => simp
      | succ k =>
        rw [List.range_succ_eq_map]
        simp [hn]
  · intro a ha
    obtain ⟨k, hk, rfl⟩ := List.mem_map.mp ha
    exact hp k (List.mem_range.mp hk)

/-- The region that is found is the highest that fits among the records before the limit. -/
theorem getHighestSizedRam_eq (mem : Memory 32) (mbi : BitVec 32) (size limit : BitVec 64) :
    getHighestSizedRam mem mbi size limit =
      regionOf (highestFit size.toNat (searched limit.toNat (recordsOf mem mbi))) := by
  unfold getHighestSizedRam recordsOf
  dsimp only
  generalize (MultibootInfo.mmapLength mem mbi).toNat / memoryMapSize = n
  generalize MultibootInfo.mmapAddr mem mbi = mmap
  let I : ℕ → BitVec 64 × BitVec 64 → Prop := fun i acc => i ≤ n ∧
    (∀ k < i, ¬ (readMap mem (mapEntry mmap k)).Over limit.toNat) ∧
      acc = regionOf (highestFit size.toNat ((List.range i).map fun k =>
        readMap mem (mapEntry mmap k)))
  have hstop : ∀ i acc, I i acc → (i = n ∨ (readMap mem (mapEntry mmap i)).Over limit.toNat) →
      acc = regionOf (highestFit size.toNat (searched limit.toNat ((List.range n).map fun k =>
        readMap mem (mapEntry mmap k)))) := by
    rintro i acc ⟨hi, hover, rfl⟩ hend
    unfold searched
    rw [takeWhile_range _ hi (by simpa using hover) (by simpa using hend)]
  have hbody : ∀ i acc, i < n → I i acc → (highestStep mem mmap size limit i acc).All (I (i + 1))
      (fun acc => acc = regionOf (highestFit size.toNat (searched limit.toNat
        ((List.range n).map fun k => readMap mem (mapEntry mmap k))))) (fun _ => False) := by
    intro i acc hi hI
    obtain ⟨_, hover, he⟩ := hI
    rw [he, highestStep_spec]
    split
    next ho => exact hstop i _ ⟨by omega, hover, rfl⟩ (.inr ho)
    next ho =>
      refine ⟨hi, ?_, ?_⟩
      · intro k hk
        rcases Nat.lt_succ_iff_lt_or_eq.mp hk with hlt | rfl
        · exact hover k hlt
        · exact ho
      · rw [List.range_succ, List.map_append]
        rfl
  have h0 : I 0 (0, 0) := ⟨Nat.zero_le n, fun k hk => absurd hk (Nat.not_lt_zero k), rfl⟩
  have hall : (Loop.run (fun i _ => i < n) (highestStep mem mmap size limit) n 0 (0, 0)).All _ _ _ :=
    run_all I _ _ hbody h0
  cases hr : Loop.run (fun i _ => i < n) (highestStep mem mmap size limit) n 0 (0, 0) with
  | next t =>
    rw [hr] at hall
    obtain ⟨j, _, hI, hn⟩ := hall
    exact hstop j t hI (.inl (by have := hI.1; omega))
  | quit t =>
    rw [hr] at hall
    exact hall
  | spent t =>
    rw [hr] at hall
    rcases hall with hf | ⟨j, rfl, hI, hc⟩
    · exact hf.elim
    · omega

end search

/-- A record that was chosen is in the map, AVAILABLE, of the size and below the limit. -/
theorem highestFit_mem {size limit : ℕ} {map : List MemoryMap} {r : MemoryMap}
    (h : highestFit size (searched limit map) = some r) :
    r ∈ map ∧ r.Fits size ∧ r.stop.toNat ≤ limit := by
  have hm := List.argmax_mem h
  rw [List.mem_filter] at hm
  have hf : r.Fits size := by simpa using hm.2
  have ho : ¬ r.Over limit := by simpa using List.mem_takeWhile_imp hm.1
  refine ⟨(List.takeWhile_sublist _).subset hm.1, hf, ?_⟩
  by_contra hlt
  exact ho ⟨hf.1, by omega⟩

end IkgtLoader
