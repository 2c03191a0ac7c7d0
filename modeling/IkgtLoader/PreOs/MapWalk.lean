import Mathlib.Algebra.BigOperators.Group.List.Basic
import Mathlib.Algebra.GroupWithZero.Nat
import Mathlib.Logic.Function.Iterate
import IkgtLoader.PreOs.Multiboot

/-! The walk over a memory map along the sizes that its records state. Every step is taken in 32-bit
arithmetic, so that a walk over any content goes on until it happens to leave the map. -/
namespace IkgtLoader
open Flat

/-- Where the size of a record puts the next one. -/
def nextRecord (mem : Memory 32) (mmap : BitVec 32) : BitVec 32 := mmap + (readMap mem mmap).size + 4

/-- The place of the record `k` of the walk. -/
def recordAt (mem : Memory 32) (start : BitVec 32) (k : ℕ) : BitVec 32 := (nextRecord mem)^[k] start

/-- The records before `n`. -/
def recordsFrom (mem : Memory 32) (start : BitVec 32) (n : ℕ) : List MemoryMap :=
  (List.range n).map fun k => readMap mem (recordAt mem start k)

/-- The walk leaves the map at `k`, and not before. -/
def WalkEnds (mem : Memory 32) (start stop : BitVec 32) (k : ℕ) : Prop :=
  (∀ j < k, recordAt mem start j < stop) ∧ ¬ recordAt mem start k < stop

/-- The bytes that a list of records takes. -/
def extent (l : List MemoryMap) : ℕ := (l.map fun r => r.size.toNat + 4).sum

/-- `n` records of any size from 20 on fill `length` bytes. -/
structure TiledBy (mem : Memory 32) (start : BitVec 32) (length n : ℕ) : Prop where
  size : ∀ r ∈ recordsFrom mem start n, 20 ≤ r.size.toNat
  length : extent (recordsFrom mem start n) = length

section walk
variable {m m' : Memory 32} {start stop p : BitVec 32} {length n k : ℕ}

@[simp] theorem recordAt_zero (m : Memory 32) (start : BitVec 32) : recordAt m start 0 = start := rfl

theorem recordAt_succ (m : Memory 32) (start : BitVec 32) (k : ℕ) :
    recordAt m start (k + 1) = nextRecord m (recordAt m start k) :=
  Function.iterate_succ_apply' _ _ _

theorem recordsFrom_succ (m : Memory 32) (start : BitVec 32) (n : ℕ) :
    recordsFrom m start (n + 1) = recordsFrom m start n ++ [readMap m (recordAt m start n)] := by
  unfold recordsFrom
  rw [List.range_succ, List.map_append]
  rfl

theorem readMap_mem_recordsFrom (hk : k < n) :
    readMap m (recordAt m start k) ∈ recordsFrom m start n :=
  List.mem_map_of_mem (List.mem_range.mpr hk)

@[simp] theorem length_recordsFrom (m : Memory 32) (start : BitVec 32) (n : ℕ) :
    (recordsFrom m start n).length = n := by
  unfold recordsFrom
  rw [List.length_map, List.length_range]

theorem extent_succ (m : Memory 32) (start : BitVec 32) (n : ℕ) :
    extent (recordsFrom m start (n + 1)) =
      extent (recordsFrom m start n) + ((readMap m (recordAt m start n)).size.toNat + 4) := by
  unfold extent
  rw [recordsFrom_succ, List.map_append, List.sum_append]
  simp

theorem extent_mono (hk : k ≤ n) :
    extent (recordsFrom m start k) ≤ extent (recordsFrom m start n) := by
  induction n, hk using Nat.le_induction with
  | base => exact le_rfl
  | succ n _ ih =>
    rw [extent_succ]
    omega

/-- The walk as a distance from its beginning. -/
theorem recordAt_eq (m : Memory 32) (start : BitVec 32) (k : ℕ) :
    recordAt m start k = start + BitVec.ofNat 32 (extent (recordsFrom m start k)) := by
  induction k with
  | zero => exact (BitVec.add_zero start).symm
  | succ k ih =>
    have hsize : BitVec.ofNat 32 (readMap m (recordAt m start k)).size.toNat =
        (readMap m (recordAt m start k)).size := by
      rw [BitVec.ofNat_toNat, BitVec.setWidth_eq]
    rw [recordAt_succ, extent_succ, BitVec.ofNat_add, BitVec.ofNat_add, hsize]
    unfold nextRecord
    rw [← BitVec.add_assoc, ← BitVec.add_assoc, ← ih]
    rfl

/-- A step reads the size only. -/
theorem nextRecord_congr (h : Memory.Same m p m' p 4) : nextRecord m p = nextRecord m' p := by
  have hsize : m.field 32 p 0 = m'.field 32 p 0 := Memory.field_congr h (by decide)
  unfold nextRecord readMap
  dsimp only
  rw [hsize]

/-- Where the sizes are the same, so is the walk. -/
theorem recordAt_congr (h : ∀ j < k, Memory.Same m' (recordAt m start j) m (recordAt m start j) 4) :
    recordAt m' start k = recordAt m start k := by
  induction k with
  | zero => rfl
  | succ k ih =>
    rw [recordAt_succ, recordAt_succ, ih fun j hj => h j (by omega)]
    exact nextRecord_congr (h k (by omega))

end walk

namespace TiledBy
variable {m m' : Memory 32} {start : BitVec 32} {length n k : ℕ}

theorem extent_le (h : TiledBy m start length n) (hk : k ≤ n) :
    extent (recordsFrom m start k) ≤ length := h.length ▸ extent_mono hk

/-- A record takes 24 bytes or more, so that it lies in the map with all its fields. -/
theorem extent_add_le (h : TiledBy m start length n) (hk : k < n) :
    extent (recordsFrom m start k) + memoryMapSize ≤ length := by
  have hle := h.extent_le (show k + 1 ≤ n from hk)
  have hsize := h.size _ (readMap_mem_recordsFrom hk)
  rw [extent_succ] at hle
  unfold memoryMapSize
  omega

theorem mul_le_extent (h : TiledBy m start length n) (hk : k ≤ n) :
    k * memoryMapSize ≤ extent (recordsFrom m start k) := by
  induction k with
  | zero => exact Nat.zero_le _
  | succ k ih =>
    have hsize := h.size _ (readMap_mem_recordsFrom hk)
    have hle := ih (by omega)
    rw [extent_succ]
    unfold memoryMapSize at *
    omega

theorem mul_le (h : TiledBy m start length n) : n * memoryMapSize ≤ length :=
  (h.mul_le_extent le_rfl).trans_eq h.length

theorem inSpan (h : TiledBy m start length n) (hk : k < n) (hfit : length ≤ 2 ^ 32) {x : BitVec 32}
    (hx : InSpan (recordAt m start k) memoryMapSize x) : InSpan start length x := by
  rw [recordAt_eq] at hx
  exact hx.of_offset (h.extent_add_le hk) hfit

/-- The walk is in the map before the last record, and leaves it behind. -/
theorem lt_stop_iff (h : TiledBy m start length n) (hfit : start.toNat + length < 2 ^ 32)
    (hk : k ≤ n) : recordAt m start k < start + BitVec.ofNat 32 length ↔ k < n := by
  have hle := h.extent_le hk
  rw [recordAt_eq, BitVec.lt_def, BitVec.toNat_add, BitVec.toNat_add, toNat_ofNat_of_lt (by omega),
    toNat_ofNat_of_lt (by omega), Nat.mod_eq_of_lt (by omega), Nat.mod_eq_of_lt (by omega)]
  constructor
  · intro hlt
    rcases Nat.lt_or_ge k n with hkn | hge
    · exact hkn
    · have hlen := h.length
      rw [← Nat.le_antisymm hk hge] at hlen
      omega
  · intro hkn
    have hadd := h.extent_add_le hkn
    unfold memoryMapSize at hadd
    omega

theorem lt_of_forall_lt (h : TiledBy m start length n) (hfit : start.toNat + length < 2 ^ 32)
    (hk : ∀ i ≤ k, recordAt m start i < start + BitVec.ofNat 32 length) : k < n := by
  rcases Nat.lt_or_ge k n with hlt | hge
  · exact hlt
  · exact absurd ((h.lt_stop_iff hfit le_rfl).mp (hk n hge)) (lt_irrefl n)

/-- A record is still there where the map has not been changed. -/
theorem readMap_eq (h : TiledBy m start length n) (hfit : length ≤ 2 ^ 32)
    (hsame : ∀ x, InSpan start length x → m' x = m x) (hk : k < n) :
    readMap m' (recordAt m start k) = readMap m (recordAt m start k) := by
  apply readMap_congr
  apply Memory.Same.of_unchanged _ (by decide)
  exact fun x hx => hsame x (h.inSpan hk hfit hx)

theorem recordAt_eq_of_same (h : TiledBy m start length n) (hfit : length ≤ 2 ^ 32)
    (hsame : ∀ x, InSpan start length x → m' x = m x) (hk : k ≤ n) :
    recordAt m' start k = recordAt m start k := by
  apply recordAt_congr
  intro j hj
  apply Memory.Same.of_unchanged _ (by decide)
  exact fun x hx => hsame x (h.inSpan (by omega) hfit (hx.mono (by decide)))

theorem recordsFrom_eq (h : TiledBy m start length n) (hfit : length ≤ 2 ^ 32)
    (hsame : ∀ x, InSpan start length x → m' x = m x) :
    recordsFrom m' start n = recordsFrom m start n := by
  unfold recordsFrom
  apply List.map_congr_left
  intro k hk
  have hk := List.mem_range.mp hk
  rw [h.recordAt_eq_of_same hfit hsame (Nat.le_of_lt hk), h.readMap_eq hfit hsame hk]

theorem of_same (h : TiledBy m start length n) (hfit : length ≤ 2 ^ 32)
    (hsame : ∀ x, InSpan start length x → m' x = m x) : TiledBy m' start length n := by
  have heq := h.recordsFrom_eq hfit hsame
  exact ⟨heq ▸ h.size, heq ▸ h.length⟩

end TiledBy

end IkgtLoader
