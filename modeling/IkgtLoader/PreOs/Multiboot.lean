import IkgtLoader.Flat.Loop
import IkgtLoader.Flat.Record
import IkgtLoader.PreOs.Memory

/-! The multiboot information that the boot loader leaves in memory, as far as the loader
reads it. -/
namespace IkgtLoader
open Flat

/-- `multiboot_memory_map_t`. -/
structure MemoryMap where
  size : BitVec 32
  addr : BitVec 64
  len : BitVec 64
  type : BitVec 32
  deriving DecidableEq

/-- `sizeof(multiboot_memory_map_t)`. -/
def memoryMapSize : ℕ := 24

def MULTIBOOT_MEMORY_AVAILABLE : BitVec 32 := 1

def MULTIBOOT_MEMORY_RESERVED : BitVec 32 := 2

def readMap (mem : Memory 32) (mmap : BitVec 32) : MemoryMap where
  size := mem.field 32 mmap 0
  addr := mem.field 64 mmap 4
  len := mem.field 64 mmap 12
  type := mem.field 32 mmap 20

/-- The record `i` of an array of them. -/
def mapEntry (table : BitVec 32) (i : ℕ) : BitVec 32 := table + BitVec.ofNat 32 (i * memoryMapSize)

namespace MultibootInfo

def flags (mem : Memory 32) (mbi : BitVec 32) : BitVec 32 := mem.field 32 mbi 0

def modsCount (mem : Memory 32) (mbi : BitVec 32) : BitVec 32 := mem.field 32 mbi 20

def modsAddr (mem : Memory 32) (mbi : BitVec 32) : BitVec 32 := mem.field 32 mbi 24

def mmapLength (mem : Memory 32) (mbi : BitVec 32) : BitVec 32 := mem.field 32 mbi 44

def mmapAddr (mem : Memory 32) (mbi : BitVec 32) : BitVec 32 := mem.field 32 mbi 48

/-- The fields up to `mmap_addr`, in bytes. -/
def span : ℕ := 52

end MultibootInfo

/-- `sizeof(multiboot_module_t)` and its fields `mod_start`, `mod_end` and `cmdline`. -/
def moduleSize : ℕ := 16

def moduleStart (mem : Memory 32) (m : BitVec 32) : BitVec 32 := mem.field 32 m 0

def moduleEnd (mem : Memory 32) (m : BitVec 32) : BitVec 32 := mem.field 32 m 4

def moduleCmdline (mem : Memory 32) (m : BitVec 32) : BitVec 32 := mem.field 32 m 8

/-- `MBI_MEMMAP`. -/
def MBI_MEMMAP : BitVec 32 := 0x40

theorem readMap_congr {m m' : Memory 32} {p p' : BitVec 32}
    (h : Memory.Same m p m' p' memoryMapSize) : readMap m p = readMap m' p' := by
  unfold readMap memoryMapSize at *
  rw [MemoryMap.mk.injEq]
  refine ⟨?_, ?_, ?_, ?_⟩ <;> exact Memory.field_congr h (by decide)

/-- A record is its 24 bytes. -/
theorem same_of_readMap_eq {m m' : Memory 32} {p p' : BitVec 32} (h : readMap m p = readMap m' p') :
    Memory.Same m p m' p' memoryMapSize := by
  unfold readMap at h
  rw [MemoryMap.mk.injEq] at h
  obtain ⟨hsize, haddr, hlen, htype⟩ := h
  have h0 : Memory.Same m p m' p' 4 := by
    have hfirst := (Memory.field_eq_iff_same rfl).mp hsize
    rwa [BitVec.add_zero, BitVec.add_zero] at hfirst
  have h4 : Memory.Same m p m' p' 12 := h0.append ((Memory.field_eq_iff_same rfl).mp haddr)
  have h12 : Memory.Same m p m' p' 20 := h4.append ((Memory.field_eq_iff_same rfl).mp hlen)
  exact h12.append ((Memory.field_eq_iff_same rfl).mp htype)

namespace MemoryMap

/-- An address of the range that a record describes, over the naturals. -/
def Covers (r : MemoryMap) (x : ℕ) : Prop := r.addr.toNat ≤ x ∧ x < r.addr.toNat + r.len.toNat

instance (r : MemoryMap) (x : ℕ) : Decidable (r.Covers x) := inferInstanceAs (Decidable (_ ∧ _))

end MemoryMap

/-- Some record of the type covers the address. -/
def CoveredBy (map : List MemoryMap) (type : BitVec 32) (x : ℕ) : Prop :=
  ∃ r ∈ map, r.type = type ∧ r.Covers x

instance (map : List MemoryMap) (type : BitVec 32) (x : ℕ) : Decidable (CoveredBy map type x) :=
  inferInstanceAs (Decidable (∃ r ∈ map, _))

/-- The records that lie end to end in the map of `mbi`. -/
def recordsOf (mem : Memory 32) (mbi : BitVec 32) : List MemoryMap :=
  (List.range ((MultibootInfo.mmapLength mem mbi).toNat / memoryMapSize)).map fun i =>
    readMap mem (mapEntry (MultibootInfo.mmapAddr mem mbi) i)

@[simp] theorem length_recordsOf (mem : Memory 32) (mbi : BitVec 32) : (recordsOf mem mbi).length =
    (MultibootInfo.mmapLength mem mbi).toNat / memoryMapSize := by
  unfold recordsOf
  rw [List.length_map, List.length_range]

/-- Every record is of size 20, so that they lie end to end, and they fill the map. -/
structure Tiled (mem : Memory 32) (mbi : BitVec 32) : Prop where
  length : memoryMapSize ∣ (MultibootInfo.mmapLength mem mbi).toNat
  size : ∀ r ∈ recordsOf mem mbi, r.size = 20

end IkgtLoader
