import IkgtLoader.Flat.Align
import IkgtLoader.Flat.Memory

/-! The loader heap of `utils/memory/memory.c`: a bump allocator over 32-bit addresses
whose limit tests add in wrapping arithmetic. -/
namespace IkgtLoader
open Flat

/-- The 32-bit address space and the globals of `memory.c`. -/
structure Machine where
  mem : Memory 32
  heapBase : BitVec 32
  heapCurrent : BitVec 32
  heapTops : BitVec 32

abbrev NULL : BitVec 32 := 0#32

abbrev PAGE_SIZE : BitVec 32 := 4096#32

def zeroMem (mem : Memory 32) (address size : BitVec 32) : Memory 32 :=
  mem.fill address 0 size.toNat

def initializeMemoryManager (mem : Memory 32) (heapBaseAddress heapBytes : BitVec 32) : Machine where
  mem := mem
  heapBase := heapBaseAddress
  heapCurrent := heapBaseAddress
  heapTops := heapBaseAddress + heapBytes

/-- The common tail of both allocators: the limit test, the bump and the zeroing. -/
def reserve (s : Machine) (address size : BitVec 32) : Machine × BitVec 32 :=
  if s.heapTops < address + size then (s, NULL)
  else ({ s with heapCurrent := address + size, mem := zeroMem s.mem address size }, address)

def allocateMemory (s : Machine) (sizeRequest : BitVec 32) : Machine × BitVec 32 :=
  reserve s s.heapCurrent sizeRequest

/-- `ALIGN_FORWARD(x, PAGE_SIZE)`. -/
def alignForward (x : BitVec 32) : BitVec 32 := (x + (PAGE_SIZE - 1)) &&& ~~~(PAGE_SIZE - 1)

def monPageAlloc (s : Machine) (pages : BitVec 32) : Machine × BitVec 32 :=
  reserve s (alignForward s.heapCurrent) (pages * PAGE_SIZE)

theorem toNat_and_pageMask (x : BitVec 32) :
    (x &&& ~~~(PAGE_SIZE - 1)).toNat = x.toNat / 4096 * 4096 :=
  toNat_and_allOnes_shiftLeft x 12

theorem toNat_alignForward (x : BitVec 32) :
    (alignForward x).toNat = (x.toNat + 4095) % 2 ^ 32 / 4096 * 4096 := by
  rw [alignForward, toNat_and_pageMask, BitVec.toNat_add]
  rfl

section reserve
variable (s : Machine) (address size : BitVec 32)

theorem reserve_refused (h : s.heapTops < address + size) :
    reserve s address size = (s, NULL) := if_pos h

theorem reserve_served (h : ¬ s.heapTops < address + size) :
    reserve s address size =
      ({ s with heapCurrent := address + size, mem := zeroMem s.mem address size }, address) :=
  if_neg h

@[simp] theorem reserve_heapBase : (reserve s address size).1.heapBase = s.heapBase := by
  unfold reserve; split <;> rfl

@[simp] theorem reserve_heapTops : (reserve s address size).1.heapTops = s.heapTops := by
  unfold reserve; split <;> rfl

/-- Either allocator writes only the block it hands out. -/
theorem reserve_mem_of_not_inSpan {x : BitVec 32} (h : ¬ InSpan address size.toNat x) :
    (reserve s address size).1.mem x = s.mem x := by
  unfold reserve
  split
  · rfl
  · exact Memory.fill_of_not_inSpan s.mem 0 h

theorem reserve_mem_of_inSpan (hs : ¬ s.heapTops < address + size) {x : BitVec 32}
    (h : InSpan address size.toNat x) : (reserve s address size).1.mem x = 0 := by
  rw [reserve_served s address size hs]
  change s.mem.fill address 0 size.toNat x = 0
  rw [Memory.fill_apply s.mem address x 0 (Nat.le_of_lt size.isLt), if_pos h]

end reserve
end IkgtLoader
