import IkgtLoader.Flat.Record

/-! The memory image accessors and the state of a load. The trace records what the loader
did in order, newest first; nothing in the loader reads it. -/
namespace IkgtLoader.Ld
open Flat

/-- `mem_image_access_t`: a file that lies in memory. -/
structure MemImageAccess where
  image : BitVec 32
  size : BitVec 32

/-- `bytes_to_read` after the test against the size. -/
def clamp (ia : MemImageAccess) (srcOffset bytesToRead : BitVec 32) : BitVec 32 :=
  if ia.size < srcOffset + bytesToRead then ia.size - srcOffset else bytesToRead

/-- The sum that is tested and the difference that is returned are both taken modulo `2^32`. -/
theorem clamp_cases (ia : MemImageAccess) (o n : BitVec 32) :
    (ia.size.toNat < (o.toNat + n.toNat) % 2 ^ 32 ∧
        (clamp ia o n).toNat = (2 ^ 32 - o.toNat + ia.size.toNat) % 2 ^ 32) ∨
      ((o.toNat + n.toNat) % 2 ^ 32 ≤ ia.size.toNat ∧ clamp ia o n = n) := by
  unfold clamp
  by_cases h : ia.size < o + n
  · left
    rw [if_pos h, BitVec.toNat_sub]
    rw [BitVec.lt_def, BitVec.toNat_add] at h
    exact ⟨h, rfl⟩
  · right
    rw [if_neg h]
    rw [BitVec.lt_def, BitVec.toNat_add] at h
    exact ⟨Nat.le_of_not_lt h, rfl⟩

def memImageRead (ia : MemImageAccess) (mem : Memory 32) (dest srcOffset bytesToRead : BitVec 32) :
    Memory 32 × BitVec 32 :=
  (mem.copy dest (ia.image + srcOffset) (clamp ia srcOffset bytesToRead).toNat,
    clamp ia srcOffset bytesToRead)

/-- The pointer stored in `*dest` and the count returned. -/
def memImageMapToMem (ia : MemImageAccess) (srcOffset bytesToRead : BitVec 32) :
    BitVec 32 × BitVec 32 :=
  (ia.image + srcOffset, clamp ia srcOffset bytesToRead)

/-- What a write is for, by the addresses the image itself states: a segment and its BSS by
link address, a loaded header field by its offset from the start, a relocated word by
`r_offset`, a section by its final address. -/
inductive Site
  | segment (paddr : ℕ)
  | bss (paddr filesz : ℕ)
  | header (offset : ℕ)
  | target (rOffset : ℕ)
  | loadedSection (address : ℕ)

/-- One access of the loader. Offsets are the ones the image states, over the naturals;
`entry` indexes a table that was mapped, `take` uses bytes of the file. -/
inductive Event
  | map (offset : ℕ) (count : BitVec 32)
  | read (offset : ℕ) (count : BitVec 32)
  | entry (tableSize offset size : ℕ)
  | take (offset length : ℕ)
  | write (site : Site) (dest : BitVec 32) (length : ℕ)

structure Loader where
  mem : Memory 32
  trace : List Event

namespace Loader

def emit (s : Loader) (e : Event) : Loader := { s with trace := e :: s.trace }

/-- `mem_image_map_to_mem` with an offset field of the image cut to `size_t`. -/
def map (s : Loader) (ia : MemImageAccess) (offset : ℕ) (count : BitVec 32) :
    Loader × BitVec 32 × BitVec 32 :=
  (s.emit (.map offset count), memImageMapToMem ia (BitVec.ofNat 32 offset) count)

/-- `mem_image_read`, likewise. -/
def read (s : Loader) (ia : MemImageAccess) (site : Site) (dest : BitVec 32) (offset : ℕ)
    (count : BitVec 32) : Loader × BitVec 32 :=
  let (mem, n) := memImageRead ia s.mem dest (BitVec.ofNat 32 offset) count
  ({ mem := mem
     trace := .write site dest n.toNat :: .take offset n.toNat :: .read offset count :: s.trace }, n)

/-- `mon_memset(dest, 0, count)`. -/
def zero (s : Loader) (site : Site) (dest count : BitVec 32) : Loader where
  mem := s.mem.fill dest 0 count.toNat
  trace := .write site dest count.toNat :: s.trace

/-- A store of `n` bytes through a pointer. -/
def store (s : Loader) (site : Site) (dest : BitVec 32) (n value : ℕ) : Loader where
  mem := s.mem.store dest n value
  trace := .write site dest n :: s.trace

end Loader
end IkgtLoader.Ld
