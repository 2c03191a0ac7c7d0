import IkgtLoader.Flat.Loop
import IkgtLoader.Ld.LoadInfo

/-! The optional copies at the end of a load: the section header table and the sections that
no segment brings. -/
namespace IkgtLoader.Ld
open Flat

/-- `elfN_copy_section_header_table`. The header is the loaded one. -/
def copySectionHeaderTable (c : ElfClass) (s : Loader) (ia : MemImageAccess) (info : ElfLoadInfo) :
    Loader × MonStatus :=
  let ehdr := BitVec.ofNat 32 info.startAddr
  let eh := readEhdr s.mem ehdr c
  let tabsiz := tableSize eh.eShentsize eh.eShnum
  if ¬ headerIsValid s.mem ehdr c then (s, .monError)
  else
    let (s, n) := s.read ia (.loadedSection info.sectionsAddr) (BitVec.ofNat 32 info.sectionsAddr)
      eh.eShoff tabsiz
    if n ≠ tabsiz then (s, .monError)
    else
      (s.store (.header c.eShoff) (ehdr + BitVec.ofNat 32 c.eShoff) c.addrSize
        (info.sectionsAddr + (2 ^ 64 - info.startAddr)), .monOk)

/-- Where `elfN_copy_sections` finds the section header `i`, an `int16_t`: the 32-bit copy
extends it without its sign. -/
def shdrAddress (c : ElfClass) (sectionsAddr i entsize : ℕ) : BitVec 32 :=
  match c with
  | .elfclass32 => BitVec.ofNat 32 (sectionsAddr + (BitVec.ofNat 16 i).toNat * entsize)
  | .elfclass64 =>
    BitVec.ofNat 32 sectionsAddr + BitVec.ofInt 32 ((BitVec.ofNat 16 i).toInt * (entsize : ℤ))

/-- One round of `elfN_copy_sections`, which carries `curr_addr` along. -/
def copySectionStep (c : ElfClass) (ia : MemImageAccess) (info : ElfLoadInfo) (i : ℕ)
    (st : Loader × ℕ) : Loop.Outcome (Loader × ℕ) :=
  let (s, currAddr) := st
  let eh := readEhdr s.mem (BitVec.ofNat 32 info.startAddr) c
  let shdr := shdrAddress c info.sectionsAddr i eh.eShentsize
  let sh := readShdr s.mem shdr c
  let addrField := shdr + BitVec.ofNat 32 c.shAddr
  if sh.shAddr ≠ 0 then
    .next (s.store (.loadedSection shdr.toNat) addrField c.addrSize
      (sh.shAddr + info.relocationOffset), currAddr)
  else if sh.shSize = 0 then .next (s, currAddr)
  else
    let a := if 1 < sh.shAddralign then alignUp c currAddr sh.shAddralign else currAddr
    let (s, n) := s.read ia (.loadedSection a) (BitVec.ofNat 32 a) sh.shOffset
      (BitVec.ofNat 32 sh.shSize)
    if n.toNat ≠ sh.shSize then .quit (s, a)
    else
      let s := s.store (.loadedSection shdr.toNat) addrField c.addrSize a
      -- `sh_size` is read again after the copy
      .next (s, c.wrap (a + (readShdr s.mem shdr c).shSize))

def copySections (c : ElfClass) (s : Loader) (ia : MemImageAccess) (info : ElfLoadInfo)
    (fuel : ℕ) : Loader × MonStatus :=
  let eh := readEhdr s.mem (BitVec.ofNat 32 info.startAddr) c
  let tabsiz := tableSize eh.eShentsize eh.eShnum
  match Loop.run
      (fun i st => (BitVec.ofNat 16 i).toInt <
        ((readEhdr st.1.mem (BitVec.ofNat 32 info.startAddr) c).eShnum : ℤ))
      (copySectionStep c ia info) fuel 0 (s, c.wrap (info.sectionsAddr + tabsiz.toNat)) with
  | .next st => (st.1, .monOk)
  | .quit st => (st.1, .monError)
  | .spent st => (st.1, .runaway)

end IkgtLoader.Ld
