import IkgtLoader.Flat.Align
import IkgtLoader.Flat.Loop
import IkgtLoader.Ld.Elf

/-! `elf_get_load_info`: which class an image has, where it is linked and how much memory
it takes. -/
namespace IkgtLoader.Ld
open Flat

/-- A loadable segment that takes memory. -/
def Phdr.Loadable (ph : Phdr) : Prop := ph.pType = PT_LOAD ∧ ph.pMemsz ≠ 0

instance (ph : Phdr) : Decidable ph.Loadable :=
  inferInstanceAs (Decidable (_ ∧ _))

/-- One round of the size loop over `(low_addr, max_addr)`. -/
def sizeStep (c : ElfClass) (acc : ℕ × ℕ) (ph : Phdr) : ℕ × ℕ :=
  if ph.Loadable then
    (if ph.pPaddr < acc.1 then ph.pPaddr else acc.1,
      if acc.2 < c.wrap (ph.pPaddr + ph.pMemsz) then c.wrap (ph.pPaddr + ph.pMemsz) else acc.2)
  else acc

/-- The rounds up to `n`; the memory does not change meanwhile. -/
def sizeLoop (c : ElfClass) (s : Loader) (eh : Ehdr) (phdrtab : BitVec 32) (phsize : BitVec 32) :
    ℕ → Loader × ℕ × ℕ
  | 0 => (s, 256 ^ c.addrSize - 1, 0)
  | i + 1 =>
    let (t, acc) := sizeLoop c s eh phdrtab phsize i
    ((t.emit (.entry phsize.toNat (i * eh.ePhentsize) c.phdrSize)).emit
        (.take (eh.ePhoff + i * eh.ePhentsize) c.phdrSize),
      sizeStep c acc (readPhdr t.mem (tableEntry phdrtab i eh.ePhentsize) c))

/-- `(a + (align - 1)) & ~(align - 1)` in `elfN_addr_t`. -/
def alignUp (c : ElfClass) (a align : ℕ) : ℕ := maskUp (8 * c.addrSize) a (align - 1)

/-- One round of the loop over sections, at `i` as an `int16_t`. -/
def sectionStep (c : ElfClass) (mem : Memory 32) (eh : Ehdr) (shdrtab : BitVec 32) (i : ℕ)
    (maxAddr : ℕ) : Loop.Outcome ℕ :=
  let sh := readShdr mem
    (shdrtab + BitVec.ofInt 32 ((BitVec.ofNat 16 i).toInt * (eh.eShentsize : ℤ))) c
  if sh.shSize = 0 then .next maxAddr
  else if sh.shAddr ≠ 0 then .next maxAddr
  else
    let a := if 1 < sh.shAddralign then alignUp c maxAddr sh.shAddralign else maxAddr
    .next (c.wrap (a + sh.shSize))

/-- The loop over the section headers: an `int16_t` against the unsigned `e_shnum`. -/
def sectionLoop (c : ElfClass) (mem : Memory 32) (eh : Ehdr) (shdrtab : BitVec 32) (maxAddr : ℕ)
    (fuel : ℕ) : Loop.Outcome ℕ :=
  Loop.run (fun i _ => (BitVec.ofNat 16 i).toInt < (eh.eShnum : ℤ))
    (sectionStep c mem eh shdrtab) fuel 0 maxAddr

/-- The tail of `get_load_info` for the optional tables. -/
def sectionsInfo (c : ElfClass) (s : Loader) (ia : MemImageAccess) (eh : Ehdr) (info : ElfLoadInfo)
    (maxAddr fuel : ℕ) : Loader × ElfLoadInfo × ℕ × MonStatus :=
  let sections := alignUp c maxAddr 16
  let info := { info with sectionsAddr := sections }
  let shsize := tableSize eh.eShnum eh.eShentsize
  let maxAddr := c.wrap (sections + shsize.toNat)
  if info.copySymbolTables then
    let (s, shdrtab, n) := s.map ia eh.eShoff shsize
    if n ≠ shsize then (s, info, maxAddr, .monError)
    else
      match sectionLoop c s.mem eh shdrtab maxAddr fuel with
      | .next m => (s, info, m, .monOk)
      | .quit m => (s, info, m, .monError)
      | .spent m => (s, info, m, .runaway)
  else (s, info, maxAddr, .monOk)

/-- `map ELF header to ehdr`, as both passes over an image begin. -/
def mapHeader (c : ElfClass) (s : Loader) (ia : MemImageAccess) : Loader × Option (BitVec 32) :=
  let (s, ehdr, n) := s.map ia 0 (BitVec.ofNat 32 c.ehdrSize)
  if n ≠ BitVec.ofNat 32 c.ehdrSize then (s, none) else (s.emit (.take 0 c.ehdrSize), some ehdr)

/-- `map Program Segment header Table to phdrtab`. -/
def mapPhdrs (s : Loader) (ia : MemImageAccess) (eh : Ehdr) : Loader × Option (BitVec 32) :=
  let (s, phdrtab, n) := s.map ia eh.ePhoff (tableSize eh.ePhnum eh.ePhentsize)
  if n ≠ tableSize eh.ePhnum eh.ePhentsize then (s, none) else (s, some phdrtab)

/-- The optional tables and the stores into `p_info` at the end. -/
def finishInfo (c : ElfClass) (s : Loader) (ia : MemImageAccess) (eh : Ehdr) (info : ElfLoadInfo)
    (lowAddr maxAddr fuel : ℕ) : Loader × ElfLoadInfo × MonStatus :=
  if info.copySectionHeaders ∨ info.copySymbolTables then
    match sectionsInfo c s ia eh info maxAddr fuel with
    | (s, info, maxAddr, .monOk) =>
      (s, { info with startAddr := lowAddr, endAddr := maxAddr, entryAddr := eh.eEntry }, .monOk)
    | (s, info, _, status) => (s, info, status)
  else (s, { info with startAddr := lowAddr, endAddr := maxAddr, entryAddr := eh.eEntry }, .monOk)

/-- The common body of `elf32_get_load_info` and `elf64_get_load_info`. -/
def getLoadInfo (c : ElfClass) (s : Loader) (ia : MemImageAccess) (info : ElfLoadInfo)
    (fuel : ℕ) : Loader × ElfLoadInfo × MonStatus :=
  match mapHeader c s ia with
  | (s, none) => (s, info, .monError)
  | (s, some ehdr) =>
    let eh := readEhdr s.mem ehdr c
    if eh.eType ≠ ET_EXEC ∧ eh.eType ≠ ET_DYN then (s, info, .monError)
    else
      match mapPhdrs s ia eh with
      | (s, none) => (s, info, .monError)
      | (s, some phdrtab) =>
        match sizeLoop c s eh phdrtab (tableSize eh.ePhnum eh.ePhentsize) (int16Bound eh.ePhnum) with
        | (s, lowAddr, maxAddr) =>
          if lowAddr % 4096 ≠ 0 then (s, info, .monError)
          else finishInfo c s ia eh info lowAddr maxAddr fuel

def elf32GetLoadInfo := getLoadInfo .elfclass32

def elf64GetLoadInfo := getLoadInfo .elfclass64

/-- The header is mapped with the size of the larger class whatever the class is. -/
def elfGetLoadInfo (s : Loader) (ia : MemImageAccess) (info : ElfLoadInfo) (fuel : ℕ) :
    Loader × ElfLoadInfo × MonStatus :=
  let (s, pBuffer, n) := s.map ia 0 64
  if n ≠ 64 then (s, info, .monError)
  else
    let s := s.emit (.take 0 64)
    if elf32HeaderIsValid s.mem pBuffer then
      elf32GetLoadInfo s ia { info with machineType := .elfclass32 } fuel
    else if elf64HeaderIsValid s.mem pBuffer then
      elf64GetLoadInfo s ia { info with machineType := .elfclass64 } fuel
    else (s, info, .monError)

end IkgtLoader.Ld
