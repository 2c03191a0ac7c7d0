import IkgtLoader.Ld.Relocation
import IkgtLoader.Ld.Sections

/-! `load_image`: segments are copied, the loaded program headers patched and relocations
applied. -/
namespace IkgtLoader.Ld
open Flat

/-- `filesz` after the test against `memsz`. -/
def Phdr.loadFilesz (ph : Phdr) : ℕ := if ph.pMemsz < ph.pFilesz then ph.pMemsz else ph.pFilesz

/-- A link address moved by the relocation offset, cut to a pointer. -/
def relocated (addr relocationOffset : ℕ) : BitVec 32 := BitVec.ofNat 32 (addr + relocationOffset)

/-- The copy of one segment; a segment read short ends the load. -/
def loadSegment (ia : MemImageAccess) (relocationOffset : ℕ) (ph : Phdr) (s : Loader) :
    Loop.Outcome Loader :=
  let filesz := ph.loadFilesz
  let (s, n) := s.read ia (.segment ph.pPaddr) (relocated ph.pPaddr relocationOffset) ph.pOffset
    (BitVec.ofNat 32 filesz)
  if n ≠ BitVec.ofNat 32 filesz then .quit s
  else if filesz < ph.pMemsz then
    .next (s.zero (.bss ph.pPaddr filesz) (relocated (ph.pPaddr + filesz) relocationOffset)
      (BitVec.ofNat 32 (ph.pMemsz - filesz)))
  else .next s

/-- One round of the first loop, which carries `phdr_dyn` along. `ehdr` and `phdrtab` point
into the file; what they point to is read again in every round. -/
def segmentStep (c : ElfClass) (ia : MemImageAccess) (relocationOffset : ℕ) (ehdr : BitVec 32)
    (phoff : ℕ) (phdrtab phsize : BitVec 32) (i : ℕ) (st : Loader × Option (BitVec 32)) :
    Loop.Outcome (Loader × Option (BitVec 32)) :=
  let (s, phdrDyn) := st
  let eh := readEhdr s.mem ehdr c
  let phdr := tableEntry phdrtab i eh.ePhentsize
  let s := (s.emit (.entry phsize.toNat (i * eh.ePhentsize) c.phdrSize)).emit
    (.take (phoff + i * eh.ePhentsize) c.phdrSize)
  let ph := readPhdr s.mem phdr c
  if ph.pType = PT_DYNAMIC then .next (s, some phdr)
  else if ¬ ph.Loadable then .next (s, phdrDyn)
  else (loadSegment ia relocationOffset ph s).map fun s => (s, phdrDyn)

/-- The bound of both loops, read from the header in memory. -/
def phdrCond (c : ElfClass) (mem : Memory 32) (ehdr : BitVec 32) (i : ℕ) : Prop :=
  i < int16Bound (readEhdr mem ehdr c).ePhnum

instance (c : ElfClass) (mem : Memory 32) (ehdr : BitVec 32) (i : ℕ) :
    Decidable (phdrCond c mem ehdr i) := inferInstanceAs (Decidable (_ < _))

/-- One round of the second loop, over the loaded headers. -/
def patchStep (c : ElfClass) (info : ElfLoadInfo) (ehdr : BitVec 32) (phoff : ℕ)
    (phdrtab : BitVec 32) (i : ℕ) (s : Loader) : Loop.Outcome Loader :=
  let eh := readEhdr s.mem ehdr c
  let phdr := tableEntry phdrtab i eh.ePhentsize
  let ph := readPhdr s.mem phdr c
  if ph.pMemsz ≠ 0 then
    let s := s.store (.header (phoff + i * eh.ePhentsize + c.pPaddr))
      (phdr + BitVec.ofNat 32 c.pPaddr) c.addrSize (ph.pPaddr + info.relocationOffset)
    .next (s.store (.header (phoff + i * eh.ePhentsize + c.pVaddr))
      (phdr + BitVec.ofNat 32 c.pVaddr) c.addrSize
      (field s.mem phdr c.pVaddr c.addrSize + info.relocationOffset))
  else .next s

/-- An `int16_t` below an `int16_t` bound takes at most this many rounds. -/
def int16Rounds : ℕ := 0x8000

/-- The loop that copies the segments, with the mapping of the headers before it. -/
def loadSegments (c : ElfClass) (s : Loader) (ia : MemImageAccess) (info : ElfLoadInfo) :
    Loop.Outcome (Loader × Option (BitVec 32)) :=
  match mapHeader c s ia with
  | (s, none) => .quit (s, none)
  | (s, some ehdr) =>
    let eh := readEhdr s.mem ehdr c
    match mapPhdrs s ia eh with
    | (s, none) => .quit (s, none)
    | (s, some phdrtab) =>
      Loop.run (fun i st => phdrCond c st.1.mem ehdr i)
        (segmentStep c ia info.relocationOffset ehdr eh.ePhoff phdrtab
          (tableSize eh.ePhnum eh.ePhentsize)) int16Rounds 0 (s, none)

/-- The loop that moves the addresses in the loaded program headers. -/
def patchHeaders (c : ElfClass) (s : Loader) (info : ElfLoadInfo) : Loop.Outcome Loader :=
  let ehdr := BitVec.ofNat 32 info.startAddr
  let phoff := (readEhdr s.mem ehdr c).ePhoff
  let phdrtab := BitVec.ofNat 32 (info.startAddr + phoff)
  Loop.run (fun i s => phdrCond c s.mem ehdr i) (patchStep c info ehdr phoff phdrtab) int16Rounds 0 s

/-- The optional copies; their status replaces the one before. -/
def copyTables (c : ElfClass) (s : Loader) (ia : MemImageAccess) (info : ElfLoadInfo) (fuel : ℕ) :
    Loader × MonStatus :=
  let (s, status) :=
    if info.copySectionHeaders ∨ info.copySymbolTables then copySectionHeaderTable c s ia info
    else (s, .monOk)
  if info.copySymbolTables then copySections c s ia info fuel else (s, status)

/-- The common body of `elf32_load_executable` and `elf64_load_executable`. -/
def loadExecutable (c : ElfClass) (s : Loader) (ia : MemImageAccess) (info : ElfLoadInfo)
    (fuel : ℕ) : Loader × MonStatus :=
  match loadSegments c s ia info with
  | .quit st => (st.1, .monError)
  | .spent st => (st.1, .runaway)
  | .next (s, phdrDyn) =>
    match patchHeaders c s info with
    | .quit s => (s, .monError)
    | .spent s => (s, .runaway)
    | .next s =>
      match phdrDyn with
      | none => copyTables c s ia info fuel
      | some phdr =>
        match doRelocation c s ia info (readPhdr s.mem phdr c) with
        | (s, .monOk) => copyTables c s ia info fuel
        | (s, status) => (s, status)

def elf32LoadExecutable := loadExecutable .elfclass32

def elf64LoadExecutable := loadExecutable .elfclass64

/-- Unsigned 64-bit arithmetic. -/
def wrap64 (n : ℕ) : ℕ := n % 2 ^ 64

/-- The addresses of an image as it will lie at `p_dest`. -/
def ElfLoadInfo.relocate (info : ElfLoadInfo) (pDest : BitVec 32) : ElfLoadInfo :=
  let offset := wrap64 (pDest.toNat + (2 ^ 64 - info.startAddr))
  { info with
    relocationOffset := offset
    startAddr := wrap64 (info.startAddr + offset)
    endAddr := wrap64 (info.endAddr + offset)
    entryAddr := wrap64 (info.entryAddr + offset)
    sectionsAddr := wrap64 (info.sectionsAddr + offset) }

def elfLoadExecutable (s : Loader) (ia : MemImageAccess) (info : ElfLoadInfo) (pDest : BitVec 32)
    (fuel : ℕ) : Loader × ElfLoadInfo × MonStatus :=
  let info := info.relocate pDest
  match info.machineType with
  | .elfclass32 =>
    let (s, status) := elf32LoadExecutable s ia info fuel
    (s, info, status)
  | .elfclass64 =>
    let (s, status) := elf64LoadExecutable s ia info fuel
    (s, info, status)

/-- What `load_info` holds before anything is stored in it is of no consequence; with both
copy flags cleared no loop over sections is entered. -/
def ElfLoadInfo.cleared : ElfLoadInfo where
  machineType := .elfclass32
  startAddr := 0
  endAddr := 0
  entryAddr := 0
  sectionsAddr := 0
  relocationOffset := 0
  copySectionHeaders := false
  copySymbolTables := false

/-- The entry point, or FALSE. -/
def loadElfImage (s : Loader) (pImage pTarget imageSize : BitVec 32) : Loader × Option ℕ :=
  let ia : MemImageAccess := ⟨pImage, imageSize⟩
  let (s, info, status) := elfGetLoadInfo s ia ElfLoadInfo.cleared 0
  if status ≠ .monOk then (s, none)
  else
    let (s, info, status) := elfLoadExecutable s ia info pTarget 0
    if status ≠ .monOk then (s, none) else (s, some info.entryAddr)

def loadImage (mem : Memory 32) (fileMappedIntoMemory imageBaseAddress allocatedSize : BitVec 32) :
    Loader × Option ℕ :=
  loadElfImage ⟨mem, []⟩ fileMappedIntoMemory imageBaseAddress allocatedSize

/-- An ELF32 executable of one segment: the headers, loaded at link address 0, and twelve
bytes of BSS behind them. -/
def tinyElf32 : List (BitVec 8) :=
  [0x7f, 0x45, 0x4c, 0x46, 1, 1, 1, 0, 0, 0, 0, 0, 0, 0, 0, 0,
   2, 0, 3, 0, 1, 0, 0, 0, 0x34, 0, 0, 0, 0x34, 0, 0, 0,
   0, 0, 0, 0, 0, 0, 0, 0, 0x34, 0, 0x20, 0, 1, 0, 0x28, 0, 0, 0, 0, 0,
   1, 0, 0, 0, 0, 0, 0, 0, 0, 0, 0, 0, 0, 0, 0, 0,
   0x54, 0, 0, 0, 0x60, 0, 0, 0, 7, 0, 0, 0, 0, 0x10, 0, 0]

end IkgtLoader.Ld
