import IkgtLoader.Flat.Loop
import IkgtLoader.Ld.Elf

/-! `elf32_do_relocation` and `elf64_do_relocation`. -/
namespace IkgtLoader.Ld
open Flat

def DT_SYMTAB : ℕ := 6

def DT_RELA : ℕ := 7

def DT_RELASZ : ℕ := 8

def DT_RELAENT : ℕ := 9

def DT_SYMENT : ℕ := 11

def DT_REL : ℕ := 17

def DT_RELSZ : ℕ := 18

def DT_RELENT : ℕ := 19

/-- What the scan of the dynamic section leaves: pointers, and `elfN_sword_t` sizes. -/
structure DynInfo where
  rela : BitVec 32
  relaSz : BitVec 32
  relaEntsz : BitVec 32
  symtab : BitVec 32
  symtabEntsz : BitVec 32
  rel : BitVec 32
  relSz : BitVec 32
  relEntsz : BitVec 32

def DynInfo.empty : DynInfo := ⟨0, 0, 0, 0, 0, 0, 0, 0⟩

/-- The tags both classes look at. Pointers are the value plus `start_addr`, cut to 32 bits. -/
def dynStep (startAddr : ℕ) (d : DynInfo) (tag val : ℕ) : DynInfo :=
  if tag = DT_RELA then { d with rela := BitVec.ofNat 32 (val + startAddr) }
  else if tag = DT_RELASZ then { d with relaSz := BitVec.ofNat 32 val }
  else if tag = DT_RELAENT then { d with relaEntsz := BitVec.ofNat 32 val }
  else if tag = DT_SYMTAB then { d with symtab := BitVec.ofNat 32 (val + startAddr) }
  else if tag = DT_SYMENT then { d with symtabEntsz := BitVec.ofNat 32 val }
  else d

/-- `elf32_do_relocation` looks at the REL tags as well. -/
def dynStep32 (startAddr : ℕ) (d : DynInfo) (tag val : ℕ) : DynInfo :=
  if tag = DT_REL then { d with rel := BitVec.ofNat 32 (val + startAddr) }
  else if tag = DT_RELSZ then { d with relSz := BitVec.ofNat 32 val }
  else if tag = DT_RELENT then { d with relEntsz := BitVec.ofNat 32 val }
  else dynStep startAddr d tag val

/-- The entries of the dynamic section before `n`, as `(d_tag, d_un)`. -/
def dynEntry (c : ElfClass) (mem : Memory 32) (dynSection : BitVec 32) (i : ℕ) : ℕ × ℕ :=
  let p := tableEntry dynSection i (2 * c.addrSize)
  (field mem p 0 c.addrSize, field mem p c.addrSize c.addrSize)

def scanDynamic (c : ElfClass) (mem : Memory 32) (startAddr : ℕ) (dynSection : BitVec 32) :
    ℕ → DynInfo
  | 0 => DynInfo.empty
  | i + 1 =>
    let (tag, val) := dynEntry c mem dynSection i
    match c with
    | .elfclass32 => dynStep32 startAddr (scanDynamic c mem startAddr dynSection i) tag val
    | .elfclass64 => dynStep startAddr (scanDynamic c mem startAddr dynSection i) tag val

/-- Rounds of `for (i = 0; i < sz / entsz; ++i)` over signed words. -/
def entryCount (sz entsz : BitVec 32) : ℕ := (sz.toInt / entsz.toInt).toNat

/-- One RELA entry of 12 bytes. -/
def rela32Step (rela symtab relocationOffset : BitVec 32) (i : ℕ) (s : Loader) :
    Loop.Outcome Loader :=
  let e := tableEntry rela i 12
  let rOffset := field s.mem e 0 4
  let targetAddr := BitVec.ofNat 32 rOffset + relocationOffset
  let value := field s.mem e 8 4 + relocationOffset.toNat
  match field s.mem e 4 4 % 256 with
  | 1 =>
    let s := s.store (.target rOffset) targetAddr 4 value
    let symtabIdx := field s.mem e 4 4 / 256
    .next (s.store (.target rOffset) targetAddr 4
      (field s.mem targetAddr 0 4 + field s.mem (tableEntry symtab symtabIdx 16) 4 4))
  | 8 => .next (s.store (.target rOffset) targetAddr 4 value)
  | 0 => .next s
  | _ => .quit s

/-- One REL entry of 8 bytes: the addend lies in the word itself. -/
def rel32Step (rel symtab relocationOffset : BitVec 32) (i : ℕ) (s : Loader) :
    Loop.Outcome Loader :=
  let e := tableEntry rel i 8
  let rOffset := field s.mem e 0 4
  let targetAddr := BitVec.ofNat 32 rOffset + relocationOffset
  let value := field s.mem targetAddr 0 4 + relocationOffset.toNat
  match field s.mem e 4 4 % 256 with
  | 1 =>
    let s := s.store (.target rOffset) targetAddr 4 value
    let symtabIdx := field s.mem e 4 4 / 256
    .next (s.store (.target rOffset) targetAddr 4
      (field s.mem targetAddr 0 4 + field s.mem (tableEntry symtab symtabIdx 16) 4 4))
  | 8 => .next (s.store (.target rOffset) targetAddr 4 value)
  | _ => .quit s

/-- One RELA entry of 24 bytes; the symbol index is the high word of `r_info`, signed. -/
def rela64Step (rela symtab : BitVec 32) (relocationOffset i : ℕ) (s : Loader) :
    Loop.Outcome Loader :=
  let e := tableEntry rela i 24
  let rOffset := field s.mem e 0 8
  let targetAddr := BitVec.ofNat 32 (rOffset + relocationOffset)
  let value := field s.mem e 16 8 + relocationOffset
  match field s.mem e 8 8 % 256 with
  | 1 =>
    let s := s.store (.target rOffset) targetAddr 8 value
    let symtabIdx := BitVec.ofNat 32 (field s.mem e 12 4)
    .next (s.store (.target rOffset) targetAddr 8
      (field s.mem targetAddr 0 8 + field s.mem (symtab + symtabIdx * 24) 8 8))
  | 8 => .next (s.store (.target rOffset) targetAddr 8 value)
  | 0 => .next s
  | _ => .quit s

/-- A loop over `n` relocation entries. -/
def relocate (step : ℕ → Loader → Loop.Outcome Loader) (n : ℕ) (s : Loader) : Loader × MonStatus :=
  match Loop.run (fun i _ => i < n) step n 0 s with
  | .next s => (s, .monOk)
  | .quit s => (s, .monError)
  | .spent s => (s, .runaway)

/-- The mapping of the dynamic section, common to both classes: its size is cut to a word. -/
def mapDynamic (s : Loader) (ia : MemImageAccess) (phdrDyn : Phdr) :
    Loader × BitVec 32 × Option (BitVec 32) :=
  let dynSectionSz := BitVec.ofNat 32 phdrDyn.pFilesz
  let (s, dynSection, n) := s.map ia phdrDyn.pOffset dynSectionSz
  if n ≠ dynSectionSz then (s, dynSectionSz, none)
  else (s.emit (.take phdrDyn.pOffset dynSectionSz.toNat), dynSectionSz, some dynSection)

def elf32DoRelocation (s : Loader) (ia : MemImageAccess) (info : ElfLoadInfo) (phdrDyn : Phdr) :
    Loader × MonStatus :=
  match mapDynamic s ia phdrDyn with
  | (s, _, none) => (s, .monError)
  | (s, dynSectionSz, some dynSection) =>
    let d := scanDynamic .elfclass32 s.mem info.startAddr dynSection (dynSectionSz.toNat / 8)
    let relocationOffset := BitVec.ofNat 32 info.relocationOffset
    if d.rela ≠ 0 ∧ d.relaSz ≠ 0 ∧ d.symtab ≠ 0 ∧ d.relaEntsz = 12 ∧ d.symtabEntsz = 16 then
      relocate (rela32Step d.rela d.symtab relocationOffset) (entryCount d.relaSz d.relaEntsz) s
    else if d.rel ≠ 0 ∧ d.symtab ≠ 0 ∧ d.relSz ≠ 0 ∧ d.relEntsz = 8 then
      relocate (rel32Step d.rel d.symtab relocationOffset) (entryCount d.relSz d.relEntsz) s
    else (s, .monError)

def elf64DoRelocation (s : Loader) (ia : MemImageAccess) (info : ElfLoadInfo) (phdrDyn : Phdr) :
    Loader × MonStatus :=
  match mapDynamic s ia phdrDyn with
  | (s, _, none) => (s, .monError)
  | (s, dynSectionSz, some dynSection) =>
    let d := scanDynamic .elfclass64 s.mem info.startAddr dynSection (dynSectionSz.toNat / 16)
    if d.rela = 0 ∨ d.relaSz = 0 ∨ d.symtab = 0 ∨ d.relaEntsz ≠ 24 ∨ d.symtabEntsz ≠ 24 then
      (s, .monError)
    else
      relocate (rela64Step d.rela d.symtab info.relocationOffset)
        (entryCount d.relaSz d.relaEntsz) s

def doRelocation : ElfClass → Loader → MemImageAccess → ElfLoadInfo → Phdr → Loader × MonStatus
  | .elfclass32 => elf32DoRelocation
  | .elfclass64 => elf64DoRelocation

end IkgtLoader.Ld
