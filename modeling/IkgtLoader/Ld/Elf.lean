import IkgtLoader.Ld.Image

/-! The ELF records as they lie in memory, for both classes. -/
namespace IkgtLoader.Ld
open Flat

inductive ElfClass
  | elfclass32
  | elfclass64
  deriving DecidableEq

namespace ElfClass

/-- Width of `elfN_addr_t` in bytes. -/
def addrSize : ElfClass → ℕ
  | .elfclass32 => 4
  | .elfclass64 => 8

/-- A value cut to `elfN_addr_t`. -/
def wrap (c : ElfClass) (n : ℕ) : ℕ := n % 256 ^ c.addrSize

def ehdrSize : ElfClass → ℕ
  | .elfclass32 => 52
  | .elfclass64 => 64

def phdrSize : ElfClass → ℕ
  | .elfclass32 => 32
  | .elfclass64 => 56

def pVaddr : ElfClass → ℕ
  | .elfclass32 => 8
  | .elfclass64 => 16

def pPaddr : ElfClass → ℕ
  | .elfclass32 => 12
  | .elfclass64 => 24

def eShoff : ElfClass → ℕ
  | .elfclass32 => 32
  | .elfclass64 => 40

def shAddr : ElfClass → ℕ
  | .elfclass32 => 12
  | .elfclass64 => 16

end ElfClass

/-- The field of `n` bytes at an offset of the record at `p`, as a natural number. -/
@[irreducible] def field (mem : Memory 32) (p : BitVec 32) (offset n : ℕ) : ℕ :=
  (mem.field (8 * n) p offset).toNat

structure Ehdr where
  eType : ℕ
  eEntry : ℕ
  ePhoff : ℕ
  eShoff : ℕ
  ePhentsize : ℕ
  ePhnum : ℕ
  eShentsize : ℕ
  eShnum : ℕ

def readEhdr (mem : Memory 32) (p : BitVec 32) : ElfClass → Ehdr
  | .elfclass32 =>
    { eType := field mem p 16 2, eEntry := field mem p 24 4, ePhoff := field mem p 28 4
      eShoff := field mem p 32 4, ePhentsize := field mem p 42 2, ePhnum := field mem p 44 2
      eShentsize := field mem p 46 2, eShnum := field mem p 48 2 }
  | .elfclass64 =>
    { eType := field mem p 16 2, eEntry := field mem p 24 8, ePhoff := field mem p 32 8
      eShoff := field mem p 40 8, ePhentsize := field mem p 54 2, ePhnum := field mem p 56 2
      eShentsize := field mem p 58 2, eShnum := field mem p 60 2 }

structure Phdr where
  pType : ℕ
  pOffset : ℕ
  pVaddr : ℕ
  pPaddr : ℕ
  pFilesz : ℕ
  pMemsz : ℕ

def readPhdr (mem : Memory 32) (p : BitVec 32) : ElfClass → Phdr
  | .elfclass32 =>
    { pType := field mem p 0 4, pOffset := field mem p 4 4, pVaddr := field mem p 8 4
      pPaddr := field mem p 12 4, pFilesz := field mem p 16 4, pMemsz := field mem p 20 4 }
  | .elfclass64 =>
    { pType := field mem p 0 4, pOffset := field mem p 8 8, pVaddr := field mem p 16 8
      pPaddr := field mem p 24 8, pFilesz := field mem p 32 8, pMemsz := field mem p 40 8 }

structure Shdr where
  shAddr : ℕ
  shOffset : ℕ
  shSize : ℕ
  shAddralign : ℕ

def readShdr (mem : Memory 32) (p : BitVec 32) : ElfClass → Shdr
  | .elfclass32 =>
    { shAddr := field mem p 12 4, shOffset := field mem p 16 4, shSize := field mem p 20 4
      shAddralign := field mem p 32 4 }
  | .elfclass64 =>
    { shAddr := field mem p 16 8, shOffset := field mem p 24 8, shSize := field mem p 32 8
      shAddralign := field mem p 48 8 }

def PT_LOAD : ℕ := 1

def PT_DYNAMIC : ℕ := 2

def ET_EXEC : ℕ := 2

def ET_DYN : ℕ := 3

def EM_386 : ℕ := 3

def EM_X86_64 : ℕ := 62

/-- `ELFMAG0` to `ELFMAG3`, the class byte and `ELFDATA2LSB`. -/
def identIsValid (mem : Memory 32) (p : BitVec 32) (eiClass : BitVec 8) : Prop :=
  mem (p + 4) = eiClass ∧ mem p = 0x7f ∧ mem (p + 1) = 0x45 ∧ mem (p + 2) = 0x4c ∧
    mem (p + 3) = 0x46 ∧ mem (p + 5) = 1

instance (mem : Memory 32) (p : BitVec 32) (b : BitVec 8) : Decidable (identIsValid mem p b) :=
  inferInstanceAs (Decidable (_ ∧ _ ∧ _ ∧ _ ∧ _ ∧ _))

def elf32HeaderIsValid (mem : Memory 32) (p : BitVec 32) : Prop :=
  identIsValid mem p 1 ∧ mem (p + 6) = 1 ∧ field mem p 20 4 = 1 ∧ field mem p 18 2 = EM_386

/-- Unlike its sibling it does not look at `e_ident[EI_VERSION]`. -/
def elf64HeaderIsValid (mem : Memory 32) (p : BitVec 32) : Prop :=
  identIsValid mem p 2 ∧ field mem p 20 4 = 1 ∧ field mem p 18 2 = EM_X86_64

instance (mem : Memory 32) (p : BitVec 32) : Decidable (elf32HeaderIsValid mem p) :=
  inferInstanceAs (Decidable (_ ∧ _ ∧ _ ∧ _))

instance (mem : Memory 32) (p : BitVec 32) : Decidable (elf64HeaderIsValid mem p) :=
  inferInstanceAs (Decidable (_ ∧ _ ∧ _))

def headerIsValid (mem : Memory 32) (p : BitVec 32) : ElfClass → Prop
  | .elfclass32 => elf32HeaderIsValid mem p
  | .elfclass64 => elf64HeaderIsValid mem p

instance (mem : Memory 32) (p : BitVec 32) : (c : ElfClass) → Decidable (headerIsValid mem p c)
  | .elfclass32 => inferInstanceAs (Decidable (elf32HeaderIsValid mem p))
  | .elfclass64 => inferInstanceAs (Decidable (elf64HeaderIsValid mem p))

/-- `GET_PHDR` and `GET_SHDR`: the record `i` of a table. -/
def tableEntry (table : BitVec 32) (i entsize : ℕ) : BitVec 32 :=
  table + BitVec.ofNat 32 (i * entsize)

/-- Rounds of a loop `for (i = 0; i < (int16_t)n; ++i)` over an `int16_t`. -/
def int16Bound (n : ℕ) : ℕ := if n < 0x8000 then n else 0

/-- The product of two `uint16_t` as a `uint32_t`. -/
def tableSize (num entsize : ℕ) : BitVec 32 := BitVec.ofNat 32 (num * entsize)

section records
variable {c : ElfClass} {m m' : Memory 32} {p p' : BitVec 32}

theorem field_eq_load (m : Memory 32) (p : BitVec 32) (o n : ℕ) :
    field m p o n = m.load (p + BitVec.ofNat 32 o) n := by
  have hlt := m.load_lt (p + BitVec.ofNat 32 o) n
  unfold field Memory.field
  rw [Nat.mul_div_cancel_left n (by decide), BitVec.toNat_ofNat, Nat.pow_mul]
  exact Nat.mod_eq_of_lt hlt

theorem field_lt (m : Memory 32) (p : BitVec 32) (o n : ℕ) : field m p o n < 256 ^ n := by
  rw [field_eq_load]
  exact m.load_lt _ n

/-- A field depends on the bytes of its record only. -/
theorem field_congr {k o n : ℕ} (h : Memory.Same m p m' p' k) (hk : o + n ≤ k) :
    field m p o n = field m' p' o n := by
  unfold field
  rw [Memory.field_congr h (by omega)]

theorem field_store (m : Memory 32) (p : BitVec 32) (o v : ℕ) {n : ℕ} (hn : n ≤ 2 ^ 32) :
    field (m.store (p + BitVec.ofNat 32 o) n v) p o n = v % 256 ^ n := by
  rw [field_eq_load]
  exact m.load_store _ v hn

/-- A word that has just been stored. -/
theorem field_stored (m : Memory 32) (p : BitVec 32) (v : ℕ) {n : ℕ} (hn : n ≤ 2 ^ 32) :
    field (m.store p n v) p 0 n = v % 256 ^ n := by
  have h := field_store m p 0 v hn
  rwa [show p + BitVec.ofNat 32 0 = p from BitVec.add_zero p] at h

/-- A store into a record beside the field. -/
theorem field_store_of_disjoint (m : Memory 32) (p : BitVec 32) (v : ℕ) {o n o' n' : ℕ}
    (h : o + n ≤ o' ∨ o' + n' ≤ o) (hn : o + n ≤ 2 ^ 32) (hn' : o' + n' ≤ 2 ^ 32) :
    field (m.store (p + BitVec.ofNat 32 o') n' v) p o n = field m p o n := by
  rw [field_eq_load, field_eq_load]
  apply Memory.Same.load_eq
  apply Memory.Same.of_unchanged
  · intro x hx
    exact Memory.store_of_not_inSpan _ _ (apart_offset h hn hn' x hx)
  · omega

/-- A record elsewhere reads as before. -/
theorem field_store_of_apart (m : Memory 32) {t p : BitVec 32} {n k o l : ℕ} (v : ℕ)
    (h : Apart t n p k) (ho : o + l ≤ k) (hk : k ≤ 2 ^ 32) :
    field (m.store t n v) p o l = field m p o l := by
  apply field_congr _ ho
  apply Memory.Same.of_unchanged _ hk
  exact fun x hx => Memory.store_of_not_inSpan m v fun ht => h x ht hx

theorem readEhdr_congr (h : Memory.Same m p m' p' c.ehdrSize) :
    readEhdr m p c = readEhdr m' p' c := by
  cases c <;>
  · unfold readEhdr ElfClass.ehdrSize at *
    simp only [Ehdr.mk.injEq]
    refine ⟨?_, ?_, ?_, ?_, ?_, ?_, ?_, ?_⟩ <;> exact field_congr h (by decide)

theorem readPhdr_congr (h : Memory.Same m p m' p' c.phdrSize) :
    readPhdr m p c = readPhdr m' p' c := by
  cases c <;>
  · unfold readPhdr ElfClass.phdrSize at *
    simp only [Phdr.mk.injEq]
    refine ⟨?_, ?_, ?_, ?_, ?_, ?_⟩ <;> exact field_congr h (by decide)

theorem headerIsValid_congr (h : Memory.Same m p m' p' c.ehdrSize) :
    headerIsValid m p c ↔ headerIsValid m' p' c := by
  have hsize : 52 ≤ c.ehdrSize := by cases c <;> decide
  have hbyte : ∀ k < 52, m (p + BitVec.ofNat 32 k) = m' (p' + BitVec.ofNat 32 k) :=
    fun k hk => h k (by omega)
  have h0 := hbyte 0 (by decide)
  have hp : ∀ q : BitVec 32, q + BitVec.ofNat 32 0 = q := fun q => BitVec.add_zero q
  rw [hp, hp] at h0
  have hident : ∀ b, identIsValid m p b ↔ identIsValid m' p' b := by
    intro b
    unfold identIsValid
    rw [h0, show m (p + 4) = _ from hbyte 4 (by decide), show m (p + 1) = _ from hbyte 1 (by decide),
      show m (p + 2) = _ from hbyte 2 (by decide), show m (p + 3) = _ from hbyte 3 (by decide),
      show m (p + 5) = _ from hbyte 5 (by decide)]
    rfl
  have hfield : ∀ o n, o + n ≤ 52 → field m p o n = field m' p' o n :=
    fun o n hn => field_congr h (by omega)
  cases c with
  | elfclass32 =>
    unfold headerIsValid elf32HeaderIsValid
    dsimp only
    rw [hident, show m (p + 6) = _ from hbyte 6 (by decide), hfield 20 4 (by decide),
      hfield 18 2 (by decide)]
    rfl
  | elfclass64 =>
    unfold headerIsValid elf64HeaderIsValid
    dsimp only
    rw [hident, hfield 20 4 (by decide), hfield 18 2 (by decide)]

theorem field_pVaddr (m : Memory 32) (p : BitVec 32) (c : ElfClass) :
    field m p c.pVaddr c.addrSize = (readPhdr m p c).pVaddr := by
  cases c <;> rfl

theorem pPaddr_lt (m : Memory 32) (p : BitVec 32) (c : ElfClass) :
    (readPhdr m p c).pPaddr < 256 ^ c.addrSize := by
  cases c <;> exact field_lt _ _ _ _

theorem tableEntry_eq (d : BitVec 32) (o i n : ℕ) :
    tableEntry (d + BitVec.ofNat 32 o) i n = d + BitVec.ofNat 32 (o + i * n) :=
  add_ofNat_ofNat d o (i * n)

end records

/-- `elf_load_info_t`; the class stands for `machine_type`. -/
structure ElfLoadInfo where
  machineType : ElfClass
  startAddr : ℕ
  endAddr : ℕ
  entryAddr : ℕ
  sectionsAddr : ℕ
  relocationOffset : ℕ
  copySectionHeaders : Bool
  copySymbolTables : Bool
  deriving DecidableEq

/-- `runaway` is no status of the code: a loop over sections that does not end. -/
inductive MonStatus
  | monOk
  | monError
  | runaway
  deriving DecidableEq

end IkgtLoader.Ld
