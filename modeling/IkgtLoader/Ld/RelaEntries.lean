import IkgtLoader.Flat.Scatter
import IkgtLoader.Ld.DynamicTables

/-! The entries of a RELA table and what one round of `do_relocation` does with one of them. -/
namespace IkgtLoader.Ld
open Flat Loop

namespace ElfClass

/-- `sizeof(elfN_rela_t)`. -/
def relaSize : ElfClass → ℕ
  | .elfclass32 => 12
  | .elfclass64 => 24

/-- `sizeof(elfN_sym_t)`. -/
def symSize : ElfClass → ℕ
  | .elfclass32 => 16
  | .elfclass64 => 24

def stValue : ElfClass → ℕ
  | .elfclass32 => 4
  | .elfclass64 => 8

end ElfClass

structure RelaEntry where
  rOffset : ℕ
  rInfo : ℕ
  rAddend : ℕ
  deriving DecidableEq

def readRela (c : ElfClass) (mem : Memory 32) (rela : BitVec 32) (i : ℕ) : RelaEntry :=
  let e := tableEntry rela i c.relaSize
  ⟨field mem e 0 c.addrSize, field mem e c.addrSize c.addrSize,
    field mem e (2 * c.addrSize) c.addrSize⟩

namespace RelaEntry

/-- `R_386_32` and `R_X86_64_64`. -/
def absolute : ℕ := 1

/-- `R_386_RELATIVE` and `R_X86_64_RELATIVE`. -/
def relative : ℕ := 8

def type (e : RelaEntry) : ℕ := e.rInfo % 256

def symtabIdx (c : ElfClass) (e : RelaEntry) : ℕ :=
  match c with
  | .elfclass32 => e.rInfo / 2 ^ 8
  | .elfclass64 => e.rInfo / 2 ^ 32

def target (relocationOffset : ℕ) (e : RelaEntry) : BitVec 32 :=
  BitVec.ofNat 32 (e.rOffset + relocationOffset)

/-- The entry names a word that is stored. -/
def Writes (e : RelaEntry) : Prop := e.type = absolute ∨ e.type = relative

instance (e : RelaEntry) : Decidable e.Writes := inferInstanceAs (Decidable (_ ∨ _))

def Supported (e : RelaEntry) : Prop := e.type = 0 ∨ e.Writes

instance (e : RelaEntry) : Decidable e.Supported := inferInstanceAs (Decidable (_ ∨ _))

end RelaEntry

/-- `symtab[k].st_value`. -/
def symbolValue (c : ElfClass) (mem : Memory 32) (symtab : BitVec 32) (k : ℕ) : ℕ :=
  field mem (tableEntry symtab k c.symSize) c.stValue c.addrSize

/-- The value that belongs into the target word. -/
def relocatedValue (c : ElfClass) (mem : Memory 32) (symtab : BitVec 32) (relocationOffset : ℕ)
    (e : RelaEntry) : ℕ :=
  e.rAddend + relocationOffset +
    if e.type = RelaEntry.absolute then symbolValue c mem symtab (e.symtabIdx c) else 0

/-- Only the symbol of the entry is read. -/
theorem relocatedValue_congr {c : ElfClass} {m m' : Memory 32} {symtab : BitVec 32} {r : ℕ}
    {e : RelaEntry} (h : e.type = RelaEntry.absolute →
      symbolValue c m' symtab (e.symtabIdx c) = symbolValue c m symtab (e.symtabIdx c)) :
    relocatedValue c m' symtab r e = relocatedValue c m symtab r e := by
  unfold relocatedValue
  split
  next habs => rw [h habs]
  next => rfl

/-- The round for entry `i` of either class. -/
def relaStep (c : ElfClass) (rela symtab : BitVec 32) (relocationOffset : ℕ) :
    ℕ → Loader → Outcome Loader :=
  match c with
  | .elfclass32 => rela32Step rela symtab (BitVec.ofNat 32 relocationOffset)
  | .elfclass64 => rela64Step rela symtab relocationOffset

theorem field_zero (m : Memory 32) (p : BitVec 32) (n : ℕ) : field m p 0 n = m.load p n := by
  rw [field_eq_load, show p + BitVec.ofNat 32 0 = p from BitVec.add_zero p]

/-- A field in two parts. -/
theorem field_split (m : Memory 32) (p : BitVec 32) (o j k : ℕ) :
    field m p o (j + k) = field m p o j + 256 ^ j * field m p (o + j) k := by
  simp only [field_eq_load]
  rw [Memory.load_add, add_ofNat_ofNat]

section step
variable {c : ElfClass} {rela symtab : BitVec 32} {r i : ℕ} {s : Loader}

theorem relaStep_unsupported (h : ¬ (readRela c s.mem rela i).Supported) :
    relaStep c rela symtab r i s = .quit s := by
  have hne : ∀ k, k = 0 ∨ k = 1 ∨ k = 8 → (readRela c s.mem rela i).type ≠ k := by
    rintro k hk rfl
    apply h
    unfold RelaEntry.Supported RelaEntry.Writes RelaEntry.absolute RelaEntry.relative
    exact hk
  have h0 := hne 0 (by decide)
  have h1 := hne 1 (by decide)
  have h8 := hne 8 (by decide)
  cases c with
  | elfclass32 =>
    change field s.mem (tableEntry rela i 12) 4 4 % 256 ≠ _ at h0 h1 h8
    unfold relaStep rela32Step
    dsimp only
    split <;> first | contradiction | rfl
  | elfclass64 =>
    change field s.mem (tableEntry rela i 24) 8 8 % 256 ≠ _ at h0 h1 h8
    unfold relaStep rela64Step
    dsimp only
    split <;> first | contradiction | rfl

theorem relaStep_none (h : (readRela c s.mem rela i).type = 0) :
    relaStep c rela symtab r i s = .next s := by
  cases c with
  | elfclass32 =>
    change field s.mem (tableEntry rela i 12) 4 4 % 256 = 0 at h
    unfold relaStep rela32Step
    dsimp only
    rw [h]
    rfl
  | elfclass64 =>
    change field s.mem (tableEntry rela i 24) 8 8 % 256 = 0 at h
    unfold relaStep rela64Step
    dsimp only
    rw [h]
    rfl

variable (symtab r) in
theorem relaStep_relative (h : (readRela c s.mem rela i).type = RelaEntry.relative) :
    ∃ site v, relaStep c rela symtab r i s =
        .next (s.store site ((readRela c s.mem rela i).target r) c.addrSize v) ∧
      v % 256 ^ c.addrSize =
        relocatedValue c s.mem symtab r (readRela c s.mem rela i) % 256 ^ c.addrSize := by
  unfold relocatedValue
  rw [if_neg (show (readRela c s.mem rela i).type ≠ RelaEntry.absolute by rw [h]; decide)]
  cases c with
  | elfclass32 =>
    change field s.mem (tableEntry rela i 12) 4 4 % 256 = 8 at h
    unfold relaStep rela32Step RelaEntry.target
    dsimp only
    rw [h]
    refine ⟨.target (field s.mem (tableEntry rela i 12) 0 4),
      field s.mem (tableEntry rela i 12) 8 4 + (BitVec.ofNat 32 r).toNat, ?_, ?_⟩
    · rw [BitVec.ofNat_add]
      rfl
    · change (field s.mem (tableEntry rela i 12) 8 4 + (BitVec.ofNat 32 r).toNat) % 256 ^ 4 =
        (field s.mem (tableEntry rela i 12) 8 4 + r + 0) % 256 ^ 4
      rw [BitVec.toNat_ofNat]
      omega
  | elfclass64 =>
    change field s.mem (tableEntry rela i 24) 8 8 % 256 = 8 at h
    unfold relaStep rela64Step RelaEntry.target
    dsimp only
    rw [h]
    exact ⟨.target (field s.mem (tableEntry rela i 24) 0 8),
      field s.mem (tableEntry rela i 24) 16 8 + r, rfl, rfl⟩

/-- The word is stored twice, and the entry and its symbol are read in between. -/
theorem relaStep_absolute (h : (readRela c s.mem rela i).type = RelaEntry.absolute)
    (hentry : Apart ((readRela c s.mem rela i).target r) c.addrSize (tableEntry rela i c.relaSize)
      c.relaSize)
    (hsymbol : Apart ((readRela c s.mem rela i).target r) c.addrSize
      (tableEntry symtab ((readRela c s.mem rela i).symtabIdx c) c.symSize) c.symSize) :
    ∃ site v v', relaStep c rela symtab r i s =
        .next ((s.store site ((readRela c s.mem rela i).target r) c.addrSize v).store site
          ((readRela c s.mem rela i).target r) c.addrSize v') ∧
      v' % 256 ^ c.addrSize =
        relocatedValue c s.mem symtab r (readRela c s.mem rela i) % 256 ^ c.addrSize := by
  unfold relocatedValue
  rw [if_pos h]
  cases c with
  | elfclass32 =>
    have htarget : (readRela .elfclass32 s.mem rela i).target r =
        BitVec.ofNat 32 (field s.mem (tableEntry rela i 12) 0 4) + BitVec.ofNat 32 r := by
      unfold RelaEntry.target
      rw [BitVec.ofNat_add]
      rfl
    rw [htarget] at hentry hsymbol ⊢
    change Apart _ 4 (tableEntry rela i 12) 12 at hentry
    change Apart _ 4 (tableEntry symtab (field s.mem (tableEntry rela i 12) 4 4 / 256) 16) 16 at hsymbol
    change field s.mem (tableEntry rela i 12) 4 4 % 256 = 1 at h
    unfold relaStep rela32Step
    dsimp only
    rw [h]
    generalize BitVec.ofNat 32 (field s.mem (tableEntry rela i 12) 0 4) + BitVec.ofNat 32 r = t
      at hentry hsymbol ⊢
    refine ⟨_, _, _, rfl, ?_⟩
    change (field (s.mem.store t 4 _) t 0 4 + field (s.mem.store t 4 _)
      (tableEntry symtab (field (s.mem.store t 4 _) (tableEntry rela i 12) 4 4 / 256) 16) 4 4) %
        256 ^ 4 = _
    rw [field_store_of_apart _ _ hentry (by decide) (by decide),
      field_store_of_apart _ _ hsymbol (by decide) (by decide), field_stored _ _ _ (by decide),
      BitVec.toNat_ofNat]
    change _ = (field s.mem (tableEntry rela i 12) 8 4 + r + field s.mem
      (tableEntry symtab (field s.mem (tableEntry rela i 12) 4 4 / 256) 16) 4 4) % 256 ^ 4
    omega
  | elfclass64 =>
    have hhigh : field s.mem (tableEntry rela i 24) 8 8 / 2 ^ 32 =
        field s.mem (tableEntry rela i 24) 12 4 := by
      have hlow := field_lt s.mem (tableEntry rela i 24) 8 4
      have hsplit := field_split s.mem (tableEntry rela i 24) 8 4 4
      change field s.mem (tableEntry rela i 24) 8 8 = _ + _ * field s.mem (tableEntry rela i 24) 12 4
        at hsplit
      omega
    have hidx : tableEntry symtab (field s.mem (tableEntry rela i 24) 8 8 / 2 ^ 32) 24 =
        symtab + BitVec.ofNat 32 (field s.mem (tableEntry rela i 24) 12 4) * 24 := by
      rw [hhigh, tableEntry, BitVec.ofNat_mul]
      rfl
    change Apart (BitVec.ofNat 32 (field s.mem (tableEntry rela i 24) 0 8 + r)) 8 (tableEntry rela i 24)
      24 at hentry
    change Apart (BitVec.ofNat 32 (field s.mem (tableEntry rela i 24) 0 8 + r)) 8
      (tableEntry symtab (field s.mem (tableEntry rela i 24) 8 8 / 2 ^ 32) 24) 24
      at hsymbol
    change field s.mem (tableEntry rela i 24) 8 8 % 256 = 1 at h
    rw [hidx] at hsymbol
    unfold relaStep rela64Step
    dsimp only
    rw [h]
    refine ⟨_, _, _, rfl, ?_⟩
    change (field (s.mem.store _ 8 _) _ 0 8 + field (s.mem.store _ 8 _)
      (symtab + BitVec.ofNat 32 (field (s.mem.store _ 8 _) (tableEntry rela i 24) 12 4) * 24) 8 8) %
        256 ^ 8 = (field s.mem (tableEntry rela i 24) 16 8 + r + field s.mem
          (tableEntry symtab (field s.mem (tableEntry rela i 24) 8 8 / 2 ^ 32) 24) 8 8) % 256 ^ 8
    rw [hidx, field_store_of_apart _ _ hentry (by decide) (by decide),
      field_store_of_apart _ _ hsymbol (by decide) (by decide), field_stored _ _ _ (by decide)]
    omega

variable (rela symtab r i s) in
/-- An entry that is supported stores the value that belongs into its word, and nothing else. -/
theorem relaStep_supported (h : (readRela c s.mem rela i).Supported)
    (hentry : (readRela c s.mem rela i).Writes → Apart ((readRela c s.mem rela i).target r)
      c.addrSize (tableEntry rela i c.relaSize) c.relaSize)
    (hsymbol : (readRela c s.mem rela i).type = RelaEntry.absolute →
      Apart ((readRela c s.mem rela i).target r) c.addrSize
        (tableEntry symtab ((readRela c s.mem rela i).symtabIdx c) c.symSize) c.symSize) :
    ∃ t, relaStep c rela symtab r i s = .next t ∧
      (¬ (readRela c s.mem rela i).Writes → t.mem = s.mem) ∧
      ((readRela c s.mem rela i).Writes →
        t.mem.load ((readRela c s.mem rela i).target r) c.addrSize =
          relocatedValue c s.mem symtab r (readRela c s.mem rela i) % 256 ^ c.addrSize ∧
        ∀ x, ¬ InSpan ((readRela c s.mem rela i).target r) c.addrSize x → t.mem x = s.mem x) := by
  have hw : c.addrSize ≤ 2 ^ 32 := by cases c <;> decide
  rcases h with h | h | h
  · have hnot : ¬ (readRela c s.mem rela i).Writes := by
      unfold RelaEntry.Writes
      rw [h]
      decide
    exact ⟨s, relaStep_none h, fun _ => rfl, fun hw => absurd hw hnot⟩
  · obtain ⟨site, v, v', hstep, hv⟩ := relaStep_absolute h (hentry (.inl h)) (hsymbol h)
    refine ⟨_, hstep, fun hn => absurd (.inl h) hn, fun _ => ⟨?_, fun x hx => ?_⟩⟩
    · rw [← hv]
      exact Memory.load_store _ _ _ hw
    · exact (Memory.store_of_not_inSpan _ _ hx).trans (Memory.store_of_not_inSpan _ _ hx)
  · obtain ⟨site, v, hstep, hv⟩ := relaStep_relative symtab r h
    refine ⟨_, hstep, fun hn => absurd (.inr h) hn, fun _ => ⟨?_, fun x hx => ?_⟩⟩
    · rw [← hv]
      exact Memory.load_store _ _ _ hw
    · exact Memory.store_of_not_inSpan _ _ hx

end step

end IkgtLoader.Ld
