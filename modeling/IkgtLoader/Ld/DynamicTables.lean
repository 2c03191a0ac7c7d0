import IkgtLoader.Ld.Accepted

/-! Where `do_relocation` looks for the tables that the dynamic section names. The value of a
tag is a link address; it is moved by the address the image was loaded at, not by the
relocation offset. -/
namespace IkgtLoader.Ld
open Flat

/-- The value of the last entry with a tag, among the entries below `n`. -/
def dynLast (c : ElfClass) (mem : Memory 32) (dynSection : BitVec 32) (tag : ℕ) : ℕ → Option ℕ
  | 0 => none
  | i + 1 =>
    if (dynEntry c mem dynSection i).1 = tag then some (dynEntry c mem dynSection i).2
    else dynLast c mem dynSection tag i

/-- The tags whose values are addresses of tables. -/
def ElfClass.tableTags : ElfClass → List ℕ
  | .elfclass32 => [DT_RELA, DT_SYMTAB, DT_REL]
  | .elfclass64 => [DT_RELA, DT_SYMTAB]

/-- Tags whose values are sizes. -/
def ElfClass.sizeTags : ElfClass → List ℕ
  | .elfclass32 => [DT_RELASZ, DT_RELAENT, DT_SYMENT, DT_RELSZ, DT_RELENT]
  | .elfclass64 => [DT_RELASZ, DT_RELAENT, DT_SYMENT]

def ElfClass.tags (c : ElfClass) : List ℕ := c.tableTags ++ c.sizeTags

/-- What the scan leaves for a tag. -/
def DynInfo.value (d : DynInfo) (tag : ℕ) : BitVec 32 :=
  if tag = DT_RELA then d.rela
  else if tag = DT_RELASZ then d.relaSz
  else if tag = DT_RELAENT then d.relaEntsz
  else if tag = DT_SYMTAB then d.symtab
  else if tag = DT_SYMENT then d.symtabEntsz
  else if tag = DT_REL then d.rel
  else if tag = DT_RELSZ then d.relSz
  else d.relEntsz

/-- The address of a table is moved by the load address, a size is kept as it is. -/
def kept (startAddr tag val : ℕ) : BitVec 32 :=
  if tag ∈ ElfClass.elfclass32.tableTags then BitVec.ofNat 32 (val + startAddr)
  else BitVec.ofNat 32 val

/-- One round of the scan of the dynamic section. -/
def scanStep (c : ElfClass) (startAddr : ℕ) (d : DynInfo) (e : ℕ × ℕ) : DynInfo :=
  match c with
  | .elfclass32 => dynStep32 startAddr d e.1 e.2
  | .elfclass64 => dynStep startAddr d e.1 e.2

/-- A table pointer after the scan. -/
def tablePtr (startAddr : ℕ) : Option ℕ → BitVec 32
  | none => 0
  | some v => BitVec.ofNat 32 (v + startAddr)

section step
variable {c : ElfClass} {startAddr tag val t : ℕ} {d : DynInfo}

theorem ElfClass.mem_tags (ht : t ∈ c.tags) : t = DT_RELA ∨ t = DT_RELASZ ∨ t = DT_RELAENT ∨
    t = DT_SYMTAB ∨ t = DT_SYMENT ∨ c = .elfclass32 ∧ (t = DT_REL ∨ t = DT_RELSZ ∨ t = DT_RELENT) := by
  revert t
  cases c <;> decide

/-- The other tags keep what they had. -/
theorem dynStep_other (ht : t ∈ c.tags) (hne : tag ≠ t) :
    (dynStep startAddr d tag val).value t = d.value t := by
  unfold dynStep
  rcases ElfClass.mem_tags ht with rfl | rfl | rfl | rfl | rfl | ⟨-, rfl | rfl | rfl⟩
  all_goals split_ifs <;> first | rfl | contradiction

theorem scanStep_other (ht : t ∈ c.tags) (hne : tag ≠ t) :
    (scanStep c startAddr d (tag, val)).value t = d.value t := by
  cases c with
  | elfclass64 => exact dynStep_other ht hne
  | elfclass32 =>
    unfold scanStep dynStep32
    dsimp only
    split_ifs
    case neg => exact dynStep_other ht hne
    all_goals rcases ElfClass.mem_tags ht with rfl | rfl | rfl | rfl | rfl | ⟨-, rfl | rfl | rfl⟩
    all_goals first | rfl | contradiction

/-- A round keeps the value of its tag. -/
theorem scanStep_value (c : ElfClass) (startAddr : ℕ) (ht : t ∈ c.tags) (d : DynInfo) (e : ℕ × ℕ) :
    (scanStep c startAddr d e).value t = if e.1 = t then kept startAddr t e.2 else d.value t := by
  obtain ⟨tag, val⟩ := e
  split
  next he =>
    obtain rfl : tag = t := he
    rcases ElfClass.mem_tags ht with rfl | rfl | rfl | rfl | rfl | ⟨rfl, rfl | rfl | rfl⟩
    case inl | inr.inl | inr.inr.inl | inr.inr.inr.inl | inr.inr.inr.inr.inl => cases c <;> rfl
    all_goals rfl
  next he => exact scanStep_other ht he

end step
section scan
variable {c : ElfClass} {mem : Memory 32} {dynSection : BitVec 32} {startAddr n : ℕ}

theorem scanDynamic_succ (c : ElfClass) (mem : Memory 32) (startAddr : ℕ) (dynSection : BitVec 32)
    (n : ℕ) : scanDynamic c mem startAddr dynSection (n + 1) =
      scanStep c startAddr (scanDynamic c mem startAddr dynSection n) (dynEntry c mem dynSection n) := by
  cases c <;> rfl

theorem kept_table {tag : ℕ} (ht : tag ∈ c.tableTags) (startAddr val : ℕ) :
    kept startAddr tag val = BitVec.ofNat 32 (val + startAddr) := by
  apply if_pos
  revert tag
  cases c <;> decide

/-- The scan in terms of the last value of each tag. -/
theorem scanDynamic_table (c : ElfClass) (mem : Memory 32) (startAddr : ℕ) (dynSection : BitVec 32)
    (n : ℕ) {tag : ℕ} (ht : tag ∈ c.tableTags) :
    (scanDynamic c mem startAddr dynSection n).value tag =
      tablePtr startAddr (dynLast c mem dynSection tag n) := by
  induction n with
  | zero =>
    unfold DynInfo.value
    split_ifs <;> rfl
  | succ n ih =>
    rw [scanDynamic_succ, scanStep_value c startAddr (List.mem_append_left _ ht), kept_table ht,
      dynLast]
    split
    · rfl
    · exact ih

/-- Two entries that the scan cannot tell apart. -/
structure SameEntry (c : ElfClass) (startAddr : ℕ) (e e' : ℕ × ℕ) : Prop where
  tag : e'.1 = e.1
  pointer : e.1 ∈ c.tableTags → BitVec.ofNat 32 (e'.2 + startAddr) = BitVec.ofNat 32 (e.2 + startAddr)
  value : e.1 ∈ c.sizeTags → e'.2 = e.2

theorem scanStep_congr (d : DynInfo) {e e' : ℕ × ℕ} (h : SameEntry c startAddr e e') :
    scanStep c startAddr d e' = scanStep c startAddr d e := by
  have hp := h.pointer
  have hv := h.value
  unfold scanStep dynStep32 dynStep
  rw [h.tag]
  cases c
  all_goals
    simp only [ElfClass.tableTags, ElfClass.sizeTags, List.mem_cons, List.not_mem_nil,
      or_false] at hp hv
    dsimp only
    split_ifs <;> simp_all

theorem scanDynamic_congr {mem' : Memory 32} {dynSection' : BitVec 32}
    (h : ∀ k < n, SameEntry c startAddr (dynEntry c mem dynSection k)
      (dynEntry c mem' dynSection' k)) :
    scanDynamic c mem' startAddr dynSection' n = scanDynamic c mem startAddr dynSection n := by
  induction n with
  | zero => rfl
  | succ n ih =>
    rw [scanDynamic_succ, scanDynamic_succ, ih fun k hk => h k (by omega)]
    exact scanStep_congr _ (h n (by omega))

theorem dynLast_congr {mem' : Memory 32} {dynSection' : BitVec 32} {tag : ℕ}
    (h : ∀ k < n, (dynEntry c mem' dynSection' k).1 = (dynEntry c mem dynSection k).1) :
    dynLast c mem' dynSection' tag n = none ↔ dynLast c mem dynSection tag n = none := by
  induction n with
  | zero => exact Iff.rfl
  | succ n ih =>
    rw [dynLast, dynLast, h n (by omega)]
    by_cases ht : (dynEntry c mem dynSection n).1 = tag
    · rw [if_pos ht, if_pos ht]
      exact ⟨fun hn => (Option.some_ne_none _ hn).elim, fun hn => (Option.some_ne_none _ hn).elim⟩
    · rw [if_neg ht, if_neg ht]
      exact ih fun k hk => h k (by omega)

/-- The scan reads nothing but the entries. -/
theorem scanDynamic_of_same {mem' : Memory 32} {dynSection' : BitVec 32}
    (h : ∀ k < n, dynEntry c mem' dynSection' k = dynEntry c mem dynSection k) :
    scanDynamic c mem' startAddr dynSection' n = scanDynamic c mem startAddr dynSection n := by
  apply scanDynamic_congr
  intro k hk
  rw [h k hk]
  exact ⟨rfl, fun _ => rfl, fun _ => rfl⟩

theorem dynLast_of_same {mem' : Memory 32} {dynSection' : BitVec 32} {tag : ℕ}
    (h : ∀ k < n, dynEntry c mem' dynSection' k = dynEntry c mem dynSection k) :
    dynLast c mem' dynSection' tag n = dynLast c mem dynSection tag n := by
  induction n with
  | zero => rfl
  | succ n ih => rw [dynLast, dynLast, h n (by omega), ih fun k hk => h k (by omega)]

end scan

/-- The tables that the scan finds are the loaded copies of the bytes at their link addresses,
for an image whose lowest address is `info.startAddr`. -/
def TablesRight (c : ElfClass) (mem : Memory 32) (dynSection : BitVec 32) (n : ℕ)
    (info : ElfLoadInfo) (dest : BitVec 32) : Prop :=
  ∀ tag ∈ c.tableTags, ∀ v, dynLast c mem dynSection tag n = some v →
    (scanDynamic c mem (info.relocate dest).startAddr dynSection n).value tag =
      BitVec.ofInt 32 ((v : ℤ) - info.startAddr + dest.toNat)

/-- The dynamic section names no table. -/
def NoTables (c : ElfClass) (mem : Memory 32) (dynSection : BitVec 32) (n : ℕ) : Prop :=
  ∀ tag ∈ c.tableTags, dynLast c mem dynSection tag n = none

/-- A pointer moved by the load address instead of the offset is off by the link base. -/
theorem ofNat_add_start_iff (v start : ℕ) (dest : BitVec 32) :
    BitVec.ofNat 32 (v + dest.toNat) = BitVec.ofInt 32 ((v : ℤ) - start + dest.toNat) ↔
      start % 2 ^ 32 = 0 := by
  rw [← BitVec.toNat_inj, BitVec.toNat_ofNat, BitVec.toNat_ofInt]
  omega

theorem tablesRight_iff (c : ElfClass) (mem : Memory 32) (dynSection : BitVec 32) (n : ℕ)
    {info : ElfLoadInfo} (dest : BitVec 32) (hs : info.startAddr < 2 ^ 64) :
    TablesRight c mem dynSection n info dest ↔
      info.startAddr % 2 ^ 32 = 0 ∨ NoTables c mem dynSection n := by
  unfold TablesRight NoTables
  rw [relocate_startAddr hs]
  constructor
  · intro h
    by_cases hz : info.startAddr % 2 ^ 32 = 0
    · exact .inl hz
    right
    intro tag ht
    cases hv : dynLast c mem dynSection tag n with
    | none => rfl
    | some v =>
      have hp := h tag ht v hv
      rw [scanDynamic_table c mem _ dynSection n ht, hv] at hp
      exact absurd ((ofNat_add_start_iff v info.startAddr dest).mp hp) hz
  · rintro (hz | hno) tag ht v hv
    · rw [scanDynamic_table c mem _ dynSection n ht, hv]
      exact (ofNat_add_start_iff v info.startAddr dest).mpr hz
    · rw [hno tag ht] at hv
      cases hv

end IkgtLoader.Ld
