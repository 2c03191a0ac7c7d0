import IkgtLoader.Ld.RelaSemantics

/-! The entries of a REL table, whose addends lie in the words that are relocated, and what
`elf32_do_relocation` does with them. -/
namespace IkgtLoader.Ld
open Flat Loop

/-- `sizeof(elf32_rel_t)`. -/
def relSize : ℕ := 8

/-- `rel[i]` and the word that it names. -/
def readRel (mem : Memory 32) (rel : BitVec 32) (r i : ℕ) : RelaEntry :=
  let e := tableEntry rel i relSize
  ⟨field mem e 0 4, field mem e 4 4, mem.load (BitVec.ofNat 32 (field mem e 0 4 + r)) 4⟩

section step
variable {rel symtab : BitVec 32} {r i : ℕ} {s : Loader}

theorem target_eq_add (mem : Memory 32) (rel : BitVec 32) (r i : ℕ) :
    BitVec.ofNat 32 (field mem (tableEntry rel i relSize) 0 4) + BitVec.ofNat 32 r =
      (readRel mem rel r i).target r := by
  unfold readRel RelaEntry.target
  rw [BitVec.ofNat_add]

/-- Here `R_386_NONE` is not supported. -/
theorem rel32Step_refused (h : ¬ (readRel s.mem rel r i).Writes) :
    rel32Step rel symtab (BitVec.ofNat 32 r) i s = .quit s := by
  have h1 : (readRel s.mem rel r i).type ≠ 1 := fun ht => h (.inl ht)
  have h8 : (readRel s.mem rel r i).type ≠ 8 := fun ht => h (.inr ht)
  change field s.mem (tableEntry rel i 8) 4 4 % 256 ≠ _ at h1 h8
  unfold rel32Step
  dsimp only
  split <;> first | contradiction | rfl

variable (symtab) in
theorem rel32Step_relative (h : (readRel s.mem rel r i).type = RelaEntry.relative) :
    ∃ site v, rel32Step rel symtab (BitVec.ofNat 32 r) i s =
        .next (s.store site ((readRel s.mem rel r i).target r) 4 v) ∧
      v % 256 ^ 4 =
        relocatedValue .elfclass32 s.mem symtab r (readRel s.mem rel r i) % 256 ^ 4 := by
  unfold relocatedValue
  rw [if_neg (show (readRel s.mem rel r i).type ≠ RelaEntry.absolute by rw [h]; decide)]
  change field s.mem (tableEntry rel i relSize) 4 4 % 256 = 8 at h
  unfold rel32Step
  dsimp only
  rw [show tableEntry rel i 8 = tableEntry rel i relSize from rfl, h, target_eq_add]
  refine ⟨_, _, rfl, ?_⟩
  rw [BitVec.toNat_ofNat, field_zero]
  change _ = (s.mem.load ((readRel s.mem rel r i).target r) 4 + r + 0) % 256 ^ 4
  omega

/-- The word is stored twice, and the entry and its symbol are read in between. -/
theorem rel32Step_absolute (h : (readRel s.mem rel r i).type = RelaEntry.absolute)
    (hentry : Apart ((readRel s.mem rel r i).target r) 4 (tableEntry rel i relSize) relSize)
    (hsymbol : Apart ((readRel s.mem rel r i).target r) 4
      (tableEntry symtab ((readRel s.mem rel r i).symtabIdx .elfclass32) 16) 16) :
    ∃ site v v', rel32Step rel symtab (BitVec.ofNat 32 r) i s =
        .next ((s.store site ((readRel s.mem rel r i).target r) 4 v).store site
          ((readRel s.mem rel r i).target r) 4 v') ∧
      v' % 256 ^ 4 =
        relocatedValue .elfclass32 s.mem symtab r (readRel s.mem rel r i) % 256 ^ 4 := by
  unfold relocatedValue
  rw [if_pos h]
  change Apart _ 4 (tableEntry symtab (field s.mem (tableEntry rel i relSize) 4 4 / 256) 16) 16
    at hsymbol
  change field s.mem (tableEntry rel i relSize) 4 4 % 256 = 1 at h
  unfold rel32Step
  dsimp only
  rw [show tableEntry rel i 8 = tableEntry rel i relSize from rfl, h, target_eq_add]
  refine ⟨_, _, _, rfl, ?_⟩
  change (field (s.mem.store _ 4 _) _ 0 4 + field (s.mem.store _ 4 _)
    (tableEntry symtab (field (s.mem.store _ 4 _) (tableEntry rel i relSize) 4 4 / 256) 16) 4 4) %
      256 ^ 4 = (s.mem.load ((readRel s.mem rel r i).target r) 4 + r + field s.mem
        (tableEntry symtab (field s.mem (tableEntry rel i relSize) 4 4 / 256) 16) 4 4) % 256 ^ 4
  rw [field_store_of_apart _ _ hentry (by decide) (by decide),
    field_store_of_apart _ _ hsymbol (by decide) (by decide), field_stored _ _ _ (by decide),
    field_zero, BitVec.toNat_ofNat]
  omega

variable (symtab) in
/-- An entry that names a word adds to it, and changes nothing else. -/
theorem rel32Step_writes (h : (readRel s.mem rel r i).Writes)
    (hentry : Apart ((readRel s.mem rel r i).target r) 4 (tableEntry rel i relSize) relSize)
    (hsymbol : (readRel s.mem rel r i).type = RelaEntry.absolute →
      Apart ((readRel s.mem rel r i).target r) 4
        (tableEntry symtab ((readRel s.mem rel r i).symtabIdx .elfclass32) 16) 16) :
    ∃ t, rel32Step rel symtab (BitVec.ofNat 32 r) i s = .next t ∧
      t.mem.load ((readRel s.mem rel r i).target r) 4 =
        relocatedValue .elfclass32 s.mem symtab r (readRel s.mem rel r i) % 256 ^ 4 ∧
      ∀ x, ¬ InSpan ((readRel s.mem rel r i).target r) 4 x → t.mem x = s.mem x := by
  rcases h with h | h
  · obtain ⟨site, v, v', hstep, hv⟩ := rel32Step_absolute h hentry (hsymbol h)
    refine ⟨_, hstep, ?_, fun x hx => ?_⟩
    · rw [← hv]
      exact Memory.load_store _ _ _ (by decide)
    · exact (Memory.store_of_not_inSpan _ _ hx).trans (Memory.store_of_not_inSpan _ _ hx)
  · obtain ⟨site, v, hstep, hv⟩ := rel32Step_relative symtab h
    refine ⟨_, hstep, ?_, fun x hx => ?_⟩
    · rw [← hv]
      exact Memory.load_store _ _ _ (by decide)
    · exact Memory.store_of_not_inSpan _ _ hx

end step

/-- A REL table of these relocations: offsets and types lie in the table, addends in the words. -/
structure HoldsRel (m : Memory 32) (rel : BitVec 32) (r : ℕ) (l : List RelaEntry) : Prop where
  offset : ∀ i, ∀ hi : i < l.length, field m (tableEntry rel i relSize) 0 4 = l[i].rOffset
  info : ∀ i, ∀ hi : i < l.length, field m (tableEntry rel i relSize) 4 4 = l[i].rInfo
  addend : ∀ e ∈ l, e.Writes → m.load (e.target r) 4 = e.rAddend

/-- The symbols are in their table of `symbols` entries, and the words that are named lie apart
from each other, from it and from the table of the relocations. -/
structure WordsApart (l : List RelaEntry) (r : ℕ) (table : BitVec 32) (size : ℕ) (symtab : BitVec 32)
    (symbols : ℕ) : Prop where
  symbol : ∀ e ∈ l, e.type = RelaEntry.absolute → e.symtabIdx .elfclass32 < symbols
  words : l.Pairwise fun e f => e.Writes → f.Writes → Apart (e.target r) 4 (f.target r) 4
  table : ∀ e ∈ l, e.Writes → Apart (e.target r) 4 table (l.length * size)
  symbolTable : ∀ e ∈ l, e.Writes → Apart (e.target r) 4 symtab (symbols * 16)

section loop
variable {l : List RelaEntry} {r i size symbols : ℕ} {table symtab : BitVec 32} {m : Memory 32}
  {s : Loader}

namespace WordsApart

theorem entry (h : WordsApart l r table size symtab symbols) (hi : i < l.length) :
    ∀ e ∈ l, e.Writes → Apart (e.target r) 4 (tableEntry table i size) size := by
  intro e he hw
  apply (h.table e he hw).part
  have hle := Nat.mul_le_mul_right size hi
  rwa [Nat.succ_mul] at hle

theorem symbolEntry (h : WordsApart l r table size symtab symbols) {k : ℕ} (hk : k < symbols) :
    ∀ e ∈ l, e.Writes → Apart (e.target r) 4 (tableEntry symtab k 16) 16 := by
  intro e he hw
  apply (h.symbolTable e he hw).part
  have hle := Nat.mul_le_mul_right 16 hk
  rwa [Nat.succ_mul] at hle

/-- The word of an entry lies apart from those before it. -/
theorem before (h : WordsApart l r table size symtab symbols) (hi : i < l.length) :
    ∀ e ∈ l.take i, e.Writes → l[i].Writes → Apart (e.target r) 4 (l[i].target r) 4 := by
  have hpair := h.words.sublist (List.take_sublist (i + 1) l)
  rw [List.take_succ_eq_append_getElem hi, List.pairwise_append] at hpair
  exact fun e he => hpair.2.2 e he _ (List.mem_singleton_self _)

end WordsApart

/-- The words of the entries before have left entry `i` and its addend as they were. -/
theorem HoldsRel.read (h : HoldsRel m table r l) (ha : WordsApart l r table relSize symtab symbols)
    (hi : i < l.length)
    (hs : Memory.Scattered 4 (relaWords .elfclass32 m symtab r (l.take i)) m s.mem) :
    (readRel s.mem table r i).rInfo = l[i].rInfo ∧
      (l[i].Writes → readRel s.mem table r i = l[i]) := by
  have hentry : Memory.Same s.mem (tableEntry table i relSize) m (tableEntry table i relSize)
      relSize :=
    same_of_scattered (c := .elfclass32) (by decide) hs fun e he => ha.entry hi e (List.mem_of_mem_take he)
  have hoffset : field s.mem (tableEntry table i relSize) 0 4 = l[i].rOffset := by
    rw [field_congr hentry (by decide), h.offset i hi]
  have hinfo : field s.mem (tableEntry table i relSize) 4 4 = l[i].rInfo := by
    rw [field_congr hentry (by decide), h.info i hi]
  refine ⟨hinfo, fun hw => ?_⟩
  have hword : Memory.Same s.mem (l[i].target r) m (l[i].target r) 4 :=
    same_of_scattered (c := .elfclass32) (by decide) hs fun e he hwe => ha.before hi e he hwe hw
  have haddend : s.mem.load (l[i].target r) 4 = l[i].rAddend := by
    rw [hword.load_eq, h.addend _ (List.getElem_mem hi) hw]
  unfold readRel
  dsimp only
  rw [hoffset, hinfo]
  change RelaEntry.mk _ _ (s.mem.load (l[i].target r) 4) = _
  rw [haddend]

theorem HoldsRel.round (h : HoldsRel m table r l) (ha : WordsApart l r table relSize symtab symbols)
    (hi : i < l.length)
    (hs : Memory.Scattered 4 (relaWords .elfclass32 m symtab r (l.take i)) m s.mem) :
    Performs .elfclass32 m symtab r RelaEntry.Writes l[i] s
      (rel32Step table symtab (BitVec.ofNat 32 r) i s) := by
  have hmem : l[i] ∈ l := List.getElem_mem hi
  obtain ⟨hinfo, hread⟩ := h.read ha hi hs
  constructor
  · intro hno
    apply rel32Step_refused
    unfold RelaEntry.Writes RelaEntry.type at *
    rwa [hinfo]
  · intro hw
    have hread := hread hw
    obtain ⟨t, ht, hload, hrest⟩ := rel32Step_writes symtab (s := s) (by rwa [hread])
      (by rw [hread]; exact ha.entry hi _ hmem hw) (by
        rw [hread]
        exact fun habs => ha.symbolEntry (ha.symbol _ hmem habs) _ hmem hw)
    rw [hread] at hload hrest
    refine ⟨t, ht, fun hn => absurd hw hn, fun _ => ⟨?_, hrest⟩⟩
    apply hload.trans
    rw [relocatedValue_congr]
    · rfl
    intro habs
    apply symbolValue_congr
    exact same_of_scattered (c := .elfclass32) (by decide) hs fun e he =>
      ha.symbolEntry (ha.symbol _ hmem habs) e (List.mem_of_mem_take he)

/-- The loop succeeds exactly if every entry names a word, and it has relocated the words of the
entries before the first one that does not. -/
theorem relocate_relTable (h : HoldsRel s.mem table r l)
    (ha : WordsApart l r table relSize symtab symbols) :
    ((relocate (rel32Step table symtab (BitVec.ofNat 32 r)) l.length s).2 =
      if ∀ e ∈ l, e.Writes then .monOk else .monError) ∧
    Memory.Scattered 4 (relaWords .elfclass32 s.mem symtab r (l.takeWhile fun e => e.Writes)) s.mem
      (relocate (rel32Step table symtab (BitVec.ofNat 32 r)) l.length s).1.mem :=
  relocate_entries (c := .elfclass32) ha.words fun _ hi _ ht => h.round ha hi ht

end loop

end IkgtLoader.Ld
