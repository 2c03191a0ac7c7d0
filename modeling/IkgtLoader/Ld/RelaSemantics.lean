import IkgtLoader.Ld.RelocationLoop

/-! What `do_relocation` makes of a RELA table whose words keep out of the tables: the outcome
depends on the entries, not on their order. -/
namespace IkgtLoader.Ld
open Flat Loop

/-- The one entry with a tag has this value. -/
def Once (entries : List (ℕ × ℕ)) (tag val : ℕ) : Prop :=
  entries.filter (fun e => e.1 = tag) = [(tag, val)]

instance (entries : List (ℕ × ℕ)) (tag val : ℕ) : Decidable (Once entries tag val) :=
  inferInstanceAs (Decidable (_ = _))

theorem Once.perm {entries entries' : List (ℕ × ℕ)} {tag val : ℕ} (h : Once entries tag val)
    (hp : entries'.Perm entries) : Once entries' tag val := by
  have hf := hp.filter fun e => decide (e.1 = tag)
  unfold Once at *
  rw [h] at hf
  exact List.perm_singleton.mp hf

section fold
variable {σ β : Type*} {step : σ → ℕ × ℕ → σ} {f : σ → β} {g : ℕ → β} {tag val : ℕ}

theorem foldl_absent (hstep : ∀ d e, f (step d e) = if e.1 = tag then g e.2 else f d)
    (entries : List (ℕ × ℕ)) (d : σ) (h : entries.filter (fun e => e.1 = tag) = []) :
    f (entries.foldl step d) = f d := by
  induction entries generalizing d with
  | nil => rfl
  | cons e entries ih =>
    by_cases he : e.1 = tag
    · rw [List.filter_cons, if_pos (decide_eq_true he)] at h
      cases h
    · rw [List.filter_cons, if_neg (by rwa [decide_eq_true_eq])] at h
      rw [List.foldl_cons, ih _ h, hstep, if_neg he]

/-- What a fold that keeps the last value of a tag leaves. -/
theorem foldl_once (hstep : ∀ d e, f (step d e) = if e.1 = tag then g e.2 else f d)
    (entries : List (ℕ × ℕ)) (d : σ) (h : Once entries tag val) :
    f (entries.foldl step d) = g val := by
  unfold Once at h
  induction entries generalizing d with
  | nil => cases h
  | cons e entries ih =>
    by_cases he : e.1 = tag
    · rw [List.filter_cons, if_pos (decide_eq_true he)] at h
      obtain ⟨rfl, hrest⟩ := List.cons.inj h
      rw [List.foldl_cons, foldl_absent hstep _ _ hrest, hstep, if_pos rfl]
    · rw [List.filter_cons, if_neg (by rwa [decide_eq_true_eq])] at h
      rw [List.foldl_cons]
      exact ih _ h

end fold

def dynEntries (c : ElfClass) (mem : Memory 32) (dynSection : BitVec 32) (n : ℕ) : List (ℕ × ℕ) :=
  (List.range n).map (dynEntry c mem dynSection)

theorem scanDynamic_eq_foldl (c : ElfClass) (mem : Memory 32) (startAddr : ℕ)
    (dynSection : BitVec 32) (n : ℕ) : scanDynamic c mem startAddr dynSection n =
      (dynEntries c mem dynSection n).foldl (scanStep c startAddr) DynInfo.empty := by
  induction n with
  | zero => rfl
  | succ n ih =>
    unfold dynEntries
    rw [List.range_succ, List.map_append, List.foldl_append, scanDynamic_succ, ih]
    rfl

section scan
variable {c : ElfClass} {entries : List (ℕ × ℕ)} {tag val : ℕ}

theorem scan_once (startAddr : ℕ) (ht : tag ∈ c.tags) (h : Once entries tag val) :
    (entries.foldl (scanStep c startAddr) DynInfo.empty).value tag = kept startAddr tag val :=
  foldl_once (f := fun d : DynInfo => d.value tag) (scanStep_value c startAddr ht) _ _ h

theorem scan_absent (startAddr : ℕ) (ht : tag ∈ c.tags)
    (h : entries.filter (fun e => e.1 = tag) = []) :
    (entries.foldl (scanStep c startAddr) DynInfo.empty).value tag = DynInfo.empty.value tag :=
  foldl_absent (f := fun d : DynInfo => d.value tag) (scanStep_value c startAddr ht) _ _ h

end scan

/-- The values of the mandatory tags that are not fixed. -/
structure RelaTags where
  rela : ℕ
  relaSz : ℕ
  symtab : ℕ

/-- The dynamic section holds every mandatory tag once. -/
structure HoldsTags (c : ElfClass) (entries : List (ℕ × ℕ)) (t : RelaTags) : Prop where
  rela : Once entries DT_RELA t.rela
  relaSz : Once entries DT_RELASZ t.relaSz
  relaEnt : Once entries DT_RELAENT c.relaSize
  symtab : Once entries DT_SYMTAB t.symtab
  symEnt : Once entries DT_SYMENT c.symSize
  pos : 0 < t.relaSz
  lt : t.relaSz < 2 ^ 31

theorem HoldsTags.perm {c : ElfClass} {entries entries' : List (ℕ × ℕ)} {t : RelaTags}
    (h : HoldsTags c entries t) (hp : entries'.Perm entries) : HoldsTags c entries' t :=
  ⟨h.rela.perm hp, h.relaSz.perm hp, h.relaEnt.perm hp, h.symtab.perm hp, h.symEnt.perm hp, h.pos,
    h.lt⟩

namespace RelaTags

/-- The tables in memory. -/
def relaTable (t : RelaTags) (info : ElfLoadInfo) : BitVec 32 :=
  BitVec.ofNat 32 (t.rela + info.startAddr)

def symbolTable (t : RelaTags) (info : ElfLoadInfo) : BitVec 32 :=
  BitVec.ofNat 32 (t.symtab + info.startAddr)

def count (t : RelaTags) (c : ElfClass) : ℕ := t.relaSz / c.relaSize

end RelaTags

def relaEntries (c : ElfClass) (mem : Memory 32) (rela : BitVec 32) (n : ℕ) : List RelaEntry :=
  (List.range n).map (readRela c mem rela)

/-- The symbols are in their table of `symbols` entries, and the words that are stored lie apart
from each other and from both tables. -/
structure Relocatable (c : ElfClass) (mem : Memory 32) (r : ℕ) (rela symtab : BitVec 32)
    (n symbols : ℕ) : Prop where
  symbol : ∀ e ∈ relaEntries c mem rela n, e.type = RelaEntry.absolute → e.symtabIdx c < symbols
  words : (relaEntries c mem rela n).Pairwise fun e f => e.Writes → f.Writes →
    Apart (e.target r) c.addrSize (f.target r) c.addrSize
  relaTable : ∀ e ∈ relaEntries c mem rela n, e.Writes →
    Apart (e.target r) c.addrSize rela (n * c.relaSize)
  symbolTable : ∀ e ∈ relaEntries c mem rela n, e.Writes →
    Apart (e.target r) c.addrSize symtab (symbols * c.symSize)

section words
variable {c : ElfClass} {m : Memory 32} {rela symtab : BitVec 32} {r n symbols i : ℕ} {s : Loader}

theorem readRela_mem (hi : i < n) : readRela c m rela i ∈ relaEntries c m rela n :=
  List.mem_map_of_mem (List.mem_range.mpr hi)

theorem relaEntries_length (c : ElfClass) (m : Memory 32) (rela : BitVec 32) (n : ℕ) :
    (relaEntries c m rela n).length = n := by
  simp [relaEntries]

theorem Relocatable.entry (h : Relocatable c m r rela symtab n symbols) (hi : i < n) :
    ∀ e ∈ relaEntries c m rela n, e.Writes →
      Apart (e.target r) c.addrSize (tableEntry rela i c.relaSize) c.relaSize := by
  intro e he hw
  apply (h.relaTable e he hw).part
  have hle := Nat.mul_le_mul_right c.relaSize hi
  rwa [Nat.succ_mul] at hle

theorem Relocatable.symbolEntry (h : Relocatable c m r rela symtab n symbols) {k : ℕ}
    (hk : k < symbols) : ∀ e ∈ relaEntries c m rela n, e.Writes →
      Apart (e.target r) c.addrSize (tableEntry symtab k c.symSize) c.symSize := by
  intro e he hw
  apply (h.symbolTable e he hw).part
  have hle := Nat.mul_le_mul_right c.symSize hk
  rwa [Nat.succ_mul] at hle

theorem readRela_congr {m' : Memory 32} (h : Memory.Same m' (tableEntry rela i c.relaSize) m
    (tableEntry rela i c.relaSize) c.relaSize) : readRela c m' rela i = readRela c m rela i := by
  unfold readRela
  cases c <;>
  · dsimp only
    rw [field_congr h (by decide), field_congr h (by decide), field_congr h (by decide)]

theorem symbolValue_congr {m' : Memory 32} {k : ℕ} (h : Memory.Same m'
    (tableEntry symtab k c.symSize) m (tableEntry symtab k c.symSize) c.symSize) :
    symbolValue c m' symtab k = symbolValue c m symtab k := by
  unfold symbolValue
  cases c <;> exact field_congr h (by decide)

/-- The round for an entry, after the words of those before it. -/
theorem Relocatable.round (h : Relocatable c m r rela symtab n symbols) (hi : i < n)
    (hs : Memory.Scattered c.addrSize (relaWords c m symtab r ((relaEntries c m rela n).take i)) m
      s.mem) :
    Performs c m symtab r RelaEntry.Supported (readRela c m rela i) s
      (relaStep c rela symtab r i s) := by
  have hmem : readRela c m rela i ∈ relaEntries c m rela n := readRela_mem hi
  have hread : readRela c s.mem rela i = readRela c m rela i := by
    apply readRela_congr
    apply same_of_scattered (by cases c <;> decide) hs
    exact fun e he => h.entry hi e (List.mem_of_mem_take he)
  constructor
  · intro hno
    exact relaStep_unsupported (by rwa [hread])
  · intro hsup
    obtain ⟨t, ht, hno, hyes⟩ := relaStep_supported rela symtab r i s (by rwa [hread])
      (by rw [hread]; exact h.entry hi _ hmem) (by
        rw [hread]
        exact fun habs => h.symbolEntry (h.symbol _ hmem habs) _ hmem (.inl habs))
    rw [hread] at hno hyes
    refine ⟨t, ht, hno, fun hwr => ?_⟩
    obtain ⟨hload, hrest⟩ := hyes hwr
    refine ⟨?_, hrest⟩
    rw [hload, relocatedValue_congr]
    intro habs
    apply symbolValue_congr
    apply same_of_scattered (by cases c <;> decide) hs
    exact fun e he => h.symbolEntry (h.symbol _ hmem habs) e (List.mem_of_mem_take he)

/-- The loop succeeds exactly if every entry is supported, and it has stored the words of the
entries before the first one that is not. -/
theorem relocate_rela (h : Relocatable c s.mem r rela symtab n symbols) :
    ((relocate (relaStep c rela symtab r) n s).2 =
      if ∀ e ∈ relaEntries c s.mem rela n, e.Supported then .monOk else .monError) ∧
    Memory.Scattered c.addrSize (relaWords c s.mem symtab r
      ((relaEntries c s.mem rela n).takeWhile fun e => e.Supported)) s.mem
      (relocate (relaStep c rela symtab r) n s).1.mem := by
  have hround : ∀ i, ∀ hi : i < (relaEntries c s.mem rela n).length, ∀ t : Loader,
      Memory.Scattered c.addrSize
        (relaWords c s.mem symtab r ((relaEntries c s.mem rela n).take i)) s.mem t.mem →
      Performs c s.mem symtab r RelaEntry.Supported (relaEntries c s.mem rela n)[i] t
        (relaStep c rela symtab r i t) := by
    intro i hi t ht
    have hget : (relaEntries c s.mem rela n)[i] = readRela c s.mem rela i := by
      simp [relaEntries]
    rw [relaEntries_length] at hi
    rw [hget]
    exact h.round hi ht
  have hrun := relocate_entries h.words hround
  rwa [relaEntries_length] at hrun

end words

/-- The dynamic section in the file, as far as its size is cut to a word. -/
def fileEntries (c : ElfClass) (mem : Memory 32) (ia : MemImageAccess) (ph : Phdr) : List (ℕ × ℕ) :=
  dynEntries c mem (ia.image + BitVec.ofNat 32 ph.pOffset)
    ((BitVec.ofNat 32 ph.pFilesz).toNat / (2 * c.addrSize))

/-- The file holds the whole dynamic section. -/
def DynamicMapped (ia : MemImageAccess) (ph : Phdr) : Prop :=
  clamp ia (BitVec.ofNat 32 ph.pOffset) (BitVec.ofNat 32 ph.pFilesz) = BitVec.ofNat 32 ph.pFilesz

instance (ia : MemImageAccess) (ph : Phdr) : Decidable (DynamicMapped ia ph) :=
  inferInstanceAs (Decidable (_ = _))

section result
variable {c : ElfClass} {s : Loader} {ia : MemImageAccess} {info : ElfLoadInfo} {ph : Phdr}
  {t : RelaTags}

theorem entryCount_ofNat {sz entsz : ℕ} (hs : sz < 2 ^ 31) (he : entsz < 2 ^ 31) :
    entryCount (BitVec.ofNat 32 sz) (BitVec.ofNat 32 entsz) = sz / entsz := by
  have hint : ∀ n : ℕ, n < 2 ^ 31 → (BitVec.ofNat 32 n).toInt = n := by
    intro n hn
    rw [BitVec.toInt_eq_toNat_of_lt (by rw [toNat_ofNat_of_lt (by omega)]; omega),
      toNat_ofNat_of_lt (by omega)]
  unfold entryCount
  rw [hint _ hs, hint _ he, ← Int.natCast_ediv, Int.toNat_natCast]

theorem mapDynamic_mapped (s : Loader) (h : DynamicMapped ia ph) : ∃ s₁ : Loader, s₁.mem = s.mem ∧
    mapDynamic s ia ph =
      (s₁, BitVec.ofNat 32 ph.pFilesz, some (ia.image + BitVec.ofNat 32 ph.pOffset)) := by
  unfold mapDynamic Loader.map memImageMapToMem
  unfold DynamicMapped at h
  dsimp only
  rw [h, if_neg (not_not.mpr rfl)]
  refine ⟨_, ?_, rfl⟩
  rfl

/-- The scan finds the tables, and the loop over the RELA entries is what is left. -/
theorem doRelocation_eq (hmap : DynamicMapped ia ph) (ht : HoldsTags c (fileEntries c s.mem ia ph) t)
    (hrela : t.relaTable info ≠ 0) (hsymtab : t.symbolTable info ≠ 0) :
    ∃ s₁ : Loader, s₁.mem = s.mem ∧ doRelocation c s ia info ph =
      relocate (relaStep c (t.relaTable info) (t.symbolTable info) info.relocationOffset)
        (t.count c) s₁ := by
  obtain ⟨s₁, hmem, hdyn⟩ := mapDynamic_mapped s hmap
  have hsz : t.relaSz < 2 ^ 31 := ht.lt
  have hscan : ∀ d, scanDynamic c s.mem info.startAddr (ia.image + BitVec.ofNat 32 ph.pOffset)
      ((BitVec.ofNat 32 ph.pFilesz).toNat / (2 * c.addrSize)) = d →
      d.rela = t.relaTable info ∧ d.relaSz = BitVec.ofNat 32 t.relaSz ∧
        d.relaEntsz = BitVec.ofNat 32 c.relaSize ∧ d.symtab = t.symbolTable info ∧
        d.symtabEntsz = BitVec.ofNat 32 c.symSize := by
    rintro d rfl
    rw [scanDynamic_eq_foldl]
    refine ⟨?_, ?_, ?_, ?_, ?_⟩
    · exact scan_once info.startAddr (by cases c <;> decide) ht.rela
    · exact scan_once info.startAddr (by cases c <;> decide) ht.relaSz
    · exact scan_once info.startAddr (by cases c <;> decide) ht.relaEnt
    · exact scan_once info.startAddr (by cases c <;> decide) ht.symtab
    · exact scan_once info.startAddr (by cases c <;> decide) ht.symEnt
  have hpos : BitVec.ofNat 32 t.relaSz ≠ 0 := by
    intro hz
    have hnat := congrArg BitVec.toNat hz
    rw [toNat_ofNat_of_lt (by omega)] at hnat
    have := ht.pos
    change t.relaSz = 0 at hnat
    omega
  refine ⟨s₁, hmem, ?_⟩
  cases c with
  | elfclass32 =>
    change elf32DoRelocation s ia info ph = _
    unfold elf32DoRelocation
    rw [hdyn]
    dsimp only
    rw [hmem]
    obtain ⟨h1, h2, h3, h4, h5⟩ := hscan _ rfl
    change (scanDynamic .elfclass32 s.mem info.startAddr _ (_ / 8)).rela = _ at h1
    change (scanDynamic .elfclass32 s.mem info.startAddr _ (_ / 8)).relaSz = _ at h2
    change (scanDynamic .elfclass32 s.mem info.startAddr _ (_ / 8)).relaEntsz = _ at h3
    change (scanDynamic .elfclass32 s.mem info.startAddr _ (_ / 8)).symtab = _ at h4
    change (scanDynamic .elfclass32 s.mem info.startAddr _ (_ / 8)).symtabEntsz = _ at h5
    rw [h1, h2, h3, h4, h5, if_pos ⟨hrela, hpos, hsymtab, rfl, rfl⟩,
      entryCount_ofNat hsz (by decide)]
    rfl
  | elfclass64 =>
    change elf64DoRelocation s ia info ph = _
    unfold elf64DoRelocation
    rw [hdyn]
    dsimp only
    rw [hmem]
    obtain ⟨h1, h2, h3, h4, h5⟩ := hscan _ rfl
    change (scanDynamic .elfclass64 s.mem info.startAddr _ (_ / 16)).rela = _ at h1
    change (scanDynamic .elfclass64 s.mem info.startAddr _ (_ / 16)).relaSz = _ at h2
    change (scanDynamic .elfclass64 s.mem info.startAddr _ (_ / 16)).relaEntsz = _ at h3
    change (scanDynamic .elfclass64 s.mem info.startAddr _ (_ / 16)).symtab = _ at h4
    change (scanDynamic .elfclass64 s.mem info.startAddr _ (_ / 16)).symtabEntsz = _ at h5
    rw [h1, h2, h3, h4, h5, if_neg, entryCount_ofNat hsz (by decide)]
    · rfl
    · rintro (h | h | h | h | h)
      · exact hrela h
      · exact hpos h
      · exact hsymtab h
      · exact h rfl
      · exact h rfl

end result

/-- The memory after a success: every word has its value, and nothing else has changed. -/
structure RelocationDone (c : ElfClass) (m : Memory 32) (entries : List RelaEntry)
    (symtab : BitVec 32) (r : ℕ) (m' : Memory 32) : Prop where
  relative : ∀ e ∈ entries, e.type = RelaEntry.relative →
    field m' (e.target r) 0 c.addrSize = (e.rAddend + r) % 256 ^ c.addrSize
  absolute : ∀ e ∈ entries, e.type = RelaEntry.absolute → field m' (e.target r) 0 c.addrSize =
    (e.rAddend + r + symbolValue c m symtab (e.symtabIdx c)) % 256 ^ c.addrSize
  rest : ∀ x, (∀ e ∈ entries, e.Writes → ¬ InSpan (e.target r) c.addrSize x) → m' x = m x

/-- The same entries in another order, in the dynamic section and in the RELA table, and the same
symbols. -/
structure Reordered (c : ElfClass) (m m' : Memory 32) (ia : MemImageAccess) (ph : Phdr)
    (rela symtab : BitVec 32) (n symbols : ℕ) : Prop where
  dynamic : (fileEntries c m' ia ph).Perm (fileEntries c m ia ph)
  entries : (relaEntries c m' rela n).Perm (relaEntries c m rela n)
  symbols : Memory.Same m' symtab m symtab (symbols * c.symSize)

section reordered
variable {c : ElfClass} {m m' m₁ : Memory 32} {ia : MemImageAccess} {ph : Phdr}
  {rela symtab : BitVec 32} {r n symbols : ℕ}

theorem scattered_done {entries : List RelaEntry}
    (h : Memory.Scattered c.addrSize (relaWords c m symtab r entries) m m₁) :
    RelocationDone c m entries symtab r m₁ := by
  constructor
  · intro e he ht
    have hword := h.word _ (mem_relaWords he (.inr ht))
    have hne : e.type ≠ RelaEntry.absolute := by rw [ht]; decide
    rw [field_zero, hword, relocatedValue, if_neg hne, Nat.add_zero]
  · intro e he ht
    have hword := h.word _ (mem_relaWords he (.inl ht))
    rw [field_zero, hword, relocatedValue, if_pos ht]
  · intro x hx
    apply h.rest
    intro f hf
    obtain ⟨e, he, rfl⟩ := List.mem_map.mp hf
    obtain ⟨he, hw⟩ := List.mem_filter.mp he
    exact hx e he (of_decide_eq_true hw)

theorem Reordered.relocatable (hr : Reordered c m m' ia ph rela symtab n symbols)
    (h : Relocatable c m r rela symtab n symbols) : Relocatable c m' r rela symtab n symbols := by
  constructor
  · exact fun e he => h.symbol e (hr.entries.mem_iff.mp he)
  · apply (hr.entries.pairwise_iff _).mpr h.words
    exact fun hap hf he => (hap he hf).symm
  · exact fun e he => h.relaTable e (hr.entries.mem_iff.mp he)
  · exact fun e he => h.symbolTable e (hr.entries.mem_iff.mp he)

theorem Reordered.symbolValue (hr : Reordered c m m' ia ph rela symtab n symbols) {k : ℕ}
    (hk : k < symbols) : symbolValue c m' symtab k = symbolValue c m symtab k := by
  apply symbolValue_congr
  apply hr.symbols.offset
  have hle := Nat.mul_le_mul_right c.symSize hk
  rwa [Nat.succ_mul] at hle

/-- Entries of the table have the same words in both memories. -/
theorem Reordered.relaWords_eq (hr : Reordered c m m' ia ph rela symtab n symbols)
    (h : Relocatable c m r rela symtab n symbols) {entries : List RelaEntry}
    (hsub : ∀ e ∈ entries, e ∈ relaEntries c m rela n) :
    relaWords c m' symtab r entries = relaWords c m symtab r entries := by
  apply List.map_congr_left
  intro e he
  obtain ⟨he, _⟩ := List.mem_filter.mp he
  rw [relocatedValue_congr]
  exact fun habs => hr.symbolValue (h.symbol e (hsub e he) habs)

end reordered

section semantics
variable {c : ElfClass} {s : Loader} {ia : MemImageAccess} {info : ElfLoadInfo} {ph : Phdr}
  {t : RelaTags} {symbols : ℕ}

/-- Two memories that hold the same byte, or have both kept theirs. -/
def SameOrKept (m m₁ m' m₁' : Memory 32) : Prop :=
  ∀ x, m₁' x = m₁ x ∨ m₁' x = m' x ∧ m₁ x = m x

/-- The outcome and the memory that `do_relocation` leaves, for tables that keep out of the way of
the words that are stored. -/
theorem doRelocation_rela (hmap : DynamicMapped ia ph)
    (ht : HoldsTags c (fileEntries c s.mem ia ph) t) (hrela : t.relaTable info ≠ 0)
    (hsymtab : t.symbolTable info ≠ 0)
    (h : Relocatable c s.mem info.relocationOffset (t.relaTable info) (t.symbolTable info)
      (t.count c) symbols) :
    ((doRelocation c s ia info ph).2 = .monOk ↔
      ∀ e ∈ relaEntries c s.mem (t.relaTable info) (t.count c), e.Supported) ∧
    ((doRelocation c s ia info ph).2 = .monOk →
      RelocationDone c s.mem (relaEntries c s.mem (t.relaTable info) (t.count c))
        (t.symbolTable info) info.relocationOffset (doRelocation c s ia info ph).1.mem) ∧
    ∀ s' : Loader, Reordered c s.mem s'.mem ia ph (t.relaTable info) (t.symbolTable info)
      (t.count c) symbols →
      (doRelocation c s' ia info ph).2 = (doRelocation c s ia info ph).2 ∧
      ((doRelocation c s ia info ph).2 = .monOk ∨
          relaEntries c s'.mem (t.relaTable info) (t.count c) =
            relaEntries c s.mem (t.relaTable info) (t.count c) →
        SameOrKept s.mem (doRelocation c s ia info ph).1.mem s'.mem
          (doRelocation c s' ia info ph).1.mem) := by
  obtain ⟨s₁, hmem, hrun⟩ := doRelocation_eq hmap ht hrela hsymtab
  rw [← hmem] at h ht ⊢
  obtain ⟨hst, hsc⟩ := relocate_rela h
  rw [hrun]
  have hok : (relocate (relaStep c (t.relaTable info) (t.symbolTable info) info.relocationOffset)
      (t.count c) s₁).2 = .monOk ↔
        ∀ e ∈ relaEntries c s₁.mem (t.relaTable info) (t.count c), e.Supported := by
    rw [hst]
    split
    next hs => exact ⟨fun _ => hs, fun _ => rfl⟩
    next hs => exact ⟨fun hf => (by cases hf), fun h => absurd h hs⟩
  have htake : (∀ e ∈ relaEntries c s₁.mem (t.relaTable info) (t.count c), e.Supported) →
      (relaEntries c s₁.mem (t.relaTable info) (t.count c)).takeWhile (fun e => e.Supported) =
        relaEntries c s₁.mem (t.relaTable info) (t.count c) :=
    fun hs => List.takeWhile_eq_self_iff.mpr fun e he => decide_eq_true (hs e he)
  refine ⟨hok, fun hs => ?_, fun s' hr => ?_⟩
  · rw [htake (hok.mp hs)] at hsc
    exact scattered_done hsc
  · obtain ⟨s₁', hmem', hrun'⟩ := doRelocation_eq hmap (ht.perm hr.dynamic) hrela hsymtab
    rw [← hmem'] at hr ⊢
    obtain ⟨hst', hsc'⟩ := relocate_rela (hr.relocatable h)
    rw [hrun']
    constructor
    · rw [hst, hst']
      have hiff : (∀ e ∈ relaEntries c s₁'.mem (t.relaTable info) (t.count c), e.Supported) ↔
          ∀ e ∈ relaEntries c s₁.mem (t.relaTable info) (t.count c), e.Supported :=
        ⟨fun h e he => h e (hr.entries.mem_iff.mpr he), fun h e he => h e (hr.entries.mem_iff.mp he)⟩
      by_cases hs : ∀ e ∈ relaEntries c s₁.mem (t.relaTable info) (t.count c), e.Supported
      · rw [if_pos hs, if_pos (hiff.mpr hs)]
      · rw [if_neg hs, if_neg fun h => hs (hiff.mp h)]
    · intro hcase
      -- the same entries up to the first unsupported one, in some order
      have hperm : ((relaEntries c s₁'.mem (t.relaTable info) (t.count c)).takeWhile
          fun e => e.Supported).Perm ((relaEntries c s₁.mem (t.relaTable info) (t.count c)).takeWhile
            fun e => e.Supported) := by
        rcases hcase with hs | hsame
        · have hs := hok.mp hs
          rw [htake hs, List.takeWhile_eq_self_iff.mpr fun e he =>
            decide_eq_true (hs e (hr.entries.mem_iff.mp he))]
          exact hr.entries
        · rw [hsame]
      have hwords := hr.relaWords_eq h fun e he =>
        (List.takeWhile_sublist fun e : RelaEntry => decide e.Supported).subset he
      have hall : (relaWords c s₁'.mem (t.symbolTable info) info.relocationOffset
          ((relaEntries c s₁'.mem (t.relaTable info) (t.count c)).takeWhile
            fun e => e.Supported)).Perm
          (relaWords c s₁.mem (t.symbolTable info) info.relocationOffset
            ((relaEntries c s₁.mem (t.relaTable info) (t.count c)).takeWhile
              fun e => e.Supported)) := by
        rw [← hwords]
        exact (hperm.filter _).map _
      exact hsc.perm hsc' hall

/-- A dynamic section with the five mandatory tags. -/
def dynBytes (rela relaSz symtab : ℕ) : List (BitVec 8) :=
  Memory.littleEndian 8 DT_RELA ++ Memory.littleEndian 8 rela ++
  Memory.littleEndian 8 DT_RELASZ ++ Memory.littleEndian 8 relaSz ++
  Memory.littleEndian 8 DT_RELAENT ++ Memory.littleEndian 8 24 ++
  Memory.littleEndian 8 DT_SYMTAB ++ Memory.littleEndian 8 symtab ++
  Memory.littleEndian 8 DT_SYMENT ++ Memory.littleEndian 8 24

def relaBytes (e : RelaEntry) : List (BitVec 8) :=
  Memory.littleEndian 8 e.rOffset ++ Memory.littleEndian 8 e.rInfo ++
  Memory.littleEndian 8 e.rAddend

/-- A file at 0x1000 that is its dynamic section, and an image at 0x1080: two RELA entries at
0x1090, and two symbols at 0x10c0 of which the second has the value 0x30. -/
def twoRela (e e' : RelaEntry) : Loader where
  mem := Memory.ofBytes 0x1000 (dynBytes 0x10 48 0x40 ++ List.replicate 64 0 ++ relaBytes e ++
    relaBytes e' ++ List.replicate 32 0 ++ Memory.littleEndian 8 0x30)
  trace := []

/-- The same with a RELA table of one entry, for an image at 0. -/
def nullRela : Loader := ⟨Memory.ofBytes 0x1000 (dynBytes 0 24 0x40), []⟩

def relaInfo (start : ℕ) : ElfLoadInfo :=
  { ElfLoadInfo.cleared with startAddr := start, relocationOffset := start }

def relaFile : MemImageAccess := ⟨0x1000, 80⟩

def relaPhdr : Phdr := ⟨PT_DYNAMIC, 0, 0, 0, 80, 80⟩

/-- Two words behind the tables. -/
theorem relocatable_two {m : Memory 32} {e e' : RelaEntry}
    (h : relaEntries .elfclass64 m 0x1090 2 = [e, e'])
    (hbounds : ∀ f ∈ [e, e'], 0x10f0 ≤ (f.target 0x1080).toNat ∧
      (f.target 0x1080).toNat + 8 ≤ 2 ^ 32 ∧ f.symtabIdx .elfclass64 < 2)
    (hap : Apart (e.target 0x1080) 8 (e'.target 0x1080) 8) :
    Relocatable .elfclass64 m 0x1080 0x1090 0x10c0 2 2 := by
  have hrela : (0x1090 : BitVec 32).toNat + 48 ≤ 0x10f0 := by decide
  have hsym : (0x10c0 : BitVec 32).toNat + 48 ≤ 0x10f0 := by decide
  constructor
  · rw [h]
    exact fun f hf _ => (hbounds f hf).2.2
  · rw [h]
    exact List.pairwise_pair.mpr fun _ _ => hap
  · rw [h]
    intro f hf _
    obtain ⟨hlow, hhigh, _⟩ := hbounds f hf
    exact (apart_of_le (hrela.trans hlow) hhigh).symm
  · rw [h]
    intro f hf _
    obtain ⟨hlow, hhigh, _⟩ := hbounds f hf
    exact (apart_of_le (hsym.trans hlow) hhigh).symm

theorem holdsTags_two {e e' : RelaEntry}
    (h : fileEntries .elfclass64 (twoRela e e').mem relaFile relaPhdr =
      [(DT_RELA, 0x10), (DT_RELASZ, 48), (DT_RELAENT, 24), (DT_SYMTAB, 0x40), (DT_SYMENT, 24)]) :
    HoldsTags .elfclass64 (fileEntries .elfclass64 (twoRela e e').mem relaFile relaPhdr)
      ⟨0x10, 48, 0x40⟩ := by
  rw [h]
  constructor <;> decide

/-- A RELATIVE entry, and one for the second symbol. -/
theorem doRelocation_rela_two :
    (doRelocation .elfclass64 (twoRela ⟨0x80, 8, 0x20⟩ ⟨0x88, 2 ^ 32 + 1, 4⟩) relaFile
      (relaInfo 0x1080) relaPhdr).2 = .monOk ∧
    RelocationDone .elfclass64 (twoRela ⟨0x80, 8, 0x20⟩ ⟨0x88, 2 ^ 32 + 1, 4⟩).mem
      [⟨0x80, 8, 0x20⟩, ⟨0x88, 2 ^ 32 + 1, 4⟩] 0x10c0 0x1080
      (doRelocation .elfclass64 (twoRela ⟨0x80, 8, 0x20⟩ ⟨0x88, 2 ^ 32 + 1, 4⟩) relaFile
        (relaInfo 0x1080) relaPhdr).1.mem := by
  have hentries : relaEntries .elfclass64 (twoRela ⟨0x80, 8, 0x20⟩ ⟨0x88, 2 ^ 32 + 1, 4⟩).mem 0x1090 2 =
      [⟨0x80, 8, 0x20⟩, ⟨0x88, 2 ^ 32 + 1, 4⟩] := by decide +kernel
  have htags : HoldsTags .elfclass64 (fileEntries .elfclass64
      (twoRela ⟨0x80, 8, 0x20⟩ ⟨0x88, 2 ^ 32 + 1, 4⟩).mem relaFile relaPhdr) ⟨0x10, 48, 0x40⟩ :=
    holdsTags_two (by decide +kernel)
  have hloc := relocatable_two hentries (by decide) (apart_of_le (by decide) (by decide))
  have hrela : RelaTags.relaTable ⟨0x10, 48, 0x40⟩ (relaInfo 0x1080) ≠ 0 := by decide
  obtain ⟨hok, hdone, _⟩ := doRelocation_rela (by decide) htags hrela (by decide) hloc
  change _ ↔ ∀ e ∈ relaEntries .elfclass64 _ 0x1090 2, e.Supported at hok
  change _ → RelocationDone _ _ (relaEntries .elfclass64 _ 0x1090 2) 0x10c0 0x1080 _ at hdone
  rw [hentries] at hok hdone
  have hst := hok.mpr (by decide)
  exact ⟨hst, hdone hst⟩

/-- An unsupported entry ends the loop in the middle, so that what is stored before depends on the
order; and a table at address 0 is taken for a missing one. -/
theorem relocation_order_and_null :
    (∃ s s' : Loader,
      HoldsTags .elfclass64 (fileEntries .elfclass64 s.mem relaFile relaPhdr) ⟨0x10, 48, 0x40⟩ ∧
      Relocatable .elfclass64 s.mem 0x1080 0x1090 0x10c0 2 2 ∧
      Reordered .elfclass64 s.mem s'.mem relaFile relaPhdr 0x1090 0x10c0 2 2 ∧
      s.mem 0x1100 = s'.mem 0x1100 ∧
      (doRelocation .elfclass64 s relaFile (relaInfo 0x1080) relaPhdr).1.mem 0x1100 ≠
        (doRelocation .elfclass64 s' relaFile (relaInfo 0x1080) relaPhdr).1.mem 0x1100) ∧
    HoldsTags .elfclass64 (fileEntries .elfclass64 nullRela.mem relaFile relaPhdr) ⟨0, 24, 0x40⟩ ∧
      Relocatable .elfclass64 nullRela.mem 0 0 0x40 1 1 ∧
      (∀ e ∈ relaEntries .elfclass64 nullRela.mem 0 1, e.Supported) ∧
      (doRelocation .elfclass64 nullRela relaFile (relaInfo 0) relaPhdr).2 = .monError := by
  have hentries : relaEntries .elfclass64 (twoRela ⟨0x80, 8, 0x20⟩ ⟨0x88, 5, 0⟩).mem 0x1090 2 =
      [⟨0x80, 8, 0x20⟩, ⟨0x88, 5, 0⟩] := by decide +kernel
  have hentries' : relaEntries .elfclass64 (twoRela ⟨0x88, 5, 0⟩ ⟨0x80, 8, 0x20⟩).mem 0x1090 2 =
      [⟨0x88, 5, 0⟩, ⟨0x80, 8, 0x20⟩] := by decide +kernel
  have hnull : relaEntries .elfclass64 nullRela.mem 0 1 = [⟨0, 0, 0⟩] := by decide +kernel
  refine ⟨⟨twoRela ⟨0x80, 8, 0x20⟩ ⟨0x88, 5, 0⟩, twoRela ⟨0x88, 5, 0⟩ ⟨0x80, 8, 0x20⟩, ?_, ?_, ?_, ?_,
    ?_⟩, ?_, ?_, ?_, ?_⟩
  · exact holdsTags_two (by decide +kernel)
  · exact relocatable_two hentries (by decide) (apart_of_le (by decide) (by decide))
  · constructor
    · rw [show fileEntries .elfclass64 (twoRela ⟨0x88, 5, 0⟩ ⟨0x80, 8, 0x20⟩).mem relaFile relaPhdr =
        fileEntries .elfclass64 (twoRela ⟨0x80, 8, 0x20⟩ ⟨0x88, 5, 0⟩).mem relaFile relaPhdr by
          decide +kernel]
    · rw [hentries, hentries']
      exact .swap _ _ _
    · unfold Memory.Same
      decide +kernel
  · decide +kernel
  · decide +kernel
  · constructor <;> decide +kernel
  · have hnone : ∀ e ∈ relaEntries .elfclass64 nullRela.mem 0 1, ¬ e.Writes := by
      rw [hnull]
      decide
    constructor
    · exact fun e he habs => absurd (.inl habs) (hnone e he)
    · rw [hnull]
      exact List.pairwise_singleton _ _
    · exact fun e he hw => absurd hw (hnone e he)
    · exact fun e he hw => absurd hw (hnone e he)
  · rw [hnull]
    decide
  · decide +kernel

end semantics

end IkgtLoader.Ld
