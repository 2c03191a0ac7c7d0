import IkgtLoader.Ld.RelEntries

/-! REL and RELA tables of the same relocations: where `elf32_do_relocation` makes the same of both. -/
namespace IkgtLoader.Ld
open Flat Loop

/-- The address that a tag names. -/
def tableAt (info : ElfLoadInfo) (v : ℕ) : BitVec 32 := BitVec.ofNat 32 (v + info.startAddr)

/-- The relocations of a table whose size is taken for a signed word. -/
def counted (size : ℕ) (l : List RelaEntry) : List RelaEntry :=
  if l.length * size < 2 ^ 31 then l else []

/-- No entry of the dynamic section has this tag. -/
def Absent (entries : List (ℕ × ℕ)) (tag : ℕ) : Prop := entries.filter (fun e => e.1 = tag) = []

instance (entries : List (ℕ × ℕ)) (tag : ℕ) : Decidable (Absent entries tag) :=
  inferInstanceAs (Decidable (_ = _))

/-- An image with the relocations `l` as a RELA table. -/
structure EncodesRela (m : Memory 32) (ia : MemImageAccess) (info : ElfLoadInfo) (ph : Phdr)
    (l : List RelaEntry) (rela symtab symbols : ℕ) : Prop where
  mapped : DynamicMapped ia ph
  table : Once (fileEntries .elfclass32 m ia ph) DT_RELA rela
  tableSz : Once (fileEntries .elfclass32 m ia ph) DT_RELASZ (l.length * 12)
  tableEnt : Once (fileEntries .elfclass32 m ia ph) DT_RELAENT 12
  symTable : Once (fileEntries .elfclass32 m ia ph) DT_SYMTAB symtab
  symEnt : Once (fileEntries .elfclass32 m ia ph) DT_SYMENT 16
  noRel : Absent (fileEntries .elfclass32 m ia ph) DT_REL
  entries : relaEntries .elfclass32 m (tableAt info rela) l.length = l
  apart : WordsApart l info.relocationOffset (tableAt info rela) 12 (tableAt info symtab) symbols

/-- An image with the relocations `l` as a REL table. -/
structure EncodesRel (m : Memory 32) (ia : MemImageAccess) (info : ElfLoadInfo) (ph : Phdr)
    (l : List RelaEntry) (rel symtab symbols : ℕ) : Prop where
  mapped : DynamicMapped ia ph
  table : Once (fileEntries .elfclass32 m ia ph) DT_REL rel
  tableSz : Once (fileEntries .elfclass32 m ia ph) DT_RELSZ (l.length * relSize)
  tableEnt : Once (fileEntries .elfclass32 m ia ph) DT_RELENT relSize
  symTable : Once (fileEntries .elfclass32 m ia ph) DT_SYMTAB symtab
  symEnt : Once (fileEntries .elfclass32 m ia ph) DT_SYMENT 16
  noRela : Absent (fileEntries .elfclass32 m ia ph) DT_RELA
  entries : HoldsRel m (tableAt info rel) info.relocationOffset l
  apart : WordsApart l info.relocationOffset (tableAt info rel) relSize (tableAt info symtab) symbols

/-- The outcome of a loop over `entries`, which is not run unless the tables are `found`. -/
structure Processed (m : Memory 32) (symtab : BitVec 32) (r : ℕ) (found : Prop)
    (accepted : RelaEntry → Prop) (entries : List RelaEntry) (res : Loader × MonStatus) : Prop where
  status : res.2 = .monOk ∨ res.2 = .monError
  ok : res.2 = .monOk ↔ found ∧ ∀ e ∈ entries, accepted e
  stored : res.2 = .monOk →
    Memory.Scattered 4 (relaWords .elfclass32 m symtab r entries) m res.1.mem

section counted
variable {l : List RelaEntry} {r size k symbols : ℕ} {table symtab : BitVec 32} {m : Memory 32}

theorem counted_cases (size : ℕ) (l : List RelaEntry) : counted size l = l ∨ counted size l = [] := by
  unfold counted
  split <;> simp

theorem WordsApart.counted (h : WordsApart l r table size symtab symbols) (k : ℕ) :
    WordsApart (counted k l) r table size symtab symbols := by
  rcases counted_cases k l with hl | hl
  · rwa [hl]
  · rw [hl]
    constructor <;> simp

theorem HoldsRel.counted (h : HoldsRel m table r l) (k : ℕ) : HoldsRel m table r (counted k l) := by
  rcases counted_cases k l with hl | hl
  · rwa [hl]
  · rw [hl]
    constructor <;> simp

theorem WordsApart.relocatable {rela : BitVec 32} (h : WordsApart l r rela 12 symtab symbols)
    (hl : relaEntries .elfclass32 m rela l.length = l) :
    Relocatable .elfclass32 m r rela symtab l.length symbols := by
  constructor
  all_goals rw [hl]
  · exact h.symbol
  · exact h.words
  · exact h.table
  · exact h.symbolTable

/-- The rounds over a table of `l.length` entries. -/
theorem entryCount_counted (l : List RelaEntry) (hpos : 0 < size) (hsize : size < 2 ^ 31)
    (hlt : l.length * size < 2 ^ 32) :
    entryCount (BitVec.ofNat 32 (l.length * size)) (BitVec.ofNat 32 size) =
      (Ld.counted size l).length := by
  unfold Ld.counted
  split
  next h => rw [entryCount_ofNat h hsize, Nat.mul_div_cancel _ hpos]
  next h =>
    unfold entryCount
    have hsz : (BitVec.ofNat 32 (l.length * size)).toInt < 0 := by
      rw [BitVec.toInt_neg_iff, toNat_ofNat_of_lt hlt]
      omega
    have hent : 0 < (BitVec.ofNat 32 size).toInt := by
      rw [BitVec.toInt_eq_toNat_of_lt (by rw [toNat_ofNat_of_lt (by omega)]; omega),
        toNat_ofNat_of_lt (by omega)]
      omega
    have hdiv := Int.ediv_nonpos_of_nonpos_of_neg (Int.le_of_lt hsz) hent
    simpa using hdiv

end counted

section outcome
variable {m : Memory 32} {s : Loader} {ia : MemImageAccess} {info : ElfLoadInfo} {ph : Phdr}
  {l : List RelaEntry} {n r rela rel size symtab symbols tag val : ℕ} {sym : BitVec 32} {found : Prop}
  {accepted : RelaEntry → Prop} {step : ℕ → Loader → Outcome Loader}

theorem Once.lt (h : Once (fileEntries .elfclass32 m ia ph) tag val) : val < 2 ^ 32 := by
  have hmem : (tag, val) ∈ fileEntries .elfclass32 m ia ph := by
    have hfilter : (tag, val) ∈ (fileEntries .elfclass32 m ia ph).filter (fun e => e.1 = tag) := by
      rw [show _ = [(tag, val)] from h]
      exact List.mem_singleton_self _
    exact (List.mem_filter.mp hfilter).1
  obtain ⟨i, _, hi⟩ := List.mem_map.mp hmem
  have hval : field m (tableEntry (ia.image + BitVec.ofNat 32 ph.pOffset) i 8) 4 4 = val :=
    congrArg Prod.snd hi
  rw [← hval]
  exact field_lt _ _ _ _

theorem ofNat_length_mul_ne_zero (hlt : l.length * size < 2 ^ 32) (hsize : 0 < size) :
    BitVec.ofNat 32 (l.length * size) ≠ 0 ↔ l ≠ [] := by
  have hzero : BitVec.ofNat 32 (l.length * size) = 0 ↔ l.length * size = 0 := by
    constructor
    · intro h
      have hnat := congrArg BitVec.toNat h
      rwa [toNat_ofNat_of_lt hlt] at hnat
    · intro h
      rw [h]
      rfl
  rw [Ne, hzero, Nat.mul_eq_zero, List.length_eq_zero_iff]
  have hne := Nat.ne_of_gt hsize
  simp [hne]

theorem Processed.missing (s : Loader) (h : ¬ found) :
    Processed m sym r found accepted l (s, .monError) :=
  ⟨.inr rfl, by simp [h], by simp⟩

theorem Processed.of_relocate [DecidablePred accepted] (hmem : s.mem = m) (h : found)
    (hrun : ((relocate step n s).2 = if ∀ e ∈ l, accepted e then .monOk else .monError) ∧
      Memory.Scattered 4 (relaWords .elfclass32 s.mem sym r (l.takeWhile fun e => accepted e)) s.mem
        (relocate step n s).1.mem) :
    Processed m sym r found accepted l (relocate step n s) := by
  subst hmem
  obtain ⟨hst, hsc⟩ := hrun
  by_cases hall : ∀ e ∈ l, accepted e
  · rw [if_pos hall] at hst
    rw [List.takeWhile_eq_self_iff.mpr fun e he => decide_eq_true (hall e he)] at hsc
    exact ⟨.inl hst, ⟨fun _ => ⟨h, hall⟩, fun _ => hst⟩, fun _ => hsc⟩
  · rw [if_neg hall] at hst
    refine ⟨.inr hst, ?_, ?_⟩
    · rw [hst]
      exact ⟨fun hf => (by cases hf), fun hf => absurd hf.2 hall⟩
    · rw [hst]
      exact fun hf => (by cases hf)

/-- The result of the scan chooses the loop. -/
theorem elf32DoRelocation_eq (hmap : DynamicMapped ia ph) {d : DynInfo}
    (hd : (fileEntries .elfclass32 s.mem ia ph).foldl (scanStep .elfclass32 info.startAddr)
      DynInfo.empty = d) :
    ∃ s₁ : Loader, s₁.mem = s.mem ∧ elf32DoRelocation s ia info ph =
      if d.rela ≠ 0 ∧ d.relaSz ≠ 0 ∧ d.symtab ≠ 0 ∧ d.relaEntsz = 12 ∧ d.symtabEntsz = 16 then
        relocate (rela32Step d.rela d.symtab (BitVec.ofNat 32 info.relocationOffset))
          (entryCount d.relaSz d.relaEntsz) s₁
      else if d.rel ≠ 0 ∧ d.symtab ≠ 0 ∧ d.relSz ≠ 0 ∧ d.relEntsz = 8 then
        relocate (rel32Step d.rel d.symtab (BitVec.ofNat 32 info.relocationOffset))
          (entryCount d.relSz d.relEntsz) s₁
      else (s₁, .monError) := by
  obtain ⟨s₁, hmem, hdyn⟩ := mapDynamic_mapped s hmap
  refine ⟨s₁, hmem, ?_⟩
  have hscan : scanDynamic .elfclass32 s.mem info.startAddr
      (ia.image + BitVec.ofNat 32 ph.pOffset) ((BitVec.ofNat 32 ph.pFilesz).toNat / 8) = d := by
    rw [← hd]
    exact scanDynamic_eq_foldl _ _ _ _ _
  unfold elf32DoRelocation
  rw [hdyn]
  dsimp only
  rw [hmem, hscan]

/-- The loop over the RELA table. -/
theorem EncodesRela.processed (h : EncodesRela s.mem ia info ph l rela symtab symbols) :
    Processed s.mem (tableAt info symtab) info.relocationOffset
      (l ≠ [] ∧ tableAt info rela ≠ 0 ∧ tableAt info symtab ≠ 0) RelaEntry.Supported (counted 12 l)
      (elf32DoRelocation s ia info ph) := by
  have hlt : l.length * 12 < 2 ^ 32 := h.tableSz.lt
  have hne := ofNat_length_mul_ne_zero hlt (by decide)
  obtain ⟨d, hd⟩ : ∃ d, (fileEntries .elfclass32 s.mem ia ph).foldl
      (scanStep .elfclass32 info.startAddr) DynInfo.empty = d := ⟨_, rfl⟩
  have hrela : d.rela = tableAt info rela :=
    hd ▸ scan_once (c := .elfclass32) info.startAddr (by decide) h.table
  have hrelaSz : d.relaSz = BitVec.ofNat 32 (l.length * 12) :=
    hd ▸ scan_once (c := .elfclass32) info.startAddr (by decide) h.tableSz
  have hrelaEntsz : d.relaEntsz = BitVec.ofNat 32 12 :=
    hd ▸ scan_once (c := .elfclass32) info.startAddr (by decide) h.tableEnt
  have hsymtab : d.symtab = tableAt info symtab :=
    hd ▸ scan_once (c := .elfclass32) info.startAddr (by decide) h.symTable
  have hsymtabEntsz : d.symtabEntsz = 16 :=
    hd ▸ scan_once (c := .elfclass32) info.startAddr (by decide) h.symEnt
  have hrel : d.rel = 0 :=
    hd ▸ scan_absent (c := .elfclass32) info.startAddr (by decide) h.noRel
  obtain ⟨s₁, hmem, hrun⟩ := elf32DoRelocation_eq h.mapped hd
  rw [hrun, hrela, hrelaSz, hrelaEntsz, hsymtab, hsymtabEntsz, hrel]
  by_cases hfound : l ≠ [] ∧ tableAt info rela ≠ 0 ∧ tableAt info symtab ≠ 0
  · obtain ⟨hl, hr, hs⟩ := hfound
    rw [if_pos ⟨hr, hne.mpr hl, hs, rfl, rfl⟩, entryCount_counted l (by decide) (by decide) hlt]
    apply Processed.of_relocate hmem ⟨hl, hr, hs⟩
    have hentries : relaEntries .elfclass32 s₁.mem (tableAt info rela) (counted 12 l).length =
        counted 12 l := by
      rw [hmem]
      rcases counted_cases 12 l with hc | hc
      · rw [hc, h.entries]
      · rw [hc]
        rfl
    have hloop := relocate_rela ((h.apart.counted 12).relocatable hentries)
    rwa [hentries] at hloop
  · rw [if_neg fun hc => hfound ⟨hne.mp hc.2.1, hc.1, hc.2.2.1⟩, if_neg fun hc => hc.1 rfl]
    exact Processed.missing _ hfound

/-- The loop over the REL table. -/
theorem EncodesRel.processed (h : EncodesRel s.mem ia info ph l rel symtab symbols) :
    Processed s.mem (tableAt info symtab) info.relocationOffset
      (l ≠ [] ∧ tableAt info rel ≠ 0 ∧ tableAt info symtab ≠ 0) RelaEntry.Writes (counted relSize l)
      (elf32DoRelocation s ia info ph) := by
  have hlt : l.length * relSize < 2 ^ 32 := h.tableSz.lt
  have hne := ofNat_length_mul_ne_zero hlt (by decide)
  obtain ⟨d, hd⟩ : ∃ d, (fileEntries .elfclass32 s.mem ia ph).foldl
      (scanStep .elfclass32 info.startAddr) DynInfo.empty = d := ⟨_, rfl⟩
  have hrel : d.rel = tableAt info rel :=
    hd ▸ scan_once (c := .elfclass32) info.startAddr (by decide) h.table
  have hrelSz : d.relSz = BitVec.ofNat 32 (l.length * relSize) :=
    hd ▸ scan_once (c := .elfclass32) info.startAddr (by decide) h.tableSz
  have hrelEntsz : d.relEntsz = BitVec.ofNat 32 relSize :=
    hd ▸ scan_once (c := .elfclass32) info.startAddr (by decide) h.tableEnt
  have hsymtab : d.symtab = tableAt info symtab :=
    hd ▸ scan_once (c := .elfclass32) info.startAddr (by decide) h.symTable
  have hrela : d.rela = 0 :=
    hd ▸ scan_absent (c := .elfclass32) info.startAddr (by decide) h.noRela
  obtain ⟨s₁, hmem, hrun⟩ := elf32DoRelocation_eq h.mapped hd
  rw [hrun, hrela, if_neg fun hc => hc.1 rfl, hrel, hrelSz, hrelEntsz, hsymtab]
  by_cases hfound : l ≠ [] ∧ tableAt info rel ≠ 0 ∧ tableAt info symtab ≠ 0
  · obtain ⟨hl, hr, hs⟩ := hfound
    rw [if_pos ⟨hr, hs, hne.mpr hl, rfl⟩, entryCount_counted l (by decide) (by decide) hlt]
    apply Processed.of_relocate hmem ⟨hl, hr, hs⟩
    have hentries : HoldsRel s₁.mem (tableAt info rel) info.relocationOffset (counted relSize l) := by
      rw [hmem]
      exact h.entries.counted relSize
    exact relocate_relTable hentries (h.apart.counted relSize)
  · rw [if_neg fun hc => hfound ⟨hne.mp hc.2.2.1, hc.1, hc.2.1⟩]
    exact Processed.missing _ hfound

/-- A word after the loop: relocated if the loop comes to its entry, and else as it was. -/
theorem Processed.word {res : Loader × MonStatus} {e : RelaEntry}
    (h : Processed m sym r found accepted (counted size l) res) (hok : res.2 = .monOk) (he : e ∈ l)
    (hw : e.Writes) :
    res.1.mem.load (e.target r) 4 = if l.length * size < 2 ^ 31 then
      relocatedValue .elfclass32 m sym r e % 256 ^ 4 else m.load (e.target r) 4 := by
  have hsc := h.stored hok
  unfold counted at hsc
  split
  next hlt =>
    rw [if_pos hlt] at hsc
    exact hsc.word _ (mem_relaWords he hw)
  next hge =>
    rw [if_neg hge] at hsc
    have hsame : Memory.Same res.1.mem (e.target r) m (e.target r) 4 := by
      apply Memory.Same.of_unchanged _ (by decide)
      exact fun x _ => hsc.rest x fun f hf => absurd hf List.not_mem_nil
    exact hsame.load_eq

end outcome

/-- The outcomes have the same status, and the same words if it is `MON_OK`. -/
def SameOutcome (l : List RelaEntry) (r : ℕ) (res res' : Loader × MonStatus) : Prop :=
  res.2 = res'.2 ∧ (res.2 = .monOk → ∀ e ∈ l, e.Writes →
    res.1.mem.load (e.target r) 4 = res'.1.mem.load (e.target r) 4)

/-- What a word of the image with the RELA table is to be before, if its loop does not come to it:
what the loop over the REL table makes of it. -/
def InPlace (m : Memory 32) (info : ElfLoadInfo) (l : List RelaEntry) (symtab : ℕ) : Prop :=
  ∀ e ∈ l, e.Writes → m.load (e.target info.relocationOffset) 4 =
    if l.length * relSize < 2 ^ 31 then
      relocatedValue .elfclass32 m (tableAt info symtab) info.relocationOffset e % 256 ^ 4
    else e.rAddend

/-- No table is found, or both loops fail, or neither does and every word is relocated. -/
def LoopsAgree (m : Memory 32) (info : ElfLoadInfo) (l : List RelaEntry) (rela rel symtab : ℕ) :
    Prop :=
  l = [] ∨ tableAt info symtab = 0 ∨
    (tableAt info rela = 0 ∧ (tableAt info rel = 0 ∨ ∃ e ∈ counted relSize l, ¬ e.Writes)) ∨
    (tableAt info rela ≠ 0 ∧ ((∃ e ∈ counted 12 l, ¬ e.Supported) ∨
      tableAt info rel ≠ 0 ∧ (∀ e ∈ counted relSize l, e.Writes) ∧
        (l.length * 12 < 2 ^ 31 ∨ InPlace m info l symtab)))

section agreement
variable {s s' : Loader} {ia ia' : MemImageAccess} {info : ElfLoadInfo} {ph ph' : Phdr}
  {l : List RelaEntry} {rela rel symtab symbols : ℕ} {res res' : Loader × MonStatus}
  {found found' : Prop}

/-- A table that is counted whole for RELA is so for REL. -/
theorem counted_subset (l : List RelaEntry) : counted 12 l ⊆ counted relSize l := by
  unfold counted relSize
  split_ifs
  · exact fun _ he => he
  · omega
  · exact fun _ he => absurd he List.not_mem_nil
  · exact fun _ he => he

/-- Neither has relocated anything that counts. -/
theorem sameOutcome_of_failed {m m' : Memory 32} {sym : BitVec 32} {r : ℕ}
    {entries entries' : List RelaEntry} {accepted accepted' : RelaEntry → Prop}
    (h : Processed m sym r found accepted entries res)
    (h' : Processed m' sym r found' accepted' entries' res') (hno : res.2 ≠ .monOk)
    (hno' : res'.2 ≠ .monOk) : SameOutcome l r res res' :=
  ⟨(h.status.resolve_left hno).trans (h'.status.resolve_left hno').symm, fun hok => absurd hok hno⟩

/-- The words after both loops have succeeded. -/
theorem words_eq_iff
    (hrela : EncodesRela s.mem ia info ph l rela symtab symbols)
    (hrel : EncodesRel s'.mem ia' info ph' l rel symtab symbols)
    (hsym : ∀ k < symbols, symbolValue .elfclass32 s'.mem (tableAt info symtab) k =
      symbolValue .elfclass32 s.mem (tableAt info symtab) k)
    (hok : (elf32DoRelocation s ia info ph).2 = .monOk)
    (hok' : (elf32DoRelocation s' ia' info ph').2 = .monOk) :
    (∀ e ∈ l, e.Writes →
      (elf32DoRelocation s ia info ph).1.mem.load (e.target info.relocationOffset) 4 =
        (elf32DoRelocation s' ia' info ph').1.mem.load (e.target info.relocationOffset) 4) ↔
    l.length * 12 < 2 ^ 31 ∨ InPlace s.mem info l symtab := by
  have hword : ∀ e ∈ l, e.Writes →
      (elf32DoRelocation s ia info ph).1.mem.load (e.target info.relocationOffset) 4 =
        if l.length * 12 < 2 ^ 31 then relocatedValue .elfclass32 s.mem (tableAt info symtab)
          info.relocationOffset e % 256 ^ 4 else s.mem.load (e.target info.relocationOffset) 4 :=
    fun e he hw => hrela.processed.word hok he hw
  have hword' : ∀ e ∈ l, e.Writes →
      (elf32DoRelocation s' ia' info ph').1.mem.load (e.target info.relocationOffset) 4 =
        if l.length * relSize < 2 ^ 31 then relocatedValue .elfclass32 s.mem (tableAt info symtab)
          info.relocationOffset e % 256 ^ 4 else e.rAddend := by
    intro e he hw
    rw [hrel.processed.word hok' he hw, hrel.entries.addend e he hw,
      relocatedValue_congr fun habs => hsym _ (hrela.apart.symbol e he habs)]
  by_cases hlt : l.length * 12 < 2 ^ 31
  · have hlt' : l.length * relSize < 2 ^ 31 := by unfold relSize; omega
    refine ⟨fun _ => .inl hlt, fun _ e he hw => ?_⟩
    rw [hword e he hw, hword' e he hw, if_pos hlt, if_pos hlt']
  · have hin : (l.length * 12 < 2 ^ 31 ∨ InPlace s.mem info l symtab) ↔
        InPlace s.mem info l symtab := or_iff_right hlt
    rw [hin]
    unfold InPlace
    refine forall₃_congr fun e he hw => ?_
    rw [hword e he hw, hword' e he hw, if_neg hlt]

/-- The image with a RELA table and the one with a REL table of the same relocations come to the
same, except for relocations of type `R_386_NONE` without an unsupported one, which only RELA
accepts, for a table at address 0, and for tables whose size is no positive signed word. -/
theorem elf32DoRelocation_agree_iff
    (hrela : EncodesRela s.mem ia info ph l rela symtab symbols)
    (hrel : EncodesRel s'.mem ia' info ph' l rel symtab symbols)
    (hsym : ∀ k < symbols, symbolValue .elfclass32 s'.mem (tableAt info symtab) k =
      symbolValue .elfclass32 s.mem (tableAt info symtab) k) :
    SameOutcome l info.relocationOffset (elf32DoRelocation s ia info ph)
        (elf32DoRelocation s' ia' info ph') ↔
      LoopsAgree s.mem info l rela rel symtab := by
  have hA := hrela.processed
  have hB := hrel.processed
  constructor
  · rintro ⟨hstatus, hwords⟩
    by_cases hl : l = []
    · exact .inl hl
    by_cases hs : tableAt info symtab = 0
    · exact .inr (.inl hs)
    right; right
    have hok' : tableAt info rel ≠ 0 → (∀ e ∈ counted relSize l, e.Writes) →
        (elf32DoRelocation s' ia' info ph').2 = .monOk :=
      fun hr hall => hB.ok.mpr ⟨⟨hl, hr, hs⟩, hall⟩
    by_cases hr : tableAt info rela = 0
    · left
      refine ⟨hr, ?_⟩
      by_contra hcon
      rw [not_or, not_exists] at hcon
      have hok := hok' hcon.1 fun e he => by_contra fun hw => hcon.2 e ⟨he, hw⟩
      exact (hA.ok.mp (hstatus.trans hok)).1.2.1 hr
    · right
      refine ⟨hr, ?_⟩
      by_cases hall : ∀ e ∈ counted 12 l, e.Supported
      · -- the RELA image is relocated, and so is the other one
        right
        have hok := hA.ok.mpr ⟨⟨hl, hr, hs⟩, hall⟩
        have hok' := hstatus.symm.trans hok
        obtain ⟨⟨_, hrel', _⟩, hall'⟩ := hB.ok.mp hok'
        exact ⟨hrel', hall', (words_eq_iff hrela hrel hsym hok hok').mp (hwords hok)⟩
      · left
        rw [not_forall] at hall
        obtain ⟨e, he⟩ := hall
        exact ⟨e, Classical.not_imp.mp he⟩
  · intro hagree
    by_cases hok : (elf32DoRelocation s ia info ph).2 = .monOk
    · obtain ⟨⟨hl, hr, hs⟩, hall⟩ := hA.ok.mp hok
      obtain ⟨hrel', hall', hplace⟩ : tableAt info rel ≠ 0 ∧ (∀ e ∈ counted relSize l, e.Writes) ∧
          (l.length * 12 < 2 ^ 31 ∨ InPlace s.mem info l symtab) := by
        rcases hagree with h | h | ⟨h, _⟩ | ⟨_, ⟨e, he, hno⟩ | h⟩
        · exact absurd h hl
        · exact absurd h hs
        · exact absurd h hr
        · exact absurd (hall e he) hno
        · exact h
      have hok' := hB.ok.mpr ⟨⟨hl, hrel', hs⟩, hall'⟩
      exact ⟨hok.trans hok'.symm, fun _ => (words_eq_iff hrela hrel hsym hok hok').mpr hplace⟩
    · apply sameOutcome_of_failed hA hB hok
      intro hok'
      obtain ⟨⟨hl, hrel', hs⟩, hall'⟩ := hB.ok.mp hok'
      rcases hagree with h | h | ⟨_, h | ⟨e, he, hno⟩⟩ | ⟨hr, ⟨e, he, hno⟩ | ⟨_, hall, _⟩⟩
      · exact hl h
      · exact hs h
      · exact hrel' h
      · exact hno (hall' e he)
      · exact hno (.inr (hall' e (counted_subset l he)))
      · exact hok (hA.ok.mpr ⟨⟨hl, hr, hs⟩, fun e he => .inr (hall e (counted_subset l he))⟩)

end agreement

section images

/-- A file at 0x1000 that is its dynamic section, and an image at 0x1080: a table at 0x1090, two
symbols at 0x10c0 of which the second has the value 0x30, and words from 0x1100 on. -/
def relocImage (dyn : List (ℕ × ℕ)) (table words : List (BitVec 8)) : Loader where
  mem := Memory.ofBytes 0x1000
    (dyn.flatMap (fun e => Memory.littleEndian 4 e.1 ++ Memory.littleEndian 4 e.2) ++
    List.replicate 104 0 ++ table ++ List.replicate (48 - table.length + 20) 0 ++
    Memory.littleEndian 4 0x30 ++ List.replicate 40 0 ++ words)
  trace := []

def relaImage (l : List RelaEntry) : Loader :=
  relocImage [(DT_RELA, 0x10), (DT_RELASZ, l.length * 12), (DT_RELAENT, 12), (DT_SYMTAB, 0x40),
    (DT_SYMENT, 16)]
    (l.flatMap fun e => Memory.littleEndian 4 e.rOffset ++ Memory.littleEndian 4 e.rInfo ++
      Memory.littleEndian 4 e.rAddend) []

/-- The words stand in the order of the entries. -/
def relImage (l : List RelaEntry) : Loader :=
  relocImage [(DT_REL, 0x10), (DT_RELSZ, l.length * 8), (DT_RELENT, 8), (DT_SYMTAB, 0x40),
    (DT_SYMENT, 16)]
    (l.flatMap fun e => Memory.littleEndian 4 e.rOffset ++ Memory.littleEndian 4 e.rInfo)
    (l.flatMap fun e => Memory.littleEndian 4 e.rAddend)

def relocFile : MemImageAccess := ⟨0x1000, 40⟩

def relocPhdr : Phdr := ⟨PT_DYNAMIC, 0, 0, 0, 40, 40⟩

/-- A RELATIVE relocation, and one for the second symbol. -/
def twoWords : List RelaEntry := [⟨0x80, 8, 0x20⟩, ⟨0x84, 0x101, 4⟩]

theorem twoWords_apart {size : ℕ} (hsize : size ≤ 12) :
    WordsApart twoWords 0x1080 0x1090 size 0x10c0 2 := by
  have hlow : ∀ e ∈ twoWords, 0x10e0 ≤ (e.target 0x1080).toNat ∧ (e.target 0x1080).toNat + 4 ≤ 2 ^ 32 := by
    decide
  have htable : (0x1090 : BitVec 32).toNat + twoWords.length * size ≤ 0x10e0 := by
    have hmul := Nat.mul_le_mul_left twoWords.length hsize
    exact (Nat.add_le_add_left hmul _).trans (by decide)
  have hsymtab : (0x10c0 : BitVec 32).toNat + 2 * 16 ≤ 0x10e0 := by decide
  constructor
  · decide
  · exact List.pairwise_pair.mpr fun _ _ => apart_of_le (by decide) (by decide)
  · exact fun e he _ => (apart_of_le (htable.trans (hlow e he).1) (hlow e he).2).symm
  · exact fun e he _ => (apart_of_le (hsymtab.trans (hlow e he).1) (hlow e he).2).symm

/-- Both images are relocated. -/
theorem elf32DoRelocation_agree_two :
    SameOutcome twoWords 0x1080
      (elf32DoRelocation (relaImage twoWords) relocFile (relaInfo 0x1080) relocPhdr)
      (elf32DoRelocation (relImage twoWords) relocFile (relaInfo 0x1080) relocPhdr) := by
  have hrela : EncodesRela (relaImage twoWords).mem relocFile (relaInfo 0x1080) relocPhdr twoWords 0x10
      0x40 2 := by
    constructor
    all_goals first | decide +kernel | exact twoWords_apart (by decide)
  have hrel : EncodesRel (relImage twoWords).mem relocFile (relaInfo 0x1080) relocPhdr twoWords 0x10
      0x40 2 := by
    have hentries : HoldsRel (relImage twoWords).mem 0x1090 0x1080 twoWords := by
      constructor <;> decide +kernel
    constructor
    all_goals first | decide +kernel | exact hentries | exact twoWords_apart (by decide)
  exact (elf32DoRelocation_agree_iff hrela hrel (by decide +kernel)).mpr
    (.inr (.inr (.inr ⟨by decide, .inr ⟨by decide, by decide, .inl (by decide)⟩⟩)))

/-- One relocation of type `R_386_NONE`: nothing to do for the one loop, and an error for the
other. -/
theorem elf32DoRelocation_none :
    EncodesRela (relaImage [⟨0, 0, 0⟩]).mem relocFile (relaInfo 0x1080) relocPhdr [⟨0, 0, 0⟩] 0x10
      0x40 2 ∧
    EncodesRel (relImage [⟨0, 0, 0⟩]).mem relocFile (relaInfo 0x1080) relocPhdr [⟨0, 0, 0⟩] 0x10
      0x40 2 ∧
    (∀ k < 2, symbolValue .elfclass32 (relImage [⟨0, 0, 0⟩]).mem 0x10c0 k =
      symbolValue .elfclass32 (relaImage [⟨0, 0, 0⟩]).mem 0x10c0 k) ∧
    (elf32DoRelocation (relaImage [⟨0, 0, 0⟩]) relocFile (relaInfo 0x1080) relocPhdr).2 = .monOk ∧
    (elf32DoRelocation (relImage [⟨0, 0, 0⟩]) relocFile (relaInfo 0x1080) relocPhdr).2 =
      .monError := by
  have hap : ∀ size, WordsApart [⟨0, 0, 0⟩] 0x1080 0x1090 size 0x10c0 2 := by
    intro size
    constructor <;> simp [RelaEntry.Writes, RelaEntry.type, RelaEntry.absolute, RelaEntry.relative]
  refine ⟨?_, ?_, by decide +kernel, by decide +kernel, by decide +kernel⟩
  · constructor
    all_goals first | decide +kernel | exact hap _
  · have hentries : HoldsRel (relImage [⟨0, 0, 0⟩]).mem 0x1090 0x1080 [⟨0, 0, 0⟩] := by
      constructor <;> decide +kernel
    constructor
    all_goals first | decide +kernel | exact hentries | exact hap _

end images

end IkgtLoader.Ld
