import IkgtLoader.Ld.Writes

/-! Where a load writes. Nothing compares the addresses with the size of the buffer: a write
stays in it exactly if the link addresses of the image say so, step by step. -/
namespace IkgtLoader.Ld
open Flat Loop

/-- Every byte of a write lies in the buffer, as an interval of naturals. -/
def Event.Inside (base : BitVec 32) (alloc : ℕ) : Event → Prop
  | .write _ dest length => ∀ k < length, base.toNat ≤ (dest + BitVec.ofNat 32 k).toNat ∧
      (dest + BitVec.ofNat 32 k).toNat < base.toNat + alloc
  | _ => True

instance (base : BitVec 32) (alloc : ℕ) : (e : Event) → Decidable (e.Inside base alloc)
  | .write _ dest length => inferInstanceAs (Decidable (∀ k < length,
      base.toNat ≤ (dest + BitVec.ofNat 32 k).toNat ∧
        (dest + BitVec.ofNat 32 k).toNat < base.toNat + alloc))
  | .map _ _ => isTrue trivial
  | .read _ _ => isTrue trivial
  | .entry _ _ _ => isTrue trivial
  | .take _ _ => isTrue trivial

def WritesInside (base : BitVec 32) (alloc : ℕ) (s : Loader) : Prop :=
  ∀ e ∈ s.trace, e.Inside base alloc

instance (base : BitVec 32) (alloc : ℕ) (s : Loader) : Decidable (WritesInside base alloc s) :=
  inferInstanceAs (Decidable (∀ e ∈ s.trace, e.Inside base alloc))

/-- Distance of a link address from the link base, as a pointer sees it. -/
def linkOffset (start addr : ℕ) : ℕ := (addr + (2 ^ 64 - start)) % 2 ^ 32

/-- The range ends in the buffer, and the buffer has not reached the top of the address
space there. -/
def InBuffer (base : BitVec 32) (alloc offset length : ℕ) : Prop :=
  length = 0 ∨ (offset + length ≤ alloc ∧ base.toNat + offset + length ≤ 2 ^ 32)

instance (base : BitVec 32) (alloc offset length : ℕ) :
    Decidable (InBuffer base alloc offset length) := inferInstanceAs (Decidable (_ ∨ _))

theorem inside_iff (site : Site) (base : BitVec 32) {alloc offset length : ℕ} (ha : alloc < 2 ^ 32)
    (ho : offset < 2 ^ 32) :
    (Event.write site (base + BitVec.ofNat 32 offset) length).Inside base alloc ↔
      InBuffer base alloc offset length := by
  have hb := base.isLt
  have hval : ∀ k, (base + BitVec.ofNat 32 offset + BitVec.ofNat 32 k).toNat =
      (base.toNat + (offset + k)) % 2 ^ 32 := by
    intro k
    rw [add_ofNat_ofNat, BitVec.toNat_add, BitVec.toNat_ofNat, Nat.add_mod_mod]
  unfold Event.Inside InBuffer
  simp only [hval]
  constructor
  · intro h
    rcases Nat.eq_zero_or_pos length with h0 | hpos
    · exact .inl h0
    right
    have h1 := h 0 hpos
    -- the first byte past the buffer or past the top is no byte of the write
    by_contra hne
    have h2 := h (alloc - offset)
    have h3 := h (2 ^ 32 - base.toNat - offset)
    omega
  · rintro (h0 | ⟨h1, h2⟩) k hk <;> omega

/-- A pointer at the distance that the image states. -/
theorem relocated_linkOffset (base : BitVec 32) (start addr : ℕ) :
    relocated addr (wrap64 (base.toNat + (2 ^ 64 - start))) =
      base + BitVec.ofNat 32 (linkOffset start addr) := by
  unfold relocated wrap64 linkOffset
  apply BitVec.eq_of_toNat_eq
  rw [BitVec.toNat_add, BitVec.toNat_ofNat, BitVec.toNat_ofNat]
  omega

theorem linkOffset_lt (start addr : ℕ) : linkOffset start addr < 2 ^ 32 :=
  Nat.mod_lt _ (Nat.two_pow_pos 32)

/-- The link addresses put the writes for a segment in the buffer. -/
def SegmentMeets (ia : MemImageAccess) (base : BitVec 32) (start : ℕ) : Phdr → Prop :=
  SegmentWrites (fun addr n => InBuffer base ia.size.toNat (linkOffset start addr) n) ia

/-- The two fields that a round of the second loop moves. -/
def PatchMeets (c : ElfClass) (alloc : ℕ) (base : BitVec 32) (phoff i : ℕ) (s : Loader) : Prop :=
  let entsize := (readEhdr s.mem base c).ePhentsize
  (readPhdr s.mem (tableEntry (base + BitVec.ofNat 32 phoff) i entsize) c).pMemsz ≠ 0 →
    InBuffer base alloc ((phoff + i * entsize + c.pPaddr) % 2 ^ 32) c.addrSize ∧
      InBuffer base alloc ((phoff + i * entsize + c.pVaddr) % 2 ^ 32) c.addrSize

/-- The word of `n` bytes that a relocation entry names, for the two types that are applied. -/
def TargetMeets (alloc : ℕ) (base : BitVec 32) (start : ℕ) (table : BitVec 32) (entsize n i : ℕ)
    (s : Loader) : Prop :=
  let e := tableEntry table i entsize
  field s.mem e n n % 256 = 1 ∨ field s.mem e n n % 256 = 8 →
    InBuffer base alloc (linkOffset start (field s.mem e 0 n)) n

section writes
variable {base : BitVec 32} {alloc : ℕ} {s : Loader}

/-- Only writes count, whatever they are for. -/
theorem writesInside_iff : WritesInside base alloc s ↔
    WritesIn (fun p n => (Event.write (.segment 0) p n).Inside base alloc) s := by
  constructor
  · intro h site p n hm
    change (Event.write site p n).Inside base alloc
    exact h _ hm
  · intro h e he
    cases e with
    | write site p n => exact h site p n he
    | _ => trivial

theorem writesInside_silent {t : Loader} (h : Silent s t) :
    WritesInside base alloc t ↔ WritesInside base alloc s := by
  rw [writesInside_iff, writesInside_iff]
  exact writesIn_silent h

theorem writesInside_store {site : Site} {dest : BitVec 32} {n v : ℕ} :
    WritesInside base alloc (s.store site dest n v) ↔
      WritesInside base alloc s ∧ (Event.write site dest n).Inside base alloc := by
  rw [writesInside_iff, writesInside_iff]
  exact writesIn_store

end writes

section steps
variable {c : ElfClass} {ia : MemImageAccess} {base : BitVec 32} {start : ℕ} {s : Loader}

theorem segmentOk_inside (ia : MemImageAccess) (base : BitVec 32) (start : ℕ) :
    SegmentOk (fun p n => (Event.write (.segment 0) p n).Inside base ia.size.toNat) ia
      (wrap64 (base.toNat + (2 ^ 64 - start))) = SegmentMeets ia base start := by
  apply segmentOk_eq
  intro addr n
  rw [relocated_linkOffset, inside_iff _ _ ia.size.isLt (linkOffset_lt _ _)]

/-- The address of a loaded header field, at its distance from the start. -/
theorem headerField_eq (base : BitVec 32) (phoff i entsize o : ℕ) :
    tableEntry (base + BitVec.ofNat 32 phoff) i entsize + BitVec.ofNat 32 o =
      base + BitVec.ofNat 32 ((phoff + i * entsize + o) % 2 ^ 32) := by
  rw [tableEntry_eq, add_ofNat_ofNat]
  congr 1
  apply BitVec.eq_of_toNat_eq
  rw [BitVec.toNat_ofNat, BitVec.toNat_ofNat, Nat.mod_mod]

theorem patchStep_inside {alloc : ℕ} (ha : alloc < 2 ^ 32) (info : ElfLoadInfo) (phoff i : ℕ)
    (s : Loader) :
    (patchStep c info base phoff (base + BitVec.ofNat 32 phoff) i s).All (WritesInside base alloc)
        (WritesInside base alloc) (WritesInside base alloc) ↔
      WritesInside base alloc s ∧ PatchMeets c alloc base phoff i s := by
  have hmod : ∀ n, n % 2 ^ 32 < 2 ^ 32 := fun n => Nat.mod_lt n (Nat.two_pow_pos 32)
  unfold patchStep PatchMeets
  dsimp only
  rw [headerField_eq, headerField_eq]
  split
  next hm =>
    change WritesInside base alloc (Loader.store _ _ _ _ _) ↔ _
    rw [writesInside_store, writesInside_store, inside_iff _ _ ha (hmod _),
      inside_iff _ _ ha (hmod _), and_assoc]
    exact and_congr_right fun _ => ⟨fun h _ => h, fun h => h hm⟩
  next hm =>
    change WritesInside base alloc s ↔ _
    exact (and_iff_left fun h => absurd h hm).symm

/-- One or two stores to the word that a relocation entry names. -/
theorem store_target_inside {alloc n v : ℕ} (ha : alloc < 2 ^ 32) (site : Site) (addr : ℕ) :
    WritesInside base alloc
        (s.store site (relocated addr (wrap64 (base.toNat + (2 ^ 64 - start)))) n v) ↔
      WritesInside base alloc s ∧ InBuffer base alloc (linkOffset start addr) n := by
  rw [writesInside_store, relocated_linkOffset, inside_iff _ _ ha (linkOffset_lt _ _)]

theorem rela32Step_inside {alloc : ℕ} (ha : alloc < 2 ^ 32) (rela symtab : BitVec 32) (i : ℕ) :
    (rela32Step rela symtab (BitVec.ofNat 32 (wrap64 (base.toNat + (2 ^ 64 - start)))) i s).All
        (WritesInside base alloc) (WritesInside base alloc) (WritesInside base alloc) ↔
      WritesInside base alloc s ∧ TargetMeets alloc base start rela 12 4 i s := by
  unfold rela32Step TargetMeets
  dsimp only
  rw [← BitVec.ofNat_add, ← relocated]
  split
  next h1 =>
    change WritesInside base alloc (Loader.store _ _ _ _ _) ↔ _
    rw [store_target_inside ha, store_target_inside ha, and_assoc, and_self_iff]
    exact and_congr_right fun _ => ⟨fun h _ => h, fun h => h (.inl h1)⟩
  next h8 =>
    change WritesInside base alloc (Loader.store _ _ _ _ _) ↔ _
    rw [store_target_inside ha]
    exact and_congr_right fun _ => ⟨fun h _ => h, fun h => h (.inr h8)⟩
  next h0 =>
    exact (and_iff_left fun h => by omega).symm
  next h1 h8 _ =>
    exact (and_iff_left fun h => h.elim (fun h => absurd h h1) (fun h => absurd h h8)).symm

theorem rel32Step_inside {alloc : ℕ} (ha : alloc < 2 ^ 32) (rel symtab : BitVec 32) (i : ℕ) :
    (rel32Step rel symtab (BitVec.ofNat 32 (wrap64 (base.toNat + (2 ^ 64 - start)))) i s).All
        (WritesInside base alloc) (WritesInside base alloc) (WritesInside base alloc) ↔
      WritesInside base alloc s ∧ TargetMeets alloc base start rel 8 4 i s := by
  unfold rel32Step TargetMeets
  dsimp only
  rw [← BitVec.ofNat_add, ← relocated]
  split
  next h1 =>
    change WritesInside base alloc (Loader.store _ _ _ _ _) ↔ _
    rw [store_target_inside ha, store_target_inside ha, and_assoc, and_self_iff]
    exact and_congr_right fun _ => ⟨fun h _ => h, fun h => h (.inl h1)⟩
  next h8 =>
    change WritesInside base alloc (Loader.store _ _ _ _ _) ↔ _
    rw [store_target_inside ha]
    exact and_congr_right fun _ => ⟨fun h _ => h, fun h => h (.inr h8)⟩
  next h1 h8 =>
    exact (and_iff_left fun h => h.elim (fun h => absurd h h1) (fun h => absurd h h8)).symm

theorem rela64Step_inside {alloc : ℕ} (ha : alloc < 2 ^ 32) (rela symtab : BitVec 32) (i : ℕ) :
    (rela64Step rela symtab (wrap64 (base.toNat + (2 ^ 64 - start))) i s).All
        (WritesInside base alloc) (WritesInside base alloc) (WritesInside base alloc) ↔
      WritesInside base alloc s ∧ TargetMeets alloc base start rela 24 8 i s := by
  unfold rela64Step TargetMeets
  dsimp only
  rw [← relocated]
  split
  next h1 =>
    change WritesInside base alloc (Loader.store _ _ _ _ _) ↔ _
    rw [store_target_inside ha, store_target_inside ha, and_assoc, and_self_iff]
    exact and_congr_right fun _ => ⟨fun h _ => h, fun h => h (.inl h1)⟩
  next h8 =>
    change WritesInside base alloc (Loader.store _ _ _ _ _) ↔ _
    rw [store_target_inside ha]
    exact and_congr_right fun _ => ⟨fun h _ => h, fun h => h (.inr h8)⟩
  next h0 =>
    exact (and_iff_left fun h => by omega).symm
  next h1 h8 _ =>
    exact (and_iff_left fun h => h.elim (fun h => absurd h h1) (fun h => absurd h h8)).symm

theorem relocate_inside {alloc : ℕ} (step : ℕ → Loader → Outcome Loader) (ok : ℕ → Loader → Prop)
    (hstep : ∀ i s, (step i s).All (WritesInside base alloc) (WritesInside base alloc)
      (WritesInside base alloc) ↔ WritesInside base alloc s ∧ ok i s) (n : ℕ) :
    WritesInside base alloc (relocate step n s).1 ↔
      WritesInside base alloc s ∧ Loop.Admits (fun i _ => i < n) step ok n 0 s := by
  rw [← run_iff (WritesInside base alloc) ok hstep]
  unfold relocate
  split
  next he => rw [he]; rfl
  next he => rw [he]; rfl
  next he => rw [he]; rfl

end steps

/-- The relocation entries that are applied, in the order of the tests of the code. -/
def RelocationMeets (c : ElfClass) (alloc : ℕ) (base : BitVec 32) (start : ℕ) (s : Loader)
    (info : ElfLoadInfo) (dynSectionSz dynSection : BitVec 32) : Prop :=
  let d := scanDynamic c s.mem info.startAddr dynSection (dynSectionSz.toNat / (2 * c.addrSize))
  match c with
  | .elfclass32 =>
    let relocationOffset := BitVec.ofNat 32 info.relocationOffset
    if d.rela ≠ 0 ∧ d.relaSz ≠ 0 ∧ d.symtab ≠ 0 ∧ d.relaEntsz = 12 ∧ d.symtabEntsz = 16 then
      Loop.Admits (fun i _ => i < entryCount d.relaSz d.relaEntsz)
        (rela32Step d.rela d.symtab relocationOffset)
        (TargetMeets alloc base start d.rela 12 4) (entryCount d.relaSz d.relaEntsz) 0 s
    else if d.rel ≠ 0 ∧ d.symtab ≠ 0 ∧ d.relSz ≠ 0 ∧ d.relEntsz = 8 then
      Loop.Admits (fun i _ => i < entryCount d.relSz d.relEntsz)
        (rel32Step d.rel d.symtab relocationOffset)
        (TargetMeets alloc base start d.rel 8 4) (entryCount d.relSz d.relEntsz) 0 s
    else True
  | .elfclass64 =>
    if d.rela = 0 ∨ d.relaSz = 0 ∨ d.symtab = 0 ∨ d.relaEntsz ≠ 24 ∨ d.symtabEntsz ≠ 24 then True
    else
      Loop.Admits (fun i _ => i < entryCount d.relaSz d.relaEntsz)
        (rela64Step d.rela d.symtab info.relocationOffset)
        (TargetMeets alloc base start d.rela 24 8) (entryCount d.relaSz d.relaEntsz) 0 s

/-- Every round of the loop over the loaded headers. -/
def HeadersMeet (c : ElfClass) (alloc : ℕ) (s : Loader) (info : ElfLoadInfo) (base : BitVec 32) :
    Prop :=
  let phoff := (readEhdr s.mem base c).ePhoff
  Loop.Admits (fun i s => phdrCond c s.mem base i)
    (patchStep c info base phoff (base + BitVec.ofNat 32 phoff)) (PatchMeets c alloc base phoff)
    int16Rounds 0 s

/-- Every step of a load that writes is begun in a state whose headers or entries name a range
in the buffer. -/
def LoadMeets (c : ElfClass) (s : Loader) (ia : MemImageAccess) (info : ElfLoadInfo)
    (base : BitVec 32) (start : ℕ) : Prop :=
  RoundsOk (SegmentMeets ia base start) c s ia info.relocationOffset ∧
    ∀ t dyn, loadSegments c s ia info = .next (t, dyn) →
      HeadersMeet c ia.size.toNat t info base ∧
        ∀ u, patchHeaders c t info = .next u →
          ∀ phdr, dyn = some phdr →
            ∀ v sz dynSection, mapDynamic u ia (readPhdr u.mem phdr c) = (v, sz, some dynSection) →
              RelocationMeets c ia.size.toNat base start v info sz dynSection

section load
variable {c : ElfClass} {ia : MemImageAccess} {base : BitVec 32} {start : ℕ} {s : Loader}
  {info : ElfLoadInfo}

theorem doRelocation_inside (c : ElfClass) (s : Loader) (ia : MemImageAccess) {alloc : ℕ} (ha : alloc < 2 ^ 32)
    (hr : info.relocationOffset = wrap64 (base.toNat + (2 ^ 64 - start))) (ph : Phdr) :
    WritesInside base alloc (doRelocation c s ia info ph).1 ↔ WritesInside base alloc s ∧
      ∀ t sz dynSection, mapDynamic s ia ph = (t, sz, some dynSection) →
        RelocationMeets c alloc base start t info sz dynSection := by
  have hm : WritesInside base alloc (mapDynamic s ia ph).1 ↔ WritesInside base alloc s :=
    writesInside_silent (silent_mapDynamic s ia ph)
  generalize hmap : mapDynamic s ia ph = r at hm
  obtain ⟨t, sz, o⟩ := r
  dsimp only at hm
  cases o with
  | none =>
    have hd : (doRelocation c s ia info ph).1 = t := by
      cases c
      · change (elf32DoRelocation s ia info ph).1 = t
        unfold elf32DoRelocation
        rw [hmap]
      · change (elf64DoRelocation s ia info ph).1 = t
        unfold elf64DoRelocation
        rw [hmap]
    rw [hd, hm]
    exact (and_iff_left fun u sz' dyn he => by cases he).symm
  | some dynSection =>
    have hd : WritesInside base alloc (doRelocation c s ia info ph).1 ↔
        WritesInside base alloc t ∧ RelocationMeets c alloc base start t info sz dynSection := by
      unfold RelocationMeets
      cases c with
      | elfclass32 =>
        change WritesInside base alloc (elf32DoRelocation s ia info ph).1 ↔ _
        unfold elf32DoRelocation
        rw [hmap, hr]
        dsimp only [ElfClass.addrSize, Nat.reduceMul]
        split
        · exact relocate_inside _ _ (fun i u => rela32Step_inside ha _ _ i) _
        · split
          · exact relocate_inside _ _ (fun i u => rel32Step_inside ha _ _ i) _
          · exact (and_iff_left trivial).symm
      | elfclass64 =>
        change WritesInside base alloc (elf64DoRelocation s ia info ph).1 ↔ _
        unfold elf64DoRelocation
        rw [hmap, hr]
        dsimp only [ElfClass.addrSize, Nat.reduceMul]
        split
        · exact (and_iff_left trivial).symm
        · exact relocate_inside _ _ (fun i u => rela64Step_inside ha _ _ i) _
    rw [hd, hm]
    apply and_congr_right
    intro _
    exact ⟨fun h u sz' dyn he => by cases he; exact h, fun h => h t sz dynSection rfl⟩

theorem loadSegments_inside (c : ElfClass) (s : Loader) (ia : MemImageAccess)
    (hr : info.relocationOffset = wrap64 (base.toNat + (2 ^ 64 - start))) :
    (loadSegments c s ia info).All (fun t => WritesInside base ia.size.toNat t.1)
        (fun t => WritesInside base ia.size.toNat t.1) (fun t => WritesInside base ia.size.toNat t.1) ↔
      WritesInside base ia.size.toNat s ∧
        RoundsOk (SegmentMeets ia base start) c s ia info.relocationOffset := by
  simp only [writesInside_iff]
  rw [loadSegments_writesIn, hr, segmentOk_inside]

theorem patchHeaders_inside {alloc : ℕ} (ha : alloc < 2 ^ 32) (hs : info.startAddr = base.toNat) :
    (patchHeaders c s info).All (WritesInside base alloc) (WritesInside base alloc)
        (WritesInside base alloc) ↔
      WritesInside base alloc s ∧ HeadersMeet c alloc s info base := by
  have hbase : BitVec.ofNat 32 info.startAddr = base := by
    rw [hs, BitVec.ofNat_toNat, BitVec.setWidth_eq]
  unfold patchHeaders HeadersMeet
  dsimp only
  rw [BitVec.ofNat_add, hbase]
  exact run_iff (WritesInside base alloc) (PatchMeets c alloc base _)
    fun i t => patchStep_inside ha info _ i t

/-- A load without the optional copies. -/
theorem loadExecutable_inside (hs : info.startAddr = base.toNat)
    (hr : info.relocationOffset = wrap64 (base.toNat + (2 ^ 64 - start)))
    (hh : info.copySectionHeaders = false) (hsym : info.copySymbolTables = false) (fuel : ℕ) :
    WritesInside base ia.size.toNat (loadExecutable c s ia info fuel).1 ↔
      WritesInside base ia.size.toNat s ∧ LoadMeets c s ia info base start := by
  have hcopy : ∀ t, copyTables c t ia info fuel = (t, .monOk) := by
    intro t
    unfold copyTables
    simp [hh, hsym]
  have hseg := loadSegments_inside c s ia hr
  unfold loadExecutable LoadMeets
  cases hl : loadSegments c s ia info with
  | quit st =>
    rw [hl] at hseg
    refine hseg.trans (and_congr_right fun _ => ?_)
    exact (and_iff_left fun _ _ he => by cases he).symm
  | spent st =>
    rw [hl] at hseg
    refine hseg.trans (and_congr_right fun _ => ?_)
    exact (and_iff_left fun _ _ he => by cases he).symm
  | next st =>
    obtain ⟨t, dyn⟩ := st
    rw [hl] at hseg
    change WritesInside base ia.size.toNat t ↔ _ at hseg
    have hpat := patchHeaders_inside (c := c) (s := t) ia.size.isLt hs
    rw [hseg, and_assoc] at hpat
    have hone : ∀ Q : Loader → Option (BitVec 32) → Prop,
        (∀ u d, Outcome.next (t, dyn) = .next (u, d) → Q u d) ↔ Q t dyn :=
      fun Q => ⟨fun h => h t dyn rfl, fun h _ _ he => by cases he; exact h⟩
    rw [hone]
    dsimp only
    cases hp : patchHeaders c t info with
    | quit u =>
      rw [hp] at hpat
      refine hpat.trans (and_congr_right fun _ => and_congr_right fun _ => ?_)
      exact (and_iff_left fun _ he => by cases he).symm
    | spent u =>
      rw [hp] at hpat
      refine hpat.trans (and_congr_right fun _ => and_congr_right fun _ => ?_)
      exact (and_iff_left fun _ he => by cases he).symm
    | next u =>
      rw [hp] at hpat
      change WritesInside base ia.size.toNat u ↔ _ at hpat
      cases dyn with
      | none =>
        dsimp only
        rw [hcopy]
        refine hpat.trans (and_congr_right fun _ => and_congr_right fun _ => ?_)
        exact (and_iff_left fun _ _ _ he => by cases he).symm
      | some phdr =>
        have hrel := doRelocation_inside c u ia ia.size.isLt hr
          (readPhdr u.mem phdr c)
        rw [hpat, and_assoc, and_assoc] at hrel
        refine Iff.trans ?_ (hrel.trans (and_congr_right fun _ => and_congr_right fun _ =>
          and_congr_right fun _ => ?_))
        · dsimp only
          generalize doRelocation c u ia info (readPhdr u.mem phdr c) = r
          obtain ⟨v, status⟩ := r
          cases status with
          | monOk =>
            dsimp only
            rw [hcopy]
          | monError => rfl
          | runaway => rfl
        constructor
        · intro h v he phdr' hd
          cases he
          cases hd
          exact h
        · intro h
          exact h u rfl phdr rfl

end load

/-- The condition on an image and a buffer: if the headers are accepted, the load meets the
bound in every step. -/
def ImageMeets (mem : Memory 32) (file base alloc : BitVec 32) : Prop :=
  let ia : MemImageAccess := ⟨file, alloc⟩
  let r := elfGetLoadInfo ⟨mem, []⟩ ia ElfLoadInfo.cleared 0
  r.2.2 = .monOk →
    LoadMeets r.2.1.machineType r.1 ia (r.2.1.relocate base) base r.2.1.startAddr

/-- The writes of a load stay in the buffer exactly if every step that writes is begun in a
state whose headers or entries name a range in the buffer. -/
theorem writes_inside_iff (mem : Memory 32) (file base alloc : BitVec 32) :
    WritesInside base alloc.toNat (loadImage mem file base alloc).1 ↔
      ImageMeets mem file base alloc := by
  have h0 : WritesInside base alloc.toNat ⟨mem, []⟩ := fun e he => absurd he List.not_mem_nil
  have hget : WritesInside base alloc.toNat
      (elfGetLoadInfo ⟨mem, []⟩ ⟨file, alloc⟩ ElfLoadInfo.cleared 0).1 :=
    (writesInside_silent (silent_elfGetLoadInfo _ _ _ _)).mpr h0
  unfold loadImage loadElfImage ImageMeets
  dsimp only
  by_cases hok : (elfGetLoadInfo ⟨mem, []⟩ ⟨file, alloc⟩ ElfLoadInfo.cleared 0).2.2 = .monOk
  · obtain ⟨c, ha, _⟩ := accepted_of_elfGetLoadInfo rfl rfl hok
    generalize elfGetLoadInfo ⟨mem, []⟩ ⟨file, alloc⟩ ElfLoadInfo.cleared 0 = r at hget hok ha ⊢
    obtain ⟨s, info, status⟩ := r
    dsimp only at hget hok ha ⊢
    subst hok
    have hl : WritesInside base alloc.toNat (loadExecutable c s ⟨file, alloc⟩
        (info.relocate base) 0).1 ↔ WritesInside base alloc.toNat s ∧
          LoadMeets c s ⟨file, alloc⟩ (info.relocate base) base info.startAddr :=
      loadExecutable_inside (relocate_startAddr ha.start_lt) rfl ha.noSectionHeaders
        ha.noSymbolTables 0
    have hmt : (info.relocate base).machineType = c := ha.machineType
    have hmem : (elfLoadExecutable s ⟨file, alloc⟩ info base 0).1 =
        (loadExecutable c s ⟨file, alloc⟩ (info.relocate base) 0).1 := by
      unfold elfLoadExecutable
      dsimp only
      rw [hmt]
      cases c <;> rfl
    rw [if_neg (not_not.mpr rfl), ha.machineType]
    rw [← hmem] at hl
    generalize elfLoadExecutable s ⟨file, alloc⟩ info base 0 = r at hl ⊢
    obtain ⟨t, info', st⟩ := r
    dsimp only at hl ⊢
    have hout : (if st ≠ .monOk then (t, none) else (t, some info'.entryAddr) :
        Loader × Option ℕ).1 = t := by
      split <;> rfl
    rw [hout, hl]
    exact ⟨fun h _ => h.2, fun h => ⟨hget, h rfl⟩⟩
  · rw [if_pos hok]
    exact ⟨fun _ h => absurd h hok, fun _ => hget⟩

/-- The small executable in a buffer as long as its file: the zeros end twelve bytes behind the
buffer. -/
theorem tinyElf32_not_inside :
    ¬ WritesInside 0x2000 84 (loadImage (Memory.ofBytes 0x1000 tinyElf32) 0x1000 0x2000 84).1 := by
  decide +kernel

end IkgtLoader.Ld
