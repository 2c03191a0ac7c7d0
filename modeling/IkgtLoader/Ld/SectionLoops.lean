import IkgtLoader.Flat.LoopBound
import IkgtLoader.Ld.Accepted
import IkgtLoader.Ld.Status

/-! The loops over sections: an `int16_t` counts up to an unsigned `e_shnum`. -/
namespace IkgtLoader.Ld
open Flat Loop

variable {c : ElfClass} {s : Loader} {ia : MemImageAccess} {info : ElfLoadInfo} {mem : Memory 32}
  {eh : Ehdr} {shdrtab : BitVec 32} {maxAddr : ℕ}

/-- A section index is one of the table. -/
def IndexInTable (shnum : ℕ) (index : ℤ) : Prop := 0 ≤ index ∧ index < (shnum : ℤ)

/-- The loop of `get_load_info` ends after at most `e_shnum` rounds and looks at sections of the
table only. -/
structure SizeLoopEnds (c : ElfClass) (mem : Memory 32) (eh : Ehdr) (shdrtab : BitVec 32)
    (maxAddr : ℕ) : Prop where
  ends : ∀ m, sectionLoop c mem eh shdrtab maxAddr eh.eShnum ≠ .spent m
  visits : ∀ fuel, Admits (fun i _ => (BitVec.ofNat 16 i).toInt < (eh.eShnum : ℤ))
    (sectionStep c mem eh shdrtab)
    (fun i _ => IndexInTable eh.eShnum (BitVec.ofNat 16 i).toInt) fuel 0 maxAddr

/-- The section at which `copy_sections` looks in round `i`. -/
def copiedIndex (c : ElfClass) (i : ℕ) : ℤ :=
  match c with
  | .elfclass32 => ((BitVec.ofNat 16 i).toNat : ℤ)
  | .elfclass64 => (BitVec.ofNat 16 i).toInt

theorem shdrAddress_eq (c : ElfClass) (sectionsAddr i entsize : ℕ) :
    shdrAddress c sectionsAddr i entsize =
      BitVec.ofNat 32 sectionsAddr + BitVec.ofInt 32 (copiedIndex c i * (entsize : ℤ)) := by
  cases c with
  | elfclass32 =>
    unfold shdrAddress copiedIndex
    rw [BitVec.ofNat_add]
    norm_cast
  | elfclass64 => rfl

/-- `e_shnum` of the loaded header. -/
def loadedShnum (c : ElfClass) (info : ElfLoadInfo) (st : Loader × ℕ) : ℕ :=
  (readEhdr st.1.mem (BitVec.ofNat 32 info.startAddr) c).eShnum

/-- Where the loop of `copy_sections` begins. -/
def copyStart (c : ElfClass) (s : Loader) (info : ElfLoadInfo) : Loader × ℕ :=
  let eh := readEhdr s.mem (BitVec.ofNat 32 info.startAddr) c
  (s, c.wrap (info.sectionsAddr + (tableSize eh.eShentsize eh.eShnum).toNat))

/-- So does the loop of `copy_sections`, with `e_shnum` as it is before the loop. -/
structure CopyLoopEnds (c : ElfClass) (s : Loader) (ia : MemImageAccess) (info : ElfLoadInfo) :
    Prop where
  ends : (copySections c s ia info (loadedShnum c info (copyStart c s info))).2 ≠ .runaway
  visits : ∀ fuel, Admits (shdrCond c info) (copySectionStep c ia info)
    (fun i _ => IndexInTable (loadedShnum c info (copyStart c s info)) (copiedIndex c i)) fuel 0
    (copyStart c s info)

/-- The rounds below this one are at sections of the table of `shnum` sections. -/
def lastRound (c : ElfClass) (shnum : ℕ) : ℕ :=
  match c with
  | .elfclass32 => shnum
  | .elfclass64 => min shnum 0x8000

theorem sectionStep_next (c : ElfClass) (mem : Memory 32) (eh : Ehdr) (shdrtab : BitVec 32)
    (i maxAddr : ℕ) : ∃ m, sectionStep c mem eh shdrtab i maxAddr = .next m := by
  unfold sectionStep
  dsimp only
  split
  · exact ⟨_, rfl⟩
  · split <;> exact ⟨_, rfl⟩

/-- From `e_shnum = 0x8000` on the loop of `get_load_info` does not end. -/
theorem sectionLoop_spent (h : 0x8000 ≤ eh.eShnum) {fuel : ℕ} {o : Outcome ℕ}
    (ho : sectionLoop c mem eh shdrtab maxAddr fuel = o) : ∃ m, o = .spent m := by
  rw [← ho]
  exact run_spent (sectionStep_next c mem eh shdrtab)
    fun _ (_ : ℕ) _ _ => counter_lt_of_half_le (w := 16) h

theorem sizeLoopEnds_iff : SizeLoopEnds c mem eh shdrtab maxAddr ↔ eh.eShnum < 0x8000 := by
  have hspent : ∀ i m m', sectionStep c mem eh shdrtab i m ≠ .spent m' := by
    intro i m m' h
    obtain ⟨u, hu⟩ := sectionStep_next c mem eh shdrtab i m
    rw [hu] at h
    cases h
  have hends : SizeLoopEnds c mem eh shdrtab maxAddr ↔
      EndsFrom (BelowBound 16 fun _ => eh.eShnum) (sectionStep c mem eh shdrtab)
        (fun i => IndexInTable eh.eShnum (counter 16 i)) eh.eShnum 0 maxAddr :=
    ⟨fun h => ⟨h.ends, h.visits⟩, fun h => ⟨h.ends, h.visits⟩⟩
  constructor
  · intro h
    by_contra hge
    obtain ⟨m, hm⟩ := sectionLoop_spent (Nat.le_of_not_lt hge) rfl
    exact h.ends m hm
  · intro h
    rw [hends, endsFrom_iff hspent (m := eh.eShnum) ?_ le_rfl (fun hlt => absurd hlt (Nat.lt_irrefl _))
      (Nat.zero_le _)]
    · refine .of_cond hspent (Nat.zero_le _) fun k t _ _ => ?_
      rw [belowBound_iff (w := 16) h]
      exact Nat.lt_irrefl _
    · intro j hj
      unfold IndexInTable
      rw [counter_of_lt (w := 16) (Nat.lt_trans hj h)]
      omega

theorem sectionsInfo_runaway (h : 0x8000 ≤ eh.eShnum)
    (h0 : (sectionsInfo c s ia eh info maxAddr 0).2.2.2 = .runaway) (fuel : ℕ) :
    (sectionsInfo c s ia eh info maxAddr fuel).2.2.2 = .runaway := by
  unfold sectionsInfo at h0 ⊢
  dsimp only at h0 ⊢
  split
  next hcopy =>
    rw [if_pos hcopy] at h0
    split
    next hn =>
      rw [if_pos hn] at h0
      cases h0
    next =>
      split
      next m hm =>
        obtain ⟨u, hu⟩ := sectionLoop_spent h hm
        cases hu
      next m hm =>
        obtain ⟨u, hu⟩ := sectionLoop_spent h hm
        cases hu
      next => rfl
  next hcopy =>
    rw [if_neg hcopy] at h0
    cases h0

theorem finishInfo_runaway {lowAddr : ℕ} (h : 0x8000 ≤ eh.eShnum)
    (h0 : (finishInfo c s ia eh info lowAddr maxAddr 0).2.2 = .runaway) (fuel : ℕ) :
    (finishInfo c s ia eh info lowAddr maxAddr fuel).2.2 = .runaway := by
  unfold finishInfo at h0 ⊢
  split
  next hcopy =>
    rw [if_pos hcopy] at h0
    have hrun : (sectionsInfo c s ia eh info maxAddr 0).2.2.2 = .runaway := by
      split at h0
      next => cases h0
      next _ he => rw [he]; exact h0
    have hfuel := sectionsInfo_runaway h hrun fuel
    split
    next he =>
      rw [he] at hfuel
      cases hfuel
    next _ he => rwa [he] at hfuel
  next hcopy =>
    rw [if_neg hcopy] at h0
    cases h0

/-- An image with so many sections that sends `get_load_info` into the loop keeps it there. -/
theorem getLoadInfo_runaway (h : 0x8000 ≤ (readEhdr s.mem ia.image c).eShnum)
    (h0 : (getLoadInfo c s ia info 0).2.2 = .runaway) (fuel : ℕ) :
    (getLoadInfo c s ia info fuel).2.2 = .runaway := by
  have hcases := mapHeader_cases c s ia
  unfold getLoadInfo at h0 ⊢
  split at h0
  next => cases h0
  next s₁ ehdr hmap =>
    have hehdr : ehdr = ia.image ∧ s₁.mem = s.mem := by
      rw [hmap] at hcases
      rcases hcases with ⟨_, hnone⟩ | ⟨_, hsome, hmem⟩
      · cases hnone
      · exact ⟨Option.some.inj hsome, hmem⟩
    obtain ⟨rfl, hmem⟩ := hehdr
    dsimp only at h0
    split at h0
    next => cases h0
    next htype =>
      split at h0
      next => cases h0
      next s₂ phdrtab hphdrs =>
        dsimp only at h0 ⊢
        split at h0
        next => cases h0
        next hlow =>
          rw [if_neg htype, hphdrs]
          dsimp only
          rw [if_neg hlow]
          exact finishInfo_runaway (by rwa [hmem]) h0 fuel

theorem elfGetLoadInfo_runaway
    (h : ∀ c, headerIsValid s.mem ia.image c → 0x8000 ≤ (readEhdr s.mem ia.image c).eShnum)
    (h0 : (elfGetLoadInfo s ia info 0).2.2 = .runaway) (fuel : ℕ) :
    (elfGetLoadInfo s ia info fuel).2.2 = .runaway := by
  have hp : ia.image + BitVec.ofNat 32 0 = ia.image := BitVec.add_zero ia.image
  unfold elfGetLoadInfo Loader.map memImageMapToMem at h0 ⊢
  dsimp only at h0 ⊢
  rw [hp] at h0 ⊢
  split at h0
  next => cases h0
  next hn =>
    rw [if_neg hn]
    split at h0
    next hv =>
      rw [if_pos hv]
      refine getLoadInfo_runaway (c := .elfclass32) ?_ h0 fuel
      exact h .elfclass32 hv
    next hv =>
      split at h0
      next hv' =>
        rw [if_neg hv, if_pos hv']
        refine getLoadInfo_runaway (c := .elfclass64) ?_ h0 fuel
        exact h .elfclass64 hv'
      next => cases h0

theorem copySectionStep_spent (i : ℕ) (st t : Loader × ℕ) : copySectionStep c ia info i st ≠ .spent t := by
  intro h
  rcases copySectionStep_cases c ia info i st with ⟨_, u, hu⟩ | ⟨_, u, hu⟩ <;> rw [hu] at h <;> cases h

theorem copySectionStep_not_next_iff {i : ℕ} {st : Loader × ℕ} :
    (∀ t, copySectionStep c ia info i st ≠ .next t) ↔ ¬ SectionRead c ia info i st := by
  rcases copySectionStep_cases c ia info i st with ⟨hr, u, hu⟩ | ⟨hr, u, hu⟩
  · exact iff_of_false (fun h => h u hu) fun h => h hr
  · exact iff_of_true (fun t ht => by rw [hu] at ht; cases ht) hr

theorem copySections_eq (c : ElfClass) (s : Loader) (ia : MemImageAccess) (info : ElfLoadInfo) (fuel : ℕ) :
    copySections c s ia info fuel =
      match run (BelowBound 16 (loadedShnum c info)) (copySectionStep c ia info) fuel 0
        (copyStart c s info) with
      | .next st => (st.1, .monOk)
      | .quit st => (st.1, .monError)
      | .spent st => (st.1, .runaway) := rfl

theorem copySections_runaway_iff {fuel : ℕ} : (copySections c s ia info fuel).2 = .runaway ↔
    ∃ t, run (BelowBound 16 (loadedShnum c info)) (copySectionStep c ia info) fuel 0
      (copyStart c s info) = .spent t := by
  rw [copySections_eq]
  cases run (BelowBound 16 (loadedShnum c info)) (copySectionStep c ia info) fuel 0
    (copyStart c s info) with
  | next st => simp
  | quit st => simp
  | spent st => simp

theorem copyLoopEnds_iff_endsFrom : CopyLoopEnds c s ia info ↔
    EndsFrom (BelowBound 16 (loadedShnum c info)) (copySectionStep c ia info)
      (fun i => IndexInTable (loadedShnum c info (copyStart c s info)) (copiedIndex c i))
      (loadedShnum c info (copyStart c s info)) 0 (copyStart c s info) := by
  constructor
  · intro h
    exact ⟨fun t ht => h.ends (copySections_runaway_iff.mpr ⟨t, ht⟩), h.visits⟩
  · intro h
    refine ⟨fun hr => ?_, h.visits⟩
    obtain ⟨t, ht⟩ := copySections_runaway_iff.mp hr
    exact h.ends t ht

theorem loadedShnum_lt (c : ElfClass) (info : ElfLoadInfo) (st : Loader × ℕ) :
    loadedShnum c info st < 2 ^ 16 := by
  cases c <;> exact field_lt _ _ _ _

/-- The rounds below the last are at sections of the table; the last, if the table has more sections, is
not and is always begun. -/
theorem lastRound_spec {n : ℕ} (hn : n < 2 ^ 16) (bound : Loader × ℕ → ℕ) :
    (∀ j < lastRound c n, IndexInTable n (copiedIndex c j)) ∧ lastRound c n ≤ n ∧
      (lastRound c n < n → (∀ st, BelowBound 16 bound (lastRound c n) st) ∧
        ¬ IndexInTable n (copiedIndex c (lastRound c n))) := by
  unfold IndexInTable
  cases c with
  | elfclass32 =>
    refine ⟨fun j hj => ?_, le_rfl, fun h => absurd h (Nat.lt_irrefl n)⟩
    unfold lastRound at hj
    unfold copiedIndex
    dsimp only at hj ⊢
    rw [BitVec.toNat_ofNat, Nat.mod_eq_of_lt (by omega)]
    omega
  | elfclass64 =>
    unfold lastRound
    dsimp only
    refine ⟨fun j hj => ?_, Nat.min_le_left _ _, fun h => ?_⟩
    · have hc : copiedIndex .elfclass64 j = j := counter_of_lt (w := 16) (show j < 0x8000 by omega)
      rw [hc]
      omega
    · have hmin : min n 0x8000 = 0x8000 := by omega
      have hneg : copiedIndex .elfclass64 0x8000 < 0 := by decide
      rw [hmin]
      exact ⟨fun st => belowBound_of_half_le (by decide) (by decide), fun h => by omega⟩

theorem copyLoopEnds_iff : CopyLoopEnds c s ia info ↔
    ∃ i ≤ lastRound c (loadedShnum c info (copyStart c s info)),
      ∃ st, stateFrom (copySectionStep c ia info) 0 (copyStart c s info) i = some st ∧
        (i < 0x8000 ∧ loadedShnum c info st ≤ i ∨
          i < lastRound c (loadedShnum c info (copyStart c s info)) ∧ ¬ SectionRead c ia info i st) := by
  have hn := loadedShnum_lt c info (copyStart c s info)
  obtain ⟨hok, hle, hlast⟩ := lastRound_spec (c := c) hn (loadedShnum c info)
  rw [copyLoopEnds_iff_endsFrom, endsFrom_iff copySectionStep_spent hok hle hlast (Nat.zero_le _)]
  unfold LeavesFrom
  simp only [Nat.zero_add, copySectionStep_not_next_iff]
  refine exists_congr fun i => and_congr_right fun hi => exists_congr fun st => and_congr_right fun _ =>
    or_congr_left ?_
  by_cases hhalf : i < 0x8000
  · rw [belowBound_iff (w := 16) hhalf]
    omega
  · have hb : BelowBound 16 (loadedShnum c info) i st :=
      belowBound_of_half_le (Nat.le_of_not_lt hhalf) (by omega)
    exact iff_of_false (fun h => h hb) fun h => hhalf h.1

/-- In particular if `e_shnum` is below 0x8000 and no section is copied over it. -/
theorem CopyLoopEnds.of_kept (h : loadedShnum c info (copyStart c s info) < 0x8000)
    (hkept : ∀ st, stateFrom (copySectionStep c ia info) 0 (copyStart c s info)
      (loadedShnum c info (copyStart c s info)) = some st →
        loadedShnum c info st ≤ loadedShnum c info (copyStart c s info)) :
    CopyLoopEnds c s ia info := by
  obtain ⟨hok, hle, hlast⟩ := lastRound_spec (c := c) (loadedShnum_lt c info (copyStart c s info))
    (loadedShnum c info)
  have hm : lastRound c (loadedShnum c info (copyStart c s info)) =
      loadedShnum c info (copyStart c s info) := by
    cases c with
    | elfclass32 => rfl
    | elfclass64 => exact Nat.min_eq_left (Nat.le_of_lt h)
  rw [copyLoopEnds_iff_endsFrom, endsFrom_iff copySectionStep_spent hok hle hlast (Nat.zero_le _), hm]
  refine .of_cond copySectionStep_spent (Nat.zero_le _) fun k st hk hst => ?_
  rw [Nat.zero_add] at hk
  rw [belowBound_iff (w := 16) h]
  exact Nat.not_lt_of_le (hkept st (hk ▸ hst))

/-- The loops over sections end within their tables exactly if the `int16_t` does not wrap before
they are left: in `get_load_info`, if `e_shnum` is below 0x8000; in `copy_sections`, if a round below
0x8000 finds the end of the table, or a round that is still in it a section that cannot be read. -/
theorem sectionLoops_end_iff (c : ElfClass) (mem : Memory 32) (eh : Ehdr) (shdrtab : BitVec 32)
    (maxAddr : ℕ) (s : Loader) (ia : MemImageAccess) (info : ElfLoadInfo) :
    (SizeLoopEnds c mem eh shdrtab maxAddr ↔ eh.eShnum < 0x8000) ∧
      (CopyLoopEnds c s ia info ↔
        ∃ i ≤ lastRound c (loadedShnum c info (copyStart c s info)),
          ∃ st, stateFrom (copySectionStep c ia info) 0 (copyStart c s info) i = some st ∧
            (i < 0x8000 ∧ loadedShnum c info st ≤ i ∨
              i < lastRound c (loadedShnum c info (copyStart c s info)) ∧
                ¬ SectionRead c ia info i st)) :=
  ⟨sizeLoopEnds_iff, copyLoopEnds_iff⟩

/-- The headers of `tinyElf32` with `e_shnum = 0x8000` and `e_shentsize = 0`. -/
def manySectionsElf32 : List (BitVec 8) :=
  (tinyElf32.set 0x2e 0).set 0x31 0x80

/-- With the sections to be copied `get_load_info` does not return. -/
theorem manySectionsElf32_runaway :
    let s : Loader := ⟨Memory.ofBytes 0x100000 manySectionsElf32, []⟩
    let ia : MemImageAccess := ⟨0x100000, 0x54⟩
    let info := { ElfLoadInfo.cleared with copySymbolTables := true }
    ¬ SizeLoopEnds .elfclass32 s.mem (readEhdr s.mem 0x100000 .elfclass32) 0x100000 0x60 ∧
      ∀ fuel, (elfGetLoadInfo s ia info fuel).2.2 = .runaway := by
  intro s ia info
  have hmany : (readEhdr s.mem 0x100000 .elfclass32).eShnum = 0x8000 := by decide +kernel
  refine ⟨fun h => absurd (sizeLoopEnds_iff.mp h) (by rw [hmany]; decide), ?_⟩
  refine elfGetLoadInfo_runaway (fun c hv => ?_) (by decide +kernel)
  cases c with
  | elfclass32 => exact Nat.le_of_eq hmany.symm
  | elfclass64 => exact absurd hv (by decide +kernel)

end IkgtLoader.Ld
