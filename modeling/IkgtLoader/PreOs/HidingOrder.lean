import IkgtLoader.PreOs.MapBounds

/-! A sorted map is hidden in order: the record that holds the range becomes two or three, and the
others stay as they are. -/
namespace IkgtLoader
open Flat Loop

/-- Every record ends before the next ones begin. -/
def Ordered (l : List MemoryMap) : Prop :=
  l.Pairwise fun r q => r.addr.toNat + r.len.toNat ≤ q.addr.toNat

/-- The records describe different addresses. -/
def Separate (l : List MemoryMap) : Prop := l.Pairwise fun r q => ∀ x, r.Covers x → ¬ q.Covers x

/-- The range lies in an AVAILABLE record. -/
structure HeldBy (hideMemAddr hideMemSize : BitVec 32) (r : MemoryMap) : Prop where
  type : r.type = MULTIBOOT_MEMORY_AVAILABLE
  addr : r.addr.toNat ≤ hideMemAddr.toNat
  stop : hideMemAddr.toNat + hideMemSize.toNat ≤ r.addr.toNat + r.len.toNat

/-- The pieces of the record that holds the range: they are RESERVED in the range, AVAILABLE in
the rest of the record, and there are two of them if the range ends with it. -/
structure SplitBy (hideMemAddr hideMemSize : BitVec 32) (r : MemoryMap) (pieces : List MemoryMap) :
    Prop where
  count : pieces.length =
    if hideMemAddr.toNat + hideMemSize.toNat = r.addr.toNat + r.len.toNat then 2 else 3
  inside : ∀ q ∈ pieces, r.addr.toNat ≤ q.addr.toNat ∧
    q.addr.toNat + q.len.toNat ≤ r.addr.toNat + r.len.toNat
  ordered : Ordered pieces
  covered : ∀ t x, CoveredBy pieces t x ↔
    (MULTIBOOT_MEMORY_RESERVED = t ∧ InRange hideMemAddr hideMemSize x) ∨
      (MULTIBOOT_MEMORY_AVAILABLE = t ∧ r.Covers x ∧ ¬ InRange hideMemAddr hideMemSize x)

section lists
variable {l before after pieces : List MemoryMap} {r : MemoryMap}

theorem Ordered.disjoint (h : Ordered l) : Separate l := by
  apply List.Pairwise.imp _ h
  intro r q hle x hr hq
  unfold MemoryMap.Covers at hr hq
  omega

/-- Records that are sorted and apart from each other, and none of them empty. -/
theorem ordered_of_sorted (hsorted : l.Pairwise fun r q => r.addr.toNat ≤ q.addr.toNat)
    (hdisjoint : Separate l) (hpos : ∀ r ∈ l, 0 < r.len.toNat) : Ordered l := by
  have hboth := hsorted.and hdisjoint
  apply List.Pairwise.imp_of_mem _ hboth
  rintro r q hr hq ⟨hle, hap⟩
  by_contra hlt
  have hqpos := hpos q hq
  apply hap q.addr.toNat
  · unfold MemoryMap.Covers
    omega
  · unfold MemoryMap.Covers
    omega

/-- Pieces of a record in its place. -/
theorem Ordered.splice (h : Ordered (before ++ r :: after)) (hp : Ordered pieces)
    (hin : ∀ q ∈ pieces, r.addr.toNat ≤ q.addr.toNat ∧
      q.addr.toNat + q.len.toNat ≤ r.addr.toNat + r.len.toNat) :
    Ordered (before ++ pieces ++ after) := by
  unfold Ordered at *
  rw [List.pairwise_append, List.pairwise_cons] at h
  obtain ⟨hb, ⟨hra, ha⟩, hba⟩ := h
  simp only [List.pairwise_append, List.mem_append]
  refine ⟨⟨hb, hp, ?_⟩, ha, ?_⟩
  · intro b hb q hq
    exact (hba b hb r List.mem_cons_self).trans (hin q hq).1
  · rintro b (hb | hb) q hq
    · exact hba b hb q (List.mem_cons_of_mem _ hq)
    · exact (hin b hb).2.trans (hra q hq)

theorem flatMap_eq_self {f : MemoryMap → List MemoryMap} (h : ∀ r ∈ l, f r = [r]) :
    l.flatMap f = l := by
  rw [List.flatMap_congr h, List.flatMap_singleton']

end lists

section records
variable {hideMemAddr hideMemSize : BitVec 32} {r : MemoryMap} {map : ℕ → MemoryMap}
  {l before after : List MemoryMap} {n : ℕ}

/-- A record that ends before the range or begins behind it. -/
theorem hideRecord_beside (h : hideMemAddr.toNat + hideMemSize.toNat < 2 ^ 32)
    (hw : r.addr.toNat + r.len.toNat < 2 ^ 64)
    (ho : r.addr.toNat + r.len.toNat ≤ hideMemAddr.toNat ∨
      hideMemAddr.toNat + hideMemSize.toNat ≤ r.addr.toNat) :
    hideRecord hideMemAddr hideMemSize r = some [r] := by
  apply if_pos
  rw [outside_iff h, toNat_stop, Nat.mod_eq_of_lt hw]
  exact ho

/-- The record that holds the range is split. -/
theorem hideRecord_held (h : hideMemAddr.toNat + hideMemSize.toNat < 2 ^ 32)
    (hpos : 0 < hideMemSize.toNat) (hw : r.addr.toNat + r.len.toNat < 2 ^ 64)
    (hr : HeldBy hideMemAddr hideMemSize r) :
    ∃ pieces, hideRecord hideMemAddr hideMemSize r = some pieces ∧
      SplitBy hideMemAddr hideMemSize r pieces := by
  obtain ⟨ht, haddr, hstop⟩ := hr
  have hr : r.stop.toNat = r.addr.toNat + r.len.toNat := by rw [toNat_stop, Nat.mod_eq_of_lt hw]
  have hend := toNat_hideStop h
  have hin : ¬ r.Outside hideMemAddr hideMemSize := by
    rw [outside_iff h]
    omega
  have hlt : ¬ r.stop < hideStop hideMemAddr hideMemSize := by
    rw [BitVec.lt_def]
    omega
  have hbefore : (hideMemAddr.setWidth 64 - r.addr).toNat = hideMemAddr.toNat - r.addr.toNat := by
    rw [BitVec.toNat_sub_of_le (by rw [BitVec.le_def, toNat_widen]; exact haddr), toNat_widen]
  have hbehind : (r.stop - hideStop hideMemAddr hideMemSize).toNat =
      r.addr.toNat + r.len.toNat - (hideMemAddr.toNat + hideMemSize.toNat) := by
    rw [BitVec.toNat_sub_of_le (by rw [BitVec.le_def]; omega), hend, hr]
  unfold hideRecord
  rw [if_neg hin, if_neg (not_not.mpr ht), if_neg hlt]
  by_cases hgt : hideStop hideMemAddr hideMemSize < r.stop
  · refine ⟨_, if_pos hgt, ?_, ?_, ?_, ?_⟩
    all_goals rw [BitVec.lt_def, hend, hr] at hgt
    · rw [if_neg (by omega)]
      rfl
    · simp only [List.forall_mem_cons, hbefore, hbehind, hend, toNat_widen]
      simp
      omega
    · simp [Ordered, hbefore, hend]
      omega
    · intro t x
      have hrest : r.Covers x ∧ ¬ InRange hideMemAddr hideMemSize x ↔
          (r.addr.toNat ≤ x ∧ x < r.addr.toNat + (hideMemAddr.toNat - r.addr.toNat)) ∨
            (hideMemAddr.toNat + hideMemSize.toNat ≤ x ∧
              x < hideMemAddr.toNat + hideMemSize.toNat + (r.addr.toNat + r.len.toNat -
                (hideMemAddr.toNat + hideMemSize.toNat))) := by
        unfold MemoryMap.Covers InRange
        omega
      rw [hrest]
      simp only [CoveredBy, List.mem_cons, List.not_mem_nil, or_false, exists_eq_or_imp,
        exists_eq_left, MemoryMap.Covers, hbefore, hbehind, hend, toNat_widen, ht, InRange]
      rw [and_or_left]
      exact or_left_comm
  · refine ⟨_, if_neg hgt, ?_, ?_, ?_, ?_⟩
    all_goals rw [BitVec.lt_def, hend, hr] at hgt
    · rw [if_pos (by omega)]
      rfl
    · simp only [List.forall_mem_cons, hbefore, toNat_widen]
      simp
      omega
    · simp [Ordered, hbefore]
      omega
    · intro t x
      have hrest : r.Covers x ∧ ¬ InRange hideMemAddr hideMemSize x ↔
          r.addr.toNat ≤ x ∧ x < r.addr.toNat + (hideMemAddr.toNat - r.addr.toNat) := by
        unfold MemoryMap.Covers InRange
        omega
      rw [hrest]
      simp only [CoveredBy, List.mem_cons, List.not_mem_nil, or_false, exists_eq_or_imp,
        exists_eq_left, MemoryMap.Covers, hbefore, toNat_widen, ht, InRange]
      exact or_comm

/-- The rewriting of records of which none is refused. -/
theorem hideRecords_flatMap {f : MemoryMap → List MemoryMap}
    (h : ∀ i < n, hideRecord hideMemAddr hideMemSize (map i) = some (f (map i))) :
    hideRecords hideMemAddr hideMemSize map n = some (((List.range n).map map).flatMap f) := by
  induction n with
  | zero => rfl
  | succ n ih =>
    rw [hideRecords, ih fun i hi => h i (by omega), h n (Nat.lt_succ_self n), List.range_succ]
    simp

/-- In a sorted map only the record that holds the range is rewritten. -/
theorem hideRecords_ordered (h : hideMemAddr.toNat + hideMemSize.toNat < 2 ^ 32)
    (hpos : 0 < hideMemSize.toNat) (hlist : (List.range n).map map = before ++ r :: after)
    (hord : Ordered (before ++ r :: after))
    (hw : ∀ q ∈ before ++ r :: after, q.addr.toNat + q.len.toNat < 2 ^ 64)
    (hr : HeldBy hideMemAddr hideMemSize r) :
    ∃ pieces, SplitBy hideMemAddr hideMemSize r pieces ∧
      (∀ i < n, hideRecord hideMemAddr hideMemSize (map i) ≠ none) ∧
      hideRecords hideMemAddr hideMemSize map n = some (before ++ pieces ++ after) := by
  obtain ⟨pieces, hp, hsplit⟩ := hideRecord_held h hpos (hw r (by simp)) hr
  let f : MemoryMap → List MemoryMap := fun q =>
    (hideRecord hideMemAddr hideMemSize q).getD []
  unfold Ordered at hord
  rw [List.pairwise_append, List.pairwise_cons] at hord
  obtain ⟨-, ⟨hafter, -⟩, hbefore⟩ := hord
  have hb : ∀ q ∈ before, hideRecord hideMemAddr hideMemSize q = some [q] := by
    intro q hq
    apply hideRecord_beside h (hw q (by simp [hq]))
    exact .inl ((hbefore q hq r List.mem_cons_self).trans hr.addr)
  have ha : ∀ q ∈ after, hideRecord hideMemAddr hideMemSize q = some [q] := by
    intro q hq
    apply hideRecord_beside h (hw q (by simp [hq]))
    exact .inr (hr.stop.trans (hafter q hq))
  have hall : ∀ i < n, hideRecord hideMemAddr hideMemSize (map i) = some (f (map i)) := by
    intro i hi
    have hmem : map i ∈ before ++ r :: after := by
      rw [← hlist]
      exact List.mem_map_of_mem (List.mem_range.mpr hi)
    unfold f
    rw [List.mem_append, List.mem_cons] at hmem
    rcases hmem with hq | hq | hq
    · rw [hb _ hq, Option.getD_some]
    · rw [hq, hp, Option.getD_some]
    · rw [ha _ hq, Option.getD_some]
  refine ⟨pieces, hsplit, fun i hi => by simp [hall i hi], ?_⟩
  have hfb : before.flatMap f = before := flatMap_eq_self fun q hq => by simp [f, hb q hq]
  have hfa : after.flatMap f = after := flatMap_eq_self fun q hq => by simp [f, ha q hq]
  have hfr : f r = pieces := by simp [f, hp]
  rw [hideRecords_flatMap hall, hlist, List.flatMap_append, List.flatMap_cons, hfb, hfa, hfr,
    List.append_assoc]

theorem hideSlotsBefore_mono {mem : Memory 32} {start : BitVec 32} {k : ℕ} (hk : k ≤ n) :
    hideSlotsBefore hideMemAddr hideMemSize mem start k ≤
      hideSlotsBefore hideMemAddr hideMemSize mem start n := by
  induction n, hk using Nat.le_induction with
  | base => exact le_rfl
  | succ n _ ih =>
    rw [hideSlotsBefore_succ]
    omega

end records

/-- A sorted map of `n` records of any sizes, and a range within one of them. -/
structure HideOrdered (s : Machine) (mbi hideMemAddr hideMemSize : BitVec 32) (n : ℕ) : Prop where
  flags : MultibootInfo.flags s.mem mbi &&& MBI_MEMMAP ≠ 0
  tiled : TiledBy s.mem (MultibootInfo.mmapAddr s.mem mbi)
    (MultibootInfo.mmapLength s.mem mbi).toNat n
  fits : (MultibootInfo.mmapAddr s.mem mbi).toNat + (MultibootInfo.mmapLength s.mem mbi).toNat < 2 ^ 32
  nonempty : ∀ r ∈ recordsFrom s.mem (MultibootInfo.mmapAddr s.mem mbi) n, 0 < r.len.toNat
  below : ∀ r ∈ recordsFrom s.mem (MultibootInfo.mmapAddr s.mem mbi) n,
    r.addr.toNat + r.len.toNat < 2 ^ 64
  sorted : (recordsFrom s.mem (MultibootInfo.mmapAddr s.mem mbi) n).Pairwise fun r q =>
    r.addr.toNat ≤ q.addr.toNat
  disjoint : Separate (recordsFrom s.mem (MultibootInfo.mmapAddr s.mem mbi) n)
  pos : 0 < hideMemSize.toNat
  sum : hideMemAddr.toNat + hideMemSize.toNat < 2 ^ 32
  held : ∃ r ∈ recordsFrom s.mem (MultibootInfo.mmapAddr s.mem mbi) n,
    HeldBy hideMemAddr hideMemSize r
  nonnull : s.heapCurrent ≠ NULL
  enough : s.heapCurrent.toNat +
    blockSize ((MultibootInfo.mmapLength s.mem mbi).toNat / memoryMapSize) ≤ s.heapTops.toNat
  mapOutside : Apart s.heapCurrent (blockSize ((MultibootInfo.mmapLength s.mem mbi).toNat / memoryMapSize))
    (MultibootInfo.mmapAddr s.mem mbi) (MultibootInfo.mmapLength s.mem mbi).toNat
  infoOutside : Apart s.heapCurrent (blockSize ((MultibootInfo.mmapLength s.mem mbi).toNat / memoryMapSize))
    mbi MultibootInfo.span

/-- The new map: the record `r` is replaced by its pieces, one or two more than before. -/
structure HiddenInOrder (s : Machine) (mbi hideMemAddr hideMemSize : BitVec 32) (n : ℕ)
    (s' : Machine) : Prop where
  split : ∃ before r after pieces,
    recordsFrom s.mem (MultibootInfo.mmapAddr s.mem mbi) n = before ++ r :: after ∧
    HeldBy hideMemAddr hideMemSize r ∧ SplitBy hideMemAddr hideMemSize r pieces ∧
    recordsOf s'.mem mbi = before ++ pieces ++ after ∧
    (MultibootInfo.mmapLength s'.mem mbi).toNat = memoryMapSize *
      if hideMemAddr.toNat + hideMemSize.toNat = r.addr.toNat + r.len.toNat then n + 1 else n + 2
  ordered : Ordered (recordsOf s'.mem mbi)
  disjoint : Separate (recordsOf s'.mem mbi)

section input
variable {s : Machine} {mbi hideMemAddr hideMemSize : BitVec 32} {n : ℕ}

/-- The block is served as asked for. -/
theorem HideOrdered.served (h : HideOrdered s mbi hideMemAddr hideMemSize n) :
    (hideRequest s.mem mbi).toNat =
        blockSize ((MultibootInfo.mmapLength s.mem mbi).toNat / memoryMapSize) ∧
      (allocateMemory s (hideRequest s.mem mbi)).2 = s.heapCurrent := by
  have henough := h.enough
  have htops := s.heapTops.isLt
  have hrequest : (hideRequest s.mem mbi).toNat =
      blockSize ((MultibootInfo.mmapLength s.mem mbi).toNat / memoryMapSize) := by
    unfold hideRequest blockSize memoryMapSize at *
    rw [BitVec.toNat_mul, BitVec.toNat_add, BitVec.toNat_udiv]
    change 24 * (((MultibootInfo.mmapLength s.mem mbi).toNat / 24 + 2) % 2 ^ 32) % 2 ^ 32 = _
    rw [Nat.mod_eq_of_lt (by omega), Nat.mod_eq_of_lt (by omega), Nat.mul_comm]
  refine ⟨hrequest, ?_⟩
  unfold allocateMemory
  rw [reserve_served]
  rw [BitVec.lt_def, BitVec.toNat_add, hrequest, Nat.mod_eq_of_lt (by omega)]
  omega

/-- A walk to the end of the map stores the rewriting of the records. -/
theorem hideLoop_holds {newmmap size : BitVec 32} {mem : Memory 32} {l : List MemoryMap} {fuel : ℕ}
    (hinfo : Apart newmmap size.toNat mbi MultibootInfo.span)
    (hap : ∀ j < n, Apart newmmap size.toNat
      (recordAt mem (MultibootInfo.mmapAddr mem mbi) j) memoryMapSize)
    (hreach : HideReaches hideMemAddr hideMemSize mem (MultibootInfo.mmapAddr mem mbi)
      (mapEnd mem mbi) size.toNat n)
    (hend : ¬ recordAt mem (MultibootInfo.mmapAddr mem mbi) n < mapEnd mem mbi)
    (hl : hideRecords hideMemAddr hideMemSize
      (fun k => readMap mem (recordAt mem (MultibootInfo.mmapAddr mem mbi) k)) n = some l)
    (hfuel : n ≤ fuel) :
    ∃ h, hideLoop hideMemAddr hideMemSize mbi newmmap mem fuel = .next h ∧
      h.entryIdx = BitVec.ofNat 32 l.length ∧ Holds h.mem newmmap l := by
  generalize hstart : MultibootInfo.mmapAddr mem mbi = start at *
  generalize hstop : mapEnd mem mbi = stop at *
  let I : ℕ → Hiding → Prop := fun j h => j ≤ n ∧
    HideProgress hideMemAddr hideMemSize newmmap size start mem j h ∧
    ∃ l, hideRecords hideMemAddr hideMemSize (fun k => readMap mem (recordAt mem start k)) j =
      some l ∧ Holds h.mem newmmap l
  have hcond : ∀ j h, I j h → (h.mmap < MultibootInfo.mmapAddr h.mem mbi +
      MultibootInfo.mmapLength h.mem mbi ↔ j < n) := by
    rintro j h ⟨hj, hp, _⟩
    have hold := (mapEnd_of_frame hinfo hp.frame).2
    unfold mapEnd at hold hstop
    rw [hold, hstop, hp.mmap]
    constructor
    · intro hlt
      rcases Nat.lt_or_eq_of_le hj with hjn | rfl
      · exact hjn
      · exact absurd hlt hend
    · exact fun hjn => (hreach j hjn).1
  have hbody : ∀ j h, j < n → I j h →
      ∃ h', hideStep hideMemAddr hideMemSize newmmap j h = .next h' ∧ I (j + 1) h' := by
    rintro j h hj ⟨_, hp, l, hl, hh⟩
    obtain ⟨_, hne, hroom⟩ := hreach j hj
    obtain ⟨h', _, hstep⟩ := hp.step (hap j hj) hroom j
    cases hr : hideRecord hideMemAddr hideMemSize (readMap mem (recordAt mem start j)) with
    | none => exact absurd hr hne
    | some pieces =>
      rw [hr] at hstep
      obtain ⟨he, hp', hholds⟩ := hstep
      exact ⟨h', he, hj, hp', l ++ pieces, hideRecords_succ.mpr ⟨l, pieces, hl, hr, rfl⟩,
        hholds l (length_eq_hideSlotsBefore hl) hh⟩
  have h0 : I 0 ⟨mem, 0, start⟩ := by
    refine ⟨Nat.zero_le n, .init _ _ _ _ _ _, [], rfl, ?_⟩
    intro k r hk
    cases hk
  unfold hideLoop
  rw [hstart]
  obtain ⟨h, hrun, _, hp, l', hl', hh⟩ := run_count I hcond hbody (Nat.zero_le n)
    (show n ≤ 0 + fuel by omega) h0
  rw [hl] at hl'
  cases hl'
  exact ⟨h, hrun, by rw [hp.idx, length_eq_hideSlotsBefore hl], hh⟩

/-- A range within a record of a sorted map is hidden, and the new map is sorted again. -/
theorem hideRuntimeMemory_ordered (h : HideOrdered s mbi hideMemAddr hideMemSize n) {fuel : ℕ}
    (hfuel : n ≤ fuel) :
    ∃ s', hideRuntimeMemory s mbi hideMemAddr hideMemSize fuel = some (s', true) ∧
      HiddenInOrder s mbi hideMemAddr hideMemSize n s' ∧
      HidesInBlock hideMemAddr hideMemSize mbi (allocateMemory s (hideRequest s.mem mbi)).2
        (hideRequest s.mem mbi) (allocateMemory s (hideRequest s.mem mbi)).1.mem fuel := by
  obtain ⟨hrequest, hblock⟩ := h.served
  have hinfo := h.infoOutside
  have hmap := h.mapOutside
  have hmul := h.tiled.mul_le
  have hfits := h.fits
  have henough := h.enough
  have htops := s.heapTops.isLt
  have hserved : (allocateMemory s (hideRequest s.mem mbi)).2 ≠ NULL := by
    rw [hblock]
    exact h.nonnull
  have hframe : ∀ x, ¬ InSpan s.heapCurrent (hideRequest s.mem mbi).toNat x →
      (allocateMemory s (hideRequest s.mem mbi)).1.mem x = s.mem x :=
    fun x hx => allocateMemory_frame (by rwa [hblock])
  have hblocks : n + 2 ≤ (MultibootInfo.mmapLength s.mem mbi).toNat / memoryMapSize + 2 := by
    rw [Nat.add_le_add_iff_right, Nat.le_div_iff_mul_le (by decide)]
    exact hmul
  rw [hideRuntimeMemory_eq h.flags hserved, hblock]
  rw [← hrequest] at hinfo hmap
  generalize (allocateMemory s (hideRequest s.mem mbi)).1 = s₁ at hframe ⊢
  obtain ⟨haddr, hstop⟩ := mapEnd_of_frame hinfo hframe
  -- the old map, as the loop finds it
  have hfit := Nat.le_of_lt (MultibootInfo.mmapLength s.mem mbi).isLt
  have hold : ∀ x, InSpan (MultibootInfo.mmapAddr s.mem mbi)
      (MultibootInfo.mmapLength s.mem mbi).toNat x → s₁.mem x = s.mem x :=
    fun x hx => hframe x fun hin => hmap x hin hx
  have ht := h.tiled.of_same hfit hold
  have hrecords := h.tiled.recordsFrom_eq hfit hold
  have hwalk : ∀ k ≤ n, (recordAt s₁.mem (MultibootInfo.mmapAddr s₁.mem mbi) k <
      mapEnd s₁.mem mbi ↔ k < n) := by
    intro k hk
    rw [haddr, hstop]
    have hlt := ht.lt_stop_iff hfits hk
    rwa [BitVec.ofNat_toNat, BitVec.setWidth_eq] at hlt
  -- what becomes of the records
  obtain ⟨r, hmem, hheld⟩ := h.held
  obtain ⟨before, after, hlist⟩ := List.append_of_mem hmem
  have hord := ordered_of_sorted h.sorted h.disjoint h.nonempty
  have hbelow := h.below
  have hcount := length_recordsFrom s.mem (MultibootInfo.mmapAddr s.mem mbi) n
  rw [hlist] at hord hbelow hcount
  rw [List.length_append, List.length_cons] at hcount
  have hlist' : (List.range n).map (fun k => readMap s₁.mem
      (recordAt s₁.mem (MultibootInfo.mmapAddr s₁.mem mbi) k)) = before ++ r :: after := by
    rw [← hlist, ← hrecords, haddr]
    rfl
  obtain ⟨pieces, hsplit, hne, hl⟩ := hideRecords_ordered h.sum h.pos hlist' hord hbelow hheld
  have hlength := length_eq_hideSlotsBefore hl
  have hpieces := hsplit.count
  have hlong : (before ++ pieces ++ after).length =
      if hideMemAddr.toNat + hideMemSize.toNat = r.addr.toNat + r.len.toNat then n + 1 else n + 2 := by
    rw [List.length_append, List.length_append]
    split_ifs at hpieces ⊢ <;> omega
  have hshort : (before ++ pieces ++ after).length ≤ n + 2 := by
    rw [hlong]
    split_ifs <;> omega
  have hreach : HideReaches hideMemAddr hideMemSize s₁.mem (MultibootInfo.mmapAddr s₁.mem mbi)
      (mapEnd s₁.mem mbi) (hideRequest s.mem mbi).toNat n := by
    intro i hi
    refine ⟨(hwalk i (Nat.le_of_lt hi)).mpr hi, hne i hi, ?_⟩
    rw [hrequest]
    apply Nat.mul_le_mul_right
    rw [hlength] at hshort
    exact ((hideSlotsBefore_mono hi).trans hshort).trans hblocks
  have hend : ¬ recordAt s₁.mem (MultibootInfo.mmapAddr s₁.mem mbi) n < mapEnd s₁.mem mbi :=
    fun hlt => absurd ((hwalk n le_rfl).mp hlt) (lt_irrefl n)
  have hapart : ∀ j < n, Apart s.heapCurrent (hideRequest s.mem mbi).toNat
      (recordAt s₁.mem (MultibootInfo.mmapAddr s₁.mem mbi) j) memoryMapSize := by
    intro j hj
    rw [haddr]
    exact fun x hx hr => hmap x hx (ht.inSpan hj hfit hr)
  obtain ⟨q, hrun, hidx, hholds⟩ := hideLoop_holds hinfo hapart hreach hend hl hfuel
  obtain ⟨hadm, -⟩ := hidesInBlock_of_hideReaches hinfo
    (fun j hj hlt => by
      rcases Nat.lt_trichotomy j n with hjn | rfl | hgt
      · exact hapart j hjn
      · exact absurd hlt hend
      · exact absurd (hj n hgt).1 hend)
    hreach fun hlt => absurd hlt hend
  rw [hrun]
  refine ⟨_, rfl, ?_, hadm fuel⟩
  rw [hrequest] at hinfo
  have hfit : (before ++ pieces ++ after).length * memoryMapSize ≤
      blockSize ((MultibootInfo.mmapLength s.mem mbi).toNat / memoryMapSize) :=
    Nat.mul_le_mul_right _ (hshort.trans hblocks)
  obtain ⟨hnew, hdvd⟩ := recordsOf_stored hholds hfit (by omega) hinfo
  rw [← hidx] at hnew hdvd
  have hsorted : Ordered (before ++ pieces ++ after) := hord.splice hsplit.ordered hsplit.inside
  constructor
  · refine ⟨before, r, after, pieces, hlist, hheld, hsplit, hnew, ?_⟩
    rw [← hlong, ← hnew, length_recordsOf]
    exact (Nat.mul_div_cancel' hdvd).symm
  · dsimp only
    rw [hnew]
    exact hsorted
  · dsimp only
    rw [hnew]
    exact hsorted.disjoint

end input

theorem hideOrdered_varied : HideOrdered variedMachine 0x100 0x2000 0x2000 2 := by
  obtain ⟨haddr, hlength⟩ := varied_info
  constructor
  · decide +kernel
  · rw [haddr, hlength]
    exact tiledBy_varied
  · rw [haddr, hlength]
    decide
  · rw [haddr, recordsFrom_varied]
    decide
  · rw [haddr, recordsFrom_varied]
    decide
  · rw [haddr, recordsFrom_varied]
    decide
  · rw [haddr, recordsFrom_varied]
    apply Ordered.disjoint
    simp [Ordered]
  · decide
  · decide
  · rw [haddr, recordsFrom_varied]
    exact ⟨_, List.mem_cons_self, rfl, by decide, by decide⟩
  · decide
  · rw [hlength]
    decide
  · rw [haddr, hlength]
    exact (apart_of_le (by decide) (by decide)).symm
  · rw [hlength]
    exact (apart_of_le (by decide) (by decide)).symm

/-- The range ends with the first of two records of different sizes. -/
theorem hideRuntimeMemory_ordered_varied :
    ∃ s', hideRuntimeMemory variedMachine 0x100 0x2000 0x2000 2 = some (s', true) ∧
      HiddenInOrder variedMachine 0x100 0x2000 0x2000 2 s' := by
  obtain ⟨s', hrun, hhidden, _⟩ := hideRuntimeMemory_ordered hideOrdered_varied (le_refl 2)
  exact ⟨s', hrun, hhidden⟩

end IkgtLoader
