import IkgtLoader.PreOs.E820
import IkgtLoader.PreOs.MapWalk

/-! `hide_runtime_memory` on memory does what the rewriting of the records says, and it hides the
range exactly if no record spoils it. -/
namespace IkgtLoader
open Flat Loop

/-- The records of a list at the beginning of a table. -/
def Holds (mem : Memory 32) (table : BitVec 32) (l : List MemoryMap) : Prop :=
  ∀ k r, l[k]? = some r → readMap mem (mapEntry table k) = r

section entries
variable {m m' : Memory 32} {table mmap entry : BitVec 32} {l : List MemoryMap} {r : MemoryMap}

theorem mapEntry_apart {i j : ℕ} (h : i ≠ j) (hi : (i + 1) * memoryMapSize ≤ 2 ^ 32)
    (hj : (j + 1) * memoryMapSize ≤ 2 ^ 32) :
    Apart (mapEntry table i) memoryMapSize (mapEntry table j) memoryMapSize := by
  rw [Nat.succ_mul] at hi hj
  unfold mapEntry
  apply apart_offset
  · rcases Nat.lt_or_gt_of_ne h with hlt | hgt
    · left
      rw [← Nat.succ_mul]
      exact Nat.mul_le_mul_right _ hlt
    · right
      rw [← Nat.succ_mul]
      exact Nat.mul_le_mul_right _ hgt
  · exact hi
  · exact hj

/-- One more record behind those of the list. -/
theorem Holds.push (h : Holds m table l) {k : ℕ} (hk : l.length = k)
    (hfit : (k + 1) * memoryMapSize ≤ 2 ^ 32)
    (hframe : ∀ x, ¬ InSpan (mapEntry table k) memoryMapSize x → m' x = m x)
    (hr : readMap m' (mapEntry table k) = r) : Holds m' table (l ++ [r]) := by
  subst hk
  intro k q hk
  rcases Nat.lt_or_ge k l.length with hlt | hge
  · rw [List.getElem?_append_left hlt] at hk
    rw [← h k q hk]
    have hle : (k + 1) * memoryMapSize ≤ (l.length + 1) * memoryMapSize :=
      Nat.mul_le_mul_right _ (by omega)
    apply readMap_congr
    apply Memory.Same.of_unchanged _ (by decide)
    intro x hx
    exact hframe x (mapEntry_apart (by omega) (by omega) hfit x hx)
  · rw [List.getElem?_append_right hge, List.getElem?_singleton] at hk
    split at hk
    next h0 =>
      have he : k = l.length := by omega
      rw [he, hr]
      exact Option.some.inj hk
    next => cases hk

theorem putEntry_frame (m : Memory 32) (entry mmap : BitVec 32) (addr len : MemoryMap → BitVec 64)
    (type : MemoryMap → BitVec 32) {x : BitVec 32} (hx : ¬ InSpan entry memoryMapSize x) :
    putEntry m entry mmap addr len type x = m x := by
  have hs : memoryMapSize ≤ 2 ^ 32 := by decide
  unfold putEntry
  rw [Memory.setField_of_outside _ _ hx (by decide) hs,
    Memory.setField_of_outside _ _ hx (by decide) hs,
    Memory.setField_of_outside _ _ hx (by decide) hs,
    Memory.setField_of_outside _ _ hx (by decide) hs]

/-- The stores to a record apart from the old one read the same record every time. -/
theorem readMap_putEntry (hap : Apart entry memoryMapSize mmap memoryMapSize)
    (hr : readMap m mmap = r) (addr len : MemoryMap → BitVec 64) (type : MemoryMap → BitVec 32) :
    readMap (putEntry m entry mmap addr len type) entry = ⟨r.size, addr r, len r, type r⟩ := by
  have hs : memoryMapSize ≤ 2 ^ 32 := by decide
  have h0 : Memory.Same m mmap m mmap memoryMapSize := fun _ _ => rfl
  have h1 := h0.setField hap (o := 0) (by decide) hs hs r.size
  have h2 := h1.setField hap (o := 4) (by decide) hs hs (addr r)
  have h3 := h2.setField hap (o := 12) (by decide) hs hs (len r)
  unfold putEntry
  dsimp only
  rw [hr, readMap_congr h1, hr, readMap_congr h2, hr, readMap_congr h3, hr]
  unfold readMap
  rw [MemoryMap.mk.injEq]
  refine ⟨?_, ?_, ?_, ?_⟩
  · rw [Memory.field_setField_of_ne _ _ (by decide) (by decide) (by decide),
      Memory.field_setField_of_ne _ _ (by decide) (by decide) (by decide),
      Memory.field_setField_of_ne _ _ (by decide) (by decide) (by decide)]
    exact Memory.field_setField _ _ _ _ (by decide) (by decide)
  · rw [Memory.field_setField_of_ne _ _ (by decide) (by decide) (by decide),
      Memory.field_setField_of_ne _ _ (by decide) (by decide) (by decide)]
    exact Memory.field_setField _ _ _ _ (by decide) (by decide)
  · rw [Memory.field_setField_of_ne _ _ (by decide) (by decide) (by decide)]
    exact Memory.field_setField _ _ _ _ (by decide) (by decide)
  · exact Memory.field_setField _ _ _ _ (by decide) (by decide)

theorem readMap_copy (hap : Apart entry memoryMapSize mmap memoryMapSize) :
    readMap (m.copy entry mmap memoryMapSize) entry = readMap m mmap := by
  apply readMap_congr
  intro k hk
  apply Memory.copy_apply _ (by decide) _ hk
  exact .inr (hap entry (inSpan_self.mpr (by decide)))

end entries

/-- Records stored behind the first `L` of a table, and the old record they come from as it was. -/
structure Stores (newmmap mmap : BitVec 32) (r : MemoryMap) (mem : Memory 32) (L : ℕ)
    (pieces : List MemoryMap) (m : Memory 32) : Prop where
  frame : ∀ x, (∀ k < pieces.length, ¬ InSpan (mapEntry newmmap (L + k)) memoryMapSize x) →
    m x = mem x
  old : readMap m mmap = r
  holds : ∀ l, l.length = L → (L + pieces.length) * memoryMapSize ≤ 2 ^ 32 →
    Holds mem newmmap l → Holds m newmmap (l ++ pieces)

section stores
variable {newmmap mmap : BitVec 32} {r q : MemoryMap} {mem m m' : Memory 32} {L : ℕ}
  {pieces : List MemoryMap}

theorem Stores.none (L : ℕ) (hr : readMap mem mmap = r) : Stores newmmap mmap r mem L [] mem := by
  refine ⟨fun _ _ => rfl, hr, ?_⟩
  intro l _ _ hh
  rwa [List.append_nil]

theorem Stores.snoc (h : Stores newmmap mmap r mem L pieces m)
    (hap : Apart (mapEntry newmmap (L + pieces.length)) memoryMapSize mmap memoryMapSize)
    (hf : ∀ x, ¬ InSpan (mapEntry newmmap (L + pieces.length)) memoryMapSize x → m' x = m x)
    (hq : readMap m' (mapEntry newmmap (L + pieces.length)) = q) :
    Stores newmmap mmap r mem L (pieces ++ [q]) m' := by
  constructor
  · intro x hx
    rw [List.length_append, List.length_singleton] at hx
    rw [hf x (hx _ (Nat.lt_succ_self _))]
    exact h.frame x fun k hk => hx k (Nat.lt_succ_of_lt hk)
  · rw [← h.old]
    apply readMap_congr
    apply Memory.Same.of_unchanged _ (by decide)
    exact fun x hx => hf x (hap.symm x hx)
  · intro l hl hle hh
    rw [List.length_append, List.length_singleton] at hle
    rw [← List.append_assoc]
    have hlong : (l ++ pieces).length = L + pieces.length := by rw [List.length_append, hl]
    exact (h.holds l hl ((Nat.mul_le_mul_right _ (by omega)).trans hle) hh).push hlong hle hf hq

theorem Stores.copy (h : Stores newmmap mmap r mem L pieces m)
    (hap : Apart (mapEntry newmmap (L + pieces.length)) memoryMapSize mmap memoryMapSize) :
    Stores newmmap mmap r mem L (pieces ++ [r])
      (m.copy (mapEntry newmmap (L + pieces.length)) mmap memoryMapSize) :=
  h.snoc hap (fun _ hx => Memory.copy_of_not_inSpan _ _ hx) ((readMap_copy hap).trans h.old)

theorem Stores.put (h : Stores newmmap mmap r mem L pieces m)
    (hap : Apart (mapEntry newmmap (L + pieces.length)) memoryMapSize mmap memoryMapSize)
    (addr len : MemoryMap → BitVec 64) (type : MemoryMap → BitVec 32) :
    Stores newmmap mmap r mem L (pieces ++ [⟨r.size, addr r, len r, type r⟩])
      (putEntry m (mapEntry newmmap (L + pieces.length)) mmap addr len type) :=
  h.snoc hap (fun _ hx => putEntry_frame _ _ _ _ _ _ hx) (readMap_putEntry hap h.old _ _ _)

/-- The index and the old record after the stores. -/
theorem Stores.advance (h : Stores newmmap mmap r mem L pieces m) (hr : readMap mem mmap = r)
    {k : ℕ} (hk : pieces.length = k + 1) :
    Hiding.advance m (BitVec.ofNat 32 (L + k)) mmap =
      ⟨m, BitVec.ofNat 32 (L + pieces.length), nextRecord mem mmap⟩ := by
  have hidx : BitVec.ofNat 32 (L + pieces.length) = BitVec.ofNat 32 (L + k) + 1 := by
    rw [hk, ← Nat.add_assoc, BitVec.ofNat_add]
    rfl
  unfold Hiding.advance nextRecord
  rw [h.old, hr, hidx]

end stores

/-- The new records that a round stores for an old one, also if it then gives up. -/
def hideSlots (hideMemAddr hideMemSize : BitVec 32) (r : MemoryMap) : ℕ :=
  if r.Outside hideMemAddr hideMemSize then 1
  else if r.type ≠ MULTIBOOT_MEMORY_AVAILABLE then 0
  else if hideStop hideMemAddr hideMemSize < r.stop then 3
  else 2

section round
variable {hideMemAddr hideMemSize newmmap : BitVec 32} {s : Hiding} {L : ℕ} {r : MemoryMap}

theorem length_hideRecord {pieces : List MemoryMap}
    (h : hideRecord hideMemAddr hideMemSize r = some pieces) :
    pieces.length = hideSlots hideMemAddr hideMemSize r := by
  unfold hideRecord at h
  unfold hideSlots
  dsimp only at h
  split_ifs at h ⊢ <;> cases h <;> rfl

/-- A refused record has no piece behind the range. -/
theorem hideSlots_le_of_refused (h : hideRecord hideMemAddr hideMemSize r = none) :
    hideSlots hideMemAddr hideMemSize r ≤ 2 := by
  unfold hideRecord at h
  unfold hideSlots
  dsimp only at h
  split_ifs at h ⊢ with ho ht hgt hlt <;> simp at h ⊢
  exact BitVec.lt_asymm hlt hgt

/-- One round, apart from the old record: it stores only the records of its slots, and these are
the pieces of the old one. -/
theorem hideStep_round (hidx : s.entryIdx = BitVec.ofNat 32 L) (hL : L + 3 < 2 ^ 32)
    (hr : readMap s.mem s.mmap = r)
    (hap : ∀ k < hideSlots hideMemAddr hideMemSize r,
      Apart (mapEntry newmmap (L + k)) memoryMapSize s.mmap memoryMapSize) (j : ℕ) :
    ∃ m stored, stored.length = hideSlots hideMemAddr hideMemSize r ∧
      Stores newmmap s.mmap r s.mem L stored m ∧
      match hideRecord hideMemAddr hideMemSize r with
      | none => ∃ idx, hideStep hideMemAddr hideMemSize newmmap j s = .quit ⟨m, idx, s.mmap⟩
      | some pieces => stored = pieces ∧ hideStep hideMemAddr hideMemSize newmmap j s =
          .next ⟨m, BitVec.ofNat 32 (L + pieces.length), nextRecord s.mem s.mmap⟩ := by
  obtain ⟨mem, idx, mmap⟩ := s
  dsimp only at hidx hr hap ⊢
  subst hidx
  have hnone : Stores newmmap mmap r mem L [] mem := .none L hr
  have hnat : ∀ k, k ≤ 2 → (BitVec.ofNat 32 (L + k)).toNat = L + k :=
    fun k hk => toNat_ofNat_of_lt (by omega)
  have hnext : ∀ k : ℕ, BitVec.ofNat 32 L + BitVec.ofNat 32 k = BitVec.ofNat 32 (L + k) :=
    fun k => (BitVec.ofNat_add _ _).symm
  unfold hideStep
  dsimp only
  rw [hr, show (1 : BitVec 32) = BitVec.ofNat 32 1 from rfl,
    show (2 : BitVec 32) = BitVec.ofNat 32 2 from rfl, hnext, hnext,
    toNat_ofNat_of_lt (show L < 2 ^ 32 by omega), hnat 1 (by decide), hnat 2 (by decide)]
  by_cases ho : r.Outside hideMemAddr hideMemSize
  · have hslots : hideSlots hideMemAddr hideMemSize r = 1 := by simp [hideSlots, ho]
    have hpieces : hideRecord hideMemAddr hideMemSize r = some [r] := by simp [hideRecord, ho]
    rw [if_pos ho]
    have h1 := hnone.copy (hap 0 (by omega))
    rw [hslots, hpieces]
    exact ⟨_, _, rfl, h1, rfl, congrArg Outcome.next (h1.advance hr (k := 0) rfl)⟩
  rw [if_neg ho]
  by_cases ht : r.type ≠ MULTIBOOT_MEMORY_AVAILABLE
  · have hslots : hideSlots hideMemAddr hideMemSize r = 0 := by simp [hideSlots, ho, ht]
    have hpieces : hideRecord hideMemAddr hideMemSize r = none := by simp [hideRecord, ho, ht]
    rw [if_pos ht, hslots, hpieces]
    exact ⟨_, _, rfl, hnone, _, rfl⟩
  rw [if_neg ht]
  have htwo : 2 ≤ hideSlots hideMemAddr hideMemSize r := by
    simp only [hideSlots, ho, ht, if_false]
    split <;> simp
  -- two records are stored before the end of the old one is looked at
  have h2 := (hnone.put (hap 0 (by omega)) MemoryMap.addr (fun r => hideMemAddr.setWidth 64 - r.addr)
    MemoryMap.type).put (hap 1 (by omega)) (fun _ => hideMemAddr.setWidth 64)
    (fun _ => hideMemSize.setWidth 64) (fun _ => MULTIBOOT_MEMORY_RESERVED)
  simp only [List.nil_append, List.cons_append, List.length_nil, List.length_singleton,
    Nat.add_zero] at h2
  generalize putEntry (putEntry mem _ mmap _ _ _) _ mmap _ _ _ = m2 at h2 ⊢
  rw [h2.old]
  by_cases hlt : r.stop < hideStop hideMemAddr hideMemSize
  · have hslots : hideSlots hideMemAddr hideMemSize r = 2 := by
      simp [hideSlots, ho, ht, BitVec.lt_asymm hlt]
    have hpieces : hideRecord hideMemAddr hideMemSize r = none := by
      simp [hideRecord, ho, ht, hlt]
    rw [if_pos hlt, hslots, hpieces]
    exact ⟨_, _, rfl, h2, _, rfl⟩
  rw [if_neg hlt]
  by_cases hgt : hideStop hideMemAddr hideMemSize < r.stop
  · have hslots : hideSlots hideMemAddr hideMemSize r = 3 := by simp [hideSlots, ho, ht, hgt]
    have hpieces := show hideRecord hideMemAddr hideMemSize r = some _ by
      unfold hideRecord
      rw [if_neg ho, if_neg ht, if_neg hlt, if_pos hgt]
    rw [if_pos hgt]
    have h3 := h2.put (hap 2 (by omega)) (fun _ => hideStop hideMemAddr hideMemSize)
      (fun r => r.stop - hideStop hideMemAddr hideMemSize) MemoryMap.type
    rw [hslots, hpieces]
    exact ⟨_, _, rfl, h3, rfl, congrArg Outcome.next (h3.advance hr rfl)⟩
  · have hslots : hideSlots hideMemAddr hideMemSize r = 2 := by simp [hideSlots, ho, ht, hgt]
    have hpieces := show hideRecord hideMemAddr hideMemSize r = some _ by
      unfold hideRecord
      rw [if_neg ho, if_neg ht, if_neg hlt, if_neg hgt]
    rw [if_neg hgt, hslots, hpieces]
    exact ⟨_, _, rfl, h2, rfl, congrArg Outcome.next (h2.advance hr rfl)⟩

end round

/-- The block for `n` records and the two more. -/
def blockSize (n : ℕ) : ℕ := (n + 2) * memoryMapSize

/-- The state before the record `i`: those before it are rewritten, and nothing but the block
has changed. -/
structure HideAt (hideMemAddr hideMemSize newmmap table : BitVec 32) (mem : Memory 32) (n i : ℕ)
    (s : Hiding) : Prop where
  records : ∃ l, hideRecords hideMemAddr hideMemSize (fun k => readMap mem (mapEntry table k)) i =
    some l ∧ s.entryIdx = BitVec.ofNat 32 l.length ∧ Holds s.mem newmmap l
  frame : ∀ x, ¬ InSpan newmmap (blockSize n) x → s.mem x = mem x
  mmap : s.mmap = mapEntry table i

section loop
variable {hideMemAddr hideMemSize newmmap table : BitVec 32} {mem m : Memory 32} {n i : ℕ}
  {s : Hiding}

theorem mapEntry_succ (table : BitVec 32) (i : ℕ) :
    mapEntry table i + 20 + 4 = mapEntry table (i + 1) := by
  unfold mapEntry
  rw [Nat.succ_mul, BitVec.ofNat_add, BitVec.add_assoc, BitVec.add_assoc]
  rfl

/-- The entries stay apart from a record of the old map as long as they are not further behind
the block than the record is from the beginning of the map. -/
theorem entry_apart (hap : Apart newmmap (blockSize n) table (n * memoryMapSize))
    (hb : blockSize n ≤ 2 ^ 32) {k : ℕ} (hk : k < n + 2 + i) (hi : i < n) :
    Apart (mapEntry newmmap k) memoryMapSize (mapEntry table i) memoryMapSize := by
  have hpos : 0 < n * memoryMapSize := Nat.mul_pos (by omega) (by decide)
  have hblock : 0 < blockSize n := Nat.mul_pos (by omega) (by decide)
  have h1 : (k + 1) * memoryMapSize ≤ (n + 2 + i) * memoryMapSize := Nat.mul_le_mul_right _ hk
  have h2 : (i + 1) * memoryMapSize ≤ n * memoryMapSize := Nat.mul_le_mul_right _ hi
  rw [Nat.succ_mul] at h1 h2
  rw [Nat.add_mul] at h1
  change _ ≤ blockSize n + _ at h1
  -- the distance of the map from the block
  have hd : blockSize n ≤ (table - newmmap).toNat := by
    by_contra hlt
    exact hap table (Nat.lt_of_not_le hlt) (inSpan_self.mpr hpos)
  have hend : (table - newmmap).toNat + n * memoryMapSize ≤ 2 ^ 32 := by
    by_contra hgt
    have hx : InSpan table (n * memoryMapSize) newmmap := by
      unfold InSpan
      rw [BitVec.toNat_sub] at hgt hd ⊢
      have h3 := table.isLt
      have h4 := newmmap.isLt
      omega
    exact hap newmmap (inSpan_self.mpr hblock) hx
  have htable : mapEntry table i =
      newmmap + BitVec.ofNat 32 ((table - newmmap).toNat + i * memoryMapSize) := by
    unfold mapEntry
    rw [BitVec.ofNat_add, ← BitVec.add_assoc, BitVec.ofNat_toNat, BitVec.setWidth_eq,
      BitVec.add_comm newmmap, BitVec.sub_add_cancel]
  rw [htable]
  unfold mapEntry
  apply apart_offset
  · left
    omega
  · omega
  · omega

/-- The old map is still there. -/
theorem readMap_of_frame (hap : Apart newmmap (blockSize n) table (n * memoryMapSize))
    (hb : blockSize n ≤ 2 ^ 32) (hi : i < n)
    (hf : ∀ x, ¬ InSpan newmmap (blockSize n) x → m x = mem x) :
    readMap m (mapEntry table i) = readMap mem (mapEntry table i) := by
  have h2 : (i + 1) * memoryMapSize ≤ n * memoryMapSize := Nat.mul_le_mul_right _ hi
  have h3 : n * memoryMapSize ≤ blockSize n := Nat.mul_le_mul_right _ (by omega)
  rw [Nat.succ_mul] at h2
  apply readMap_congr
  apply Memory.Same.of_unchanged _ (by decide)
  intro x hx
  exact hf x fun hin => hap x hin (hx.of_offset h2 (by omega))

/-- One round: the loop is left exactly at a record that is refused. -/
theorem hideStep_spec (hap : Apart newmmap (blockSize n) table (n * memoryMapSize))
    (hb : blockSize n ≤ 2 ^ 32) (hi : i < n)
    (hsize : (readMap mem (mapEntry table i)).size = 20)
    (hlen : ∀ j ≤ n, ∀ l, hideRecords hideMemAddr hideMemSize
      (fun k => readMap mem (mapEntry table k)) j = some l → l.length ≤ j + 2)
    (h : HideAt hideMemAddr hideMemSize newmmap table mem n i s) :
    (hideStep hideMemAddr hideMemSize newmmap i s).All
      (HideAt hideMemAddr hideMemSize newmmap table mem n (i + 1))
      (fun _ => hideRecord hideMemAddr hideMemSize (readMap mem (mapEntry table i)) = none)
      (fun _ => False) := by
  obtain ⟨⟨l, hl, hidx, hholds⟩, hframe, hmmap⟩ := h
  have hfit : n + 2 < 2 ^ 31 := by
    unfold blockSize memoryMapSize at hb
    omega
  have hrec : readMap s.mem s.mmap = readMap mem (mapEntry table i) := by
    rw [hmmap]
    exact readMap_of_frame hap hb hi hframe
  have hlong : i = 0 ∧ l.length = 0 ∨ 0 < i ∧ l.length ≤ i + 2 := by
    rcases Nat.eq_zero_or_pos i with rfl | hpos
    · rw [hideRecords, Option.some.injEq] at hl
      exact .inl ⟨rfl, by rw [← hl, List.length_nil]⟩
    · exact .inr ⟨hpos, hlen i (by omega) l hl⟩
  have hroom : l.length + hideSlots hideMemAddr hideMemSize (readMap mem (mapEntry table i)) ≤
      n + 2 + i := by
    cases hp : hideRecord hideMemAddr hideMemSize (readMap mem (mapEntry table i)) with
    | none =>
      have hle := hideSlots_le_of_refused hp
      omega
    | some pieces =>
      have hle := hlen (i + 1) hi _ (hideRecords_succ.mpr ⟨l, pieces, hl, hp, rfl⟩)
      rw [List.length_append, length_hideRecord hp] at hle
      omega
  have hentries : ∀ k < hideSlots hideMemAddr hideMemSize (readMap mem (mapEntry table i)),
      Apart (mapEntry newmmap (l.length + k)) memoryMapSize s.mmap memoryMapSize := by
    intro k hk
    rw [hmmap]
    exact entry_apart hap hb (by omega) hi
  obtain ⟨m, stored, -, hst, hout⟩ := hideStep_round hidx (by omega) hrec hentries i
  cases hp : hideRecord hideMemAddr hideMemSize (readMap mem (mapEntry table i)) with
  | none =>
    rw [hp] at hout
    obtain ⟨idx, hout⟩ := hout
    rw [hout]
    rfl
  | some pieces =>
    rw [hp] at hout
    obtain ⟨rfl, hout⟩ := hout
    rw [hout]
    have hsucc := hideRecords_succ.mpr ⟨l, stored, hl, hp, rfl⟩
    have hle := hlen (i + 1) hi _ hsucc
    rw [List.length_append] at hle
    have hin : (l.length + stored.length) * memoryMapSize ≤ blockSize n :=
      Nat.mul_le_mul_right _ (by omega)
    refine ⟨⟨l ++ stored, hsucc, ?_, hst.holds l rfl (hin.trans hb) hholds⟩, ?_, ?_⟩
    · rw [List.length_append]
    · intro x hx
      rw [← hframe x hx]
      apply hst.frame
      intro k hk hin
      have hle : (l.length + k + 1) * memoryMapSize ≤ blockSize n :=
        Nat.mul_le_mul_right _ (by omega)
      rw [Nat.succ_mul] at hle
      exact hx (hin.of_offset hle hb)
    · unfold nextRecord
      rw [hrec, hsize, hmmap, mapEntry_succ]

/-- Rounds of the loop over `n` records: an end that is `2 ^ 32` is taken for 0. -/
def mapRounds (table : BitVec 32) (n : ℕ) : ℕ :=
  if table.toNat + n * memoryMapSize < 2 ^ 32 then n else 0

theorem lt_mapEnd_iff (hfit : table.toNat + n * memoryMapSize ≤ 2 ^ 32) (hi : i ≤ mapRounds table n) :
    mapEntry table i < table + BitVec.ofNat 32 (n * memoryMapSize) ↔ i < mapRounds table n := by
  have ht := table.isLt
  unfold mapRounds memoryMapSize at *
  unfold mapEntry memoryMapSize
  rw [BitVec.lt_def, BitVec.toNat_add, BitVec.toNat_add, BitVec.toNat_ofNat, BitVec.toNat_ofNat]
  split at hi <;> rename_i hlt
  · rw [if_pos hlt, Nat.mod_eq_of_lt (show i * 24 < 2 ^ 32 by omega),
      Nat.mod_eq_of_lt (show n * 24 < 2 ^ 32 by omega), Nat.mod_eq_of_lt hlt,
      Nat.mod_eq_of_lt (show table.toNat + i * 24 < 2 ^ 32 by omega)]
    omega
  · have htop : table.toNat + n * 24 = 2 ^ 32 := by omega
    rw [if_neg hlt, Nat.add_mod_mod, Nat.add_mod_mod, htop, Nat.mod_self]
    omega

/-- The loop ends behind the last record, with all of them rewritten, or at one that is refused. -/
theorem hideLoop_spec (hideMemAddr hideMemSize mbi : BitVec 32) (mem : Memory 32)
    (hap : Apart newmmap (blockSize n) table (n * memoryMapSize)) (hb : blockSize n ≤ 2 ^ 32)
    (hsize : ∀ i < n, (readMap mem (mapEntry table i)).size = 20)
    (hlen : ∀ j ≤ n, ∀ l, hideRecords hideMemAddr hideMemSize
      (fun k => readMap mem (mapEntry table k)) j = some l → l.length ≤ j + 2)
    (hend : ∀ m, (∀ x, ¬ InSpan newmmap (blockSize n) x → m x = mem x) →
      MultibootInfo.mmapAddr m mbi + MultibootInfo.mmapLength m mbi =
        table + BitVec.ofNat 32 (n * memoryMapSize))
    (hfit : table.toNat + n * memoryMapSize ≤ 2 ^ 32) {fuel : ℕ} (hfuel : n ≤ fuel) :
    (Loop.run (fun _ h => h.mmap <
        MultibootInfo.mmapAddr h.mem mbi + MultibootInfo.mmapLength h.mem mbi)
      (hideStep hideMemAddr hideMemSize newmmap) fuel 0 ⟨mem, 0, table⟩).All
      (HideAt hideMemAddr hideMemSize newmmap table mem n (mapRounds table n))
      (fun _ => ∃ i < mapRounds table n,
        hideRecord hideMemAddr hideMemSize (readMap mem (mapEntry table i)) = none)
      (fun _ => False) := by
  have hle : mapRounds table n ≤ n := by
    unfold mapRounds
    split <;> omega
  let I : ℕ → Hiding → Prop := fun i h => i ≤ mapRounds table n ∧
    HideAt hideMemAddr hideMemSize newmmap table mem n i h
  have hcond : ∀ i h, I i h → (h.mmap < MultibootInfo.mmapAddr h.mem mbi +
      MultibootInfo.mmapLength h.mem mbi ↔ i < mapRounds table n) := by
    intro i h hI
    rw [hend h.mem hI.2.frame, hI.2.mmap]
    exact lt_mapEnd_iff hfit hI.1
  have h0 : I 0 ⟨mem, 0, table⟩ := by
    refine ⟨Nat.zero_le _, ⟨[], rfl, rfl, ?_⟩, fun _ _ => rfl, ?_⟩
    · intro k r hk
      cases hk
    · unfold mapEntry
      rw [Nat.zero_mul]
      exact (BitVec.add_zero table).symm
  refine (run_all I _ (fun _ => False) ?_ h0).mono ?_ (fun _ h => h) ?_
  · intro i h hc hI
    have hi := (hcond i h hI).mp hc
    refine (hideStep_spec hap hb (by omega) (hsize i (by omega)) hlen hI.2).mono ?_ ?_ ?_
    · exact fun t ht => ⟨hi, ht⟩
    · exact fun _ hn => ⟨i, hi, hn⟩
    · exact fun _ hf => hf
  · rintro t ⟨j, _, hI, hn⟩
    have hj := (hcond j t hI).not.mp hn
    have he : j = mapRounds table n := by
      have := hI.1
      omega
    rw [← he]
    exact hI.2
  · rintro t (hf | ⟨j, hj, hI, hc⟩)
    · exact hf
    · have hlt := (hcond j t hI).mp hc
      omega

end loop

/-- A map and the information about it, beside the heap: records of size 20 that lie end to end
and describe ranges apart from each other. -/
structure HideInput (s : Machine) (mbi hideMemAddr hideMemSize : BitVec 32) : Prop where
  tiled : Tiled s.mem mbi
  fits : (MultibootInfo.mmapAddr s.mem mbi).toNat + (MultibootInfo.mmapLength s.mem mbi).toNat ≤
    2 ^ 32
  apart : (recordsOf s.mem mbi).Pairwise fun r q => ∀ x, r.Covers x → ¬ q.Covers x
  below : ∀ r ∈ recordsOf s.mem mbi, r.addr.toNat + r.len.toNat ≤ 2 ^ 64
  mapOutside : Apart s.heapCurrent (blockSize (recordsOf s.mem mbi).length)
    (MultibootInfo.mmapAddr s.mem mbi) (MultibootInfo.mmapLength s.mem mbi).toNat
  infoOutside : Apart s.heapCurrent (blockSize (recordsOf s.mem mbi).length) mbi MultibootInfo.span
  infoBeside : Apart mbi MultibootInfo.span (MultibootInfo.mmapAddr s.mem mbi)
    (MultibootInfo.mmapLength s.mem mbi).toNat
  pos : 0 < hideMemSize.toNat
  sum : hideMemAddr.toNat + hideMemSize.toNat < 2 ^ 32

section input
variable {s : Machine} {mbi hideMemAddr hideMemSize : BitVec 32}

theorem Tiled.mmapLength_eq {mem : Memory 32} (h : Tiled mem mbi) :
    (MultibootInfo.mmapLength mem mbi).toNat = (recordsOf mem mbi).length * memoryMapSize := by
  rw [length_recordsOf, Nat.div_mul_cancel h.length]

/-- The record at an index, as the loop finds it. -/
theorem mem_recordsOf {mem : Memory 32} {i : ℕ} (hi : i < (recordsOf mem mbi).length) :
    readMap mem (mapEntry (MultibootInfo.mmapAddr mem mbi) i) ∈ recordsOf mem mbi := by
  rw [length_recordsOf] at hi
  exact List.mem_map.mpr ⟨i, List.mem_range.mpr hi, rfl⟩

theorem recordsOf_eq (mem : Memory 32) (mbi : BitVec 32) :
    recordsOf mem mbi = (List.range (recordsOf mem mbi).length).map fun i =>
      readMap mem (mapEntry (MultibootInfo.mmapAddr mem mbi) i) := by
  rw [length_recordsOf]
  rfl

theorem HideInput.blockSize_le (h : HideInput s mbi hideMemAddr hideMemSize) :
    blockSize (recordsOf s.mem mbi).length < 2 ^ 32 := by
  have hlen := h.tiled.mmapLength_eq
  unfold blockSize
  rw [Nat.add_mul, ← hlen]
  rcases Nat.eq_zero_or_pos (MultibootInfo.mmapLength s.mem mbi).toNat with h0 | hpos
  · rw [h0]
    decide
  · have hle := h.infoBeside.add_le (by decide) hpos
    unfold MultibootInfo.span at hle
    unfold memoryMapSize
    omega

theorem HideInput.apart_records (h : HideInput s mbi hideMemAddr hideMemSize) {i j : ℕ}
    (hi : i < (recordsOf s.mem mbi).length) (hj : j < (recordsOf s.mem mbi).length) (hne : i ≠ j)
    (x : ℕ) (hc : (readMap s.mem (mapEntry (MultibootInfo.mmapAddr s.mem mbi) i)).Covers x) :
    ¬ (readMap s.mem (mapEntry (MultibootInfo.mmapAddr s.mem mbi) j)).Covers x := by
  have hp := h.apart
  rw [recordsOf_eq, List.pairwise_map] at hp
  intro hc'
  rcases Nat.lt_or_gt_of_ne hne with hlt | hgt
  · have hr := List.pairwise_iff_getElem.mp hp i j (by simpa using hi) (by simpa using hj) hlt
    simp only [List.getElem_range] at hr
    exact hr x hc hc'
  · have hr := List.pairwise_iff_getElem.mp hp j i (by simpa using hj) (by simpa using hi) hgt
    simp only [List.getElem_range] at hr
    exact hr x hc' hc

/-- The bytes that are requested, in 32-bit arithmetic, are those of the block. -/
theorem HideInput.request (h : HideInput s mbi hideMemAddr hideMemSize) :
    (BitVec.ofNat 32 memoryMapSize *
      (MultibootInfo.mmapLength s.mem mbi / BitVec.ofNat 32 memoryMapSize + 2)).toNat =
        blockSize (recordsOf s.mem mbi).length := by
  have hb := h.blockSize_le
  rw [length_recordsOf] at hb ⊢
  unfold blockSize memoryMapSize at *
  rw [BitVec.toNat_mul, BitVec.toNat_add, BitVec.toNat_udiv]
  change 24 * (((MultibootInfo.mmapLength s.mem mbi).toNat / 24 + 2) % 2 ^ 32) % 2 ^ 32 = _
  rw [Nat.mod_eq_of_lt (show (MultibootInfo.mmapLength s.mem mbi).toNat / 24 + 2 < 2 ^ 32 by omega)]
  omega

/-- Without a block the result is FALSE. -/
theorem hideRuntimeMemory_refused (h : HideInput s mbi hideMemAddr hideMemSize)
    (hr : s.heapTops.toNat <
      (s.heapCurrent.toNat + blockSize (recordsOf s.mem mbi).length) % 2 ^ 32 ∨
        s.heapCurrent = NULL) (fuel : ℕ) (s' : Machine) :
    hideRuntimeMemory s mbi hideMemAddr hideMemSize fuel ≠ some (s', true) := by
  have hsize := h.request
  unfold hideRuntimeMemory
  split
  · intro he
    cases he
  · dsimp only
    generalize (BitVec.ofNat 32 memoryMapSize *
      (MultibootInfo.mmapLength s.mem mbi / BitVec.ofNat 32 memoryMapSize + 2)) = size at hsize
    unfold allocateMemory
    by_cases hlt : s.heapTops < s.heapCurrent + size
    · rw [reserve_refused s _ _ hlt]
      intro he
      cases he
    · rw [reserve_served s _ _ hlt]
      rw [BitVec.lt_def, BitVec.toNat_add, hsize] at hlt
      dsimp only
      rw [if_pos (hr.resolve_left hlt)]
      intro he
      cases he

/-- The memory with the block zeroed still has the information and the map. -/
theorem HideInput.same (h : HideInput s mbi hideMemAddr hideMemSize) {m : Memory 32}
    (hf : ∀ x, ¬ InSpan s.heapCurrent (blockSize (recordsOf s.mem mbi).length) x → m x = s.mem x) :
    Memory.Same m mbi s.mem mbi MultibootInfo.span := by
  apply Memory.Same.of_unchanged _ (by decide)
  exact fun x hx => hf x fun hin => h.infoOutside x hin hx

/-- The new map as it is read through the fields that are stored at the end. -/
theorem recordsOf_stored {m : Memory 32} {newmmap : BitVec 32} {n : ℕ} {l : List MemoryMap}
    (hh : Holds m newmmap l) (hl : l.length * memoryMapSize ≤ n) (hb : n < 2 ^ 32)
    (hap : Apart newmmap n mbi MultibootInfo.span) :
    recordsOf ((m.setField mbi 48 newmmap).setField mbi 44
        (BitVec.ofNat 32 memoryMapSize * BitVec.ofNat 32 l.length)) mbi = l ∧
      memoryMapSize ∣ (MultibootInfo.mmapLength ((m.setField mbi 48 newmmap).setField mbi 44
        (BitVec.ofNat 32 memoryMapSize * BitVec.ofNat 32 l.length)) mbi).toNat := by
  have hfit : l.length * memoryMapSize < 2 ^ 32 := Nat.lt_of_le_of_lt hl hb
  have hlength : MultibootInfo.mmapLength ((m.setField mbi 48 newmmap).setField mbi 44
      (BitVec.ofNat 32 memoryMapSize * BitVec.ofNat 32 l.length)) mbi =
        BitVec.ofNat 32 (l.length * memoryMapSize) := by
    unfold MultibootInfo.mmapLength
    rw [Memory.field_setField _ _ _ _ (by decide) (by decide), ← BitVec.ofNat_mul, Nat.mul_comm]
  have haddr : MultibootInfo.mmapAddr ((m.setField mbi 48 newmmap).setField mbi 44
      (BitVec.ofNat 32 memoryMapSize * BitVec.ofNat 32 l.length)) mbi = newmmap := by
    unfold MultibootInfo.mmapAddr
    rw [Memory.field_setField_of_ne _ _ (by decide) (by decide) (by decide)]
    exact Memory.field_setField _ _ _ _ (by decide) (by decide)
  unfold recordsOf
  rw [hlength, haddr, BitVec.toNat_ofNat, Nat.mod_eq_of_lt hfit,
    Nat.mul_div_cancel _ (show 0 < memoryMapSize by decide)]
  refine ⟨?_, Nat.dvd_mul_left _ _⟩
  apply List.ext_getElem
  · rw [List.length_map, List.length_range]
  · intro k hk hk'
    rw [List.getElem_map, List.getElem_range, ← hh k _ (List.getElem?_eq_getElem hk')]
    apply readMap_congr
    apply Memory.Same.of_unchanged _ (by decide)
    intro x hx
    have hle : (k + 1) * memoryMapSize ≤ n :=
      (Nat.mul_le_mul_right _ (show k + 1 ≤ l.length by omega)).trans hl
    rw [Nat.succ_mul] at hle
    have hout := hap x (hx.of_offset hle (by omega))
    rw [Memory.setField_of_outside _ _ hout (by decide) (by decide),
      Memory.setField_of_outside _ _ hout (by decide) (by decide)]

/-- A map that is to be rewritten: the result is TRUE and the new map that of the rewriting, or
FALSE at a record that is refused. -/
theorem hideRuntimeMemory_spec (h : HideInput s mbi hideMemAddr hideMemSize)
    (hflag : MultibootInfo.flags s.mem mbi &&& MBI_MEMMAP ≠ 0)
    (hserved : ¬ s.heapTops.toNat <
      (s.heapCurrent.toNat + blockSize (recordsOf s.mem mbi).length) % 2 ^ 32)
    (hnull : s.heapCurrent ≠ NULL) {fuel : ℕ} (hfuel : (recordsOf s.mem mbi).length ≤ fuel) :
    ∃ s' b, hideRuntimeMemory s mbi hideMemAddr hideMemSize fuel = some (s', b) ∧
      match hideRecords hideMemAddr hideMemSize
        (fun k => readMap s.mem (mapEntry (MultibootInfo.mmapAddr s.mem mbi) k))
        (mapRounds (MultibootInfo.mmapAddr s.mem mbi) (recordsOf s.mem mbi).length) with
      | none => b = false
      | some l => b = true ∧ recordsOf s'.mem mbi = l ∧
        memoryMapSize ∣ (MultibootInfo.mmapLength s'.mem mbi).toNat := by
  have hb := h.blockSize_le
  have hlen := h.tiled.mmapLength_eq
  have hmap := h.mapOutside
  rw [hlen] at hmap
  have hsize := h.request
  generalize hk : (BitVec.ofNat 32 memoryMapSize *
    (MultibootInfo.mmapLength s.mem mbi / BitVec.ofNat 32 memoryMapSize + 2)) = size at hsize
  have hlt : ¬ s.heapTops < s.heapCurrent + size := by
    rwa [BitVec.lt_def, BitVec.toNat_add, hsize]
  unfold hideRuntimeMemory
  dsimp only
  rw [if_neg hflag, hk]
  unfold allocateMemory
  rw [reserve_served s s.heapCurrent size hlt]
  dsimp only
  rw [if_neg hnull]
  have hf0 : ∀ x, ¬ InSpan s.heapCurrent (blockSize (recordsOf s.mem mbi).length) x →
      zeroMem s.mem s.heapCurrent size x = s.mem x := by
    intro x hx
    unfold zeroMem
    rw [hsize]
    exact Memory.fill_of_not_inSpan _ _ hx
  generalize zeroMem s.mem s.heapCurrent size = m0 at hf0 ⊢
  have hsame : ∀ m, (∀ x, ¬ InSpan s.heapCurrent (blockSize (recordsOf s.mem mbi).length) x →
      m x = m0 x) → Memory.Same m mbi s.mem mbi MultibootInfo.span :=
    fun m hm => h.same fun x hx => (hm x hx).trans (hf0 x hx)
  have hrec : ∀ i < (recordsOf s.mem mbi).length,
      readMap m0 (mapEntry (MultibootInfo.mmapAddr s.mem mbi) i) =
        readMap s.mem (mapEntry (MultibootInfo.mmapAddr s.mem mbi) i) :=
    fun i hi => readMap_of_frame hmap (Nat.le_of_lt hb) hi hf0
  have haddr : ∀ m, (∀ x, ¬ InSpan s.heapCurrent (blockSize (recordsOf s.mem mbi).length) x →
      m x = m0 x) → MultibootInfo.mmapAddr m mbi = MultibootInfo.mmapAddr s.mem mbi :=
    fun m hm => Memory.field_congr (hsame m hm) (by decide)
  have hloop := hideLoop_spec hideMemAddr hideMemSize mbi m0 hmap (Nat.le_of_lt hb) ?_ ?_ ?_ ?_ hfuel
  · rw [haddr m0 fun _ _ => rfl]
    have hle : mapRounds (MultibootInfo.mmapAddr s.mem mbi) (recordsOf s.mem mbi).length ≤
        (recordsOf s.mem mbi).length := by
      unfold mapRounds
      split <;> omega
    generalize hn : mapRounds _ _ = n at hloop hle ⊢
    generalize Loop.run (fun _ (t : Hiding) => t.mmap <
        MultibootInfo.mmapAddr t.mem mbi + MultibootInfo.mmapLength t.mem mbi)
      (hideStep hideMemAddr hideMemSize s.heapCurrent) fuel 0
      ⟨m0, 0, MultibootInfo.mmapAddr s.mem mbi⟩ = o at hloop ⊢
    cases o with
    | next t =>
      obtain ⟨l, hl, hidx, hholds⟩ := hloop.records
      rw [hideRecords_congr fun i hi => hrec i (by omega)] at hl
      have hlong := length_hideRecords h.sum
        (fun i hi k hk => h.apart_records (by omega) (by omega)) hl
      refine ⟨_, true, rfl, ?_⟩
      rw [hl]
      refine ⟨rfl, ?_⟩
      dsimp only
      rw [hidx]
      exact recordsOf_stored hholds (Nat.mul_le_mul_right _ (by omega)) hb h.infoOutside
    | quit t =>
      obtain ⟨i, hi, hnone⟩ := hloop
      rw [hrec i (by omega)] at hnone
      refine ⟨_, false, rfl, ?_⟩
      rw [hideRecords_eq_none.mpr ⟨i, hi, hnone⟩]
    | spent t => exact hloop.elim
  · intro i hi
    rw [hrec i hi]
    exact h.tiled.size _ (mem_recordsOf hi)
  · intro j hj l hl
    rw [hideRecords_congr fun i hi => hrec i (by omega)] at hl
    have hle := length_hideRecords h.sum (fun i hi k hk => h.apart_records (by omega) (by omega)) hl
    omega
  · intro m hm
    rw [haddr m hm, ← hlen, BitVec.ofNat_toNat, BitVec.setWidth_eq]
    congr 1
    exact Memory.field_congr (hsame m hm) (by decide)
  · rw [← hlen]
    exact h.fits

/-- If the rewriting succeeds, the new map hides the range and its records lie end to end. -/
def HideSound (s : Machine) (mbi hideMemAddr hideMemSize : BitVec 32) (fuel : ℕ) : Prop :=
  ∀ s', hideRuntimeMemory s mbi hideMemAddr hideMemSize fuel = some (s', true) →
    Hides hideMemAddr hideMemSize (recordsOf s.mem mbi) (recordsOf s'.mem mbi) ∧ Tiled s'.mem mbi

/-- There is no map, or no block for it, or a record that is refused, or none that spoils the
range; the loop does not see a map that ends at the top of the address space. -/
def HideCondition (s : Machine) (mbi hideMemAddr hideMemSize : BitVec 32) : Prop :=
  MultibootInfo.flags s.mem mbi &&& MBI_MEMMAP = 0 ∨
    s.heapTops.toNat < (s.heapCurrent.toNat + blockSize (recordsOf s.mem mbi).length) % 2 ^ 32 ∨
    s.heapCurrent = NULL ∨
    if (MultibootInfo.mmapAddr s.mem mbi).toNat + (MultibootInfo.mmapLength s.mem mbi).toNat <
        2 ^ 32 then
      (∃ r ∈ recordsOf s.mem mbi, r.Refused hideMemAddr hideMemSize) ∨
        ∀ r ∈ recordsOf s.mem mbi, ¬ r.Spoils hideMemAddr hideMemSize
    else
      ∀ r ∈ recordsOf s.mem mbi, ∀ x, r.Covers x → InRange hideMemAddr hideMemSize x

theorem forall_recordsOf {mem : Memory 32} {p : MemoryMap → Prop} :
    (∀ r ∈ recordsOf mem mbi, p r) ↔ ∀ i < (recordsOf mem mbi).length,
      p (readMap mem (mapEntry (MultibootInfo.mmapAddr mem mbi) i)) := by
  rw [length_recordsOf]
  unfold recordsOf
  simp only [List.forall_mem_map, List.mem_range]

theorem exists_recordsOf {mem : Memory 32} {p : MemoryMap → Prop} :
    (∃ r ∈ recordsOf mem mbi, p r) ↔ ∃ i < (recordsOf mem mbi).length,
      p (readMap mem (mapEntry (MultibootInfo.mmapAddr mem mbi) i)) := by
  rw [length_recordsOf]
  unfold recordsOf
  simp only [List.mem_map, List.mem_range, exists_exists_and_eq_and]

end input

/-- A successful `hide_runtime_memory` hides the range and changes nothing beside it, exactly if
no AVAILABLE record begins within the range and ends where it does or later. -/
theorem hideSound_iff {s : Machine} {mbi hideMemAddr hideMemSize : BitVec 32}
    (h : HideInput s mbi hideMemAddr hideMemSize) {fuel : ℕ}
    (hfuel : (recordsOf s.mem mbi).length ≤ fuel) :
    HideSound s mbi hideMemAddr hideMemSize fuel ↔ HideCondition s mbi hideMemAddr hideMemSize := by
  unfold HideCondition
  by_cases hflag : MultibootInfo.flags s.mem mbi &&& MBI_MEMMAP = 0
  · refine iff_of_true ?_ (.inl hflag)
    intro s' he
    unfold hideRuntimeMemory at he
    rw [if_pos hflag] at he
    cases he
  rw [or_iff_right hflag]
  by_cases hserved : s.heapTops.toNat <
      (s.heapCurrent.toNat + blockSize (recordsOf s.mem mbi).length) % 2 ^ 32
  · refine iff_of_true ?_ (.inl hserved)
    exact fun s' he => absurd he (hideRuntimeMemory_refused h (.inl hserved) fuel s')
  rw [or_iff_right hserved]
  by_cases hnull : s.heapCurrent = NULL
  · refine iff_of_true ?_ (.inl hnull)
    exact fun s' he => absurd he (hideRuntimeMemory_refused h (.inr hnull) fuel s')
  rw [or_iff_right hnull]
  have hlen := h.tiled.mmapLength_eq
  obtain ⟨s₁, b, hrun, hspec⟩ := hideRuntimeMemory_spec h hflag hserved hnull hfuel
  have hwrap := forall_recordsOf.mp h.below
  have hsize := forall_recordsOf.mp h.tiled.size
  unfold HideSound
  rw [hrun]
  unfold mapRounds at hspec
  rw [← hlen] at hspec
  split
  next hfit =>
    rw [if_pos hfit] at hspec
    rw [exists_recordsOf, forall_recordsOf]
    cases hl : hideRecords hideMemAddr hideMemSize
        (fun k => readMap s.mem (mapEntry (MultibootInfo.mmapAddr s.mem mbi) k))
        (recordsOf s.mem mbi).length with
    | none =>
      rw [hl] at hspec
      dsimp only at hspec
      subst hspec
      refine iff_of_true (fun s' he => by cases he) (.inl ?_)
      obtain ⟨i, hi, hnone⟩ := hideRecords_eq_none.mp hl
      exact ⟨i, hi, (hideRecord_eq_none h.sum).mp hnone⟩
    | some l =>
      rw [hl] at hspec
      obtain ⟨rfl, hnew, hdvd⟩ := hspec
      have hnone : ¬ ∃ i < (recordsOf s.mem mbi).length, (readMap s.mem (mapEntry
          (MultibootInfo.mmapAddr s.mem mbi) i)).Refused hideMemAddr hideMemSize := by
        rintro ⟨i, hi, hr⟩
        obtain ⟨pieces, hp⟩ := hideRecord_isSome hl hi
        rw [(hideRecord_eq_none h.sum).mpr hr] at hp
        cases hp
      have htiled : Tiled s₁.mem mbi := by
        refine ⟨hdvd, fun r hr => ?_⟩
        rw [hnew] at hr
        exact size_hideRecords h.sum hl hsize hr
      have hiff := hides_iff h.sum h.pos hwrap hl
      rw [← recordsOf_eq, ← hnew] at hiff
      rw [or_iff_right hnone, ← hiff]
      constructor
      · intro hs
        exact (hs s₁ rfl).1
      · intro hh s' he
        cases he
        exact ⟨hh, htiled⟩
  next hfit =>
    rw [if_neg hfit, hideRecords] at hspec
    obtain ⟨rfl, hnew, hdvd⟩ := hspec
    have hempty : ∀ t x, ¬ CoveredBy [] t x := by
      rintro t x ⟨r, hr, _⟩
      cases hr
    constructor
    · intro hs r hr x hc
      have hh := (hs s₁ rfl).1
      rw [hnew] at hh
      by_contra hx
      exact hempty _ x ((hh.kept x hx r.type).mpr ⟨r, hr, rfl, hc⟩)
    · intro hall s' he
      cases he
      refine ⟨⟨?_, ?_⟩, hdvd, ?_⟩
      · intro x _
        rw [hnew]
        exact hempty _ x
      · intro x hx t
        rw [hnew]
        refine iff_of_false (hempty t x) ?_
        rintro ⟨r, hr, _, hc⟩
        exact hx (hall r hr x hc)
      · intro r hr
        rw [hnew] at hr
        cases hr

/-- A map of one AVAILABLE record from 0x2000 to 0x4000 at 0x200, the information at 0x100. -/
def oneRecordMem : Memory 32 :=
  let mem : Memory 32 := fun _ => 0
  let mem := mem.setField 0x100 0 MBI_MEMMAP
  let mem := mem.setField 0x100 44 (24 : BitVec 32)
  let mem := mem.setField 0x100 48 (0x200 : BitVec 32)
  let mem := mem.setField 0x200 0 (20 : BitVec 32)
  let mem := mem.setField 0x200 4 (0x2000 : BitVec 64)
  let mem := mem.setField 0x200 12 (0x2000 : BitVec 64)
  mem.setField 0x200 20 MULTIBOOT_MEMORY_AVAILABLE

/-- The loader with a heap of one page at 0x8000. -/
def oneRecordMachine : Machine := initializeMemoryManager oneRecordMem 0x8000 0x1000

theorem recordsOf_oneRecord :
    recordsOf oneRecordMachine.mem 0x100 = [⟨20, 0x2000, 0x2000, MULTIBOOT_MEMORY_AVAILABLE⟩] := by
  decide +kernel

theorem hideInput_oneRecord {hideMemAddr hideMemSize : BitVec 32} (hpos : 0 < hideMemSize.toNat)
    (hsum : hideMemAddr.toNat + hideMemSize.toNat < 2 ^ 32) :
    HideInput oneRecordMachine 0x100 hideMemAddr hideMemSize := by
  have hlength : MultibootInfo.mmapLength oneRecordMachine.mem 0x100 = 24 := by decide +kernel
  have haddr : MultibootInfo.mmapAddr oneRecordMachine.mem 0x100 = 0x200 := by decide +kernel
  constructor
  · constructor
    · rw [hlength]
      decide
    · rw [recordsOf_oneRecord]
      decide
  · rw [hlength, haddr]
    decide
  · rw [recordsOf_oneRecord]
    exact List.pairwise_singleton _ _
  · rw [recordsOf_oneRecord]
    decide
  · rw [recordsOf_oneRecord, hlength, haddr]
    exact (apart_of_le (by decide) (by decide)).symm
  · rw [recordsOf_oneRecord]
    exact (apart_of_le (by decide) (by decide)).symm
  · rw [hlength, haddr]
    exact apart_of_le (by decide) (by decide)
  · exact hpos
  · exact hsum

/-- The range to hide lies within the record. -/
theorem hideSound_iff_oneRecord : HideSound oneRecordMachine 0x100 0x2000 0x1000 1 ↔
    HideCondition oneRecordMachine 0x100 0x2000 0x1000 :=
  hideSound_iff (hideInput_oneRecord (by decide) (by decide)) (by rw [recordsOf_oneRecord]; decide)

/-- The range begins below the record: the piece before it gets a length that has wrapped, and
the addresses from 0x2000 on are AVAILABLE still. -/
theorem hide_crossing_not_sound : HideInput oneRecordMachine 0x100 0x1000 0x2000 ∧
    ¬ HideSound oneRecordMachine 0x100 0x1000 0x2000 1 := by
  have hin : HideInput oneRecordMachine 0x100 0x1000 0x2000 :=
    hideInput_oneRecord (by decide) (by decide)
  refine ⟨hin, fun hs => ?_⟩
  obtain ⟨s', b, hrun, hspec⟩ := hideRuntimeMemory_spec hin (by decide +kernel)
    (by rw [recordsOf_oneRecord]; decide) (by decide)
    (show (recordsOf oneRecordMachine.mem 0x100).length ≤ 1 by rw [recordsOf_oneRecord]; decide)
  have hl : hideRecords 0x1000 0x2000 (fun k => readMap oneRecordMachine.mem
      (mapEntry (MultibootInfo.mmapAddr oneRecordMachine.mem 0x100) k))
      (mapRounds (MultibootInfo.mmapAddr oneRecordMachine.mem 0x100)
        (recordsOf oneRecordMachine.mem 0x100).length) =
      some [⟨20, 0x2000, 0xfffffffffffff000, MULTIBOOT_MEMORY_AVAILABLE⟩,
        ⟨20, 0x1000, 0x2000, MULTIBOOT_MEMORY_RESERVED⟩,
        ⟨20, 0x3000, 0x1000, MULTIBOOT_MEMORY_AVAILABLE⟩] := by decide +kernel
  rw [hl] at hspec
  obtain ⟨rfl, hnew, _⟩ := hspec
  have hh := (hs s' hrun).1
  rw [hnew] at hh
  exact hh.hidden 0x2000 ⟨by decide, by decide⟩ (by decide)

end IkgtLoader
