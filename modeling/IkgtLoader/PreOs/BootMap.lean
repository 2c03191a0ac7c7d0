import IkgtLoader.PreOs.LinuxFrame

/-! When `setup_boot_params` hands the memory map on: the array of the boot parameters has 128
entries, and the loop as many rounds as the map has records. -/
namespace IkgtLoader
open Flat Loop

namespace BootParams

/-- `E820MAX`. -/
def E820MAX : ℕ := 128

/-- `screen_info`, in bytes. -/
def screenInfoSize : ℕ := 64

/-- Offset and size of the fields that are stored when the map is listed. -/
def screenStores : List (ℕ × ℕ) :=
  [(0x06, 1), (0x0e, 1), (0x07, 1), (0x10, 2), (0x0f, 1), (0x01, 1), (0x0a, 2), (tbootSharedAddr, 8)]

end BootParams

/-- `e820entry_t`. -/
structure BootEntry where
  addr : BitVec 64
  size : BitVec 64
  type : BitVec 32
  deriving DecidableEq

def readBootEntry (mem : Memory 32) (p : BitVec 32) : BootEntry where
  addr := mem.field 64 p 0
  size := mem.field 64 p 8
  type := mem.field 32 p 16

/-- `&boot_params->e820_map[i]`. -/
def bootEntry (bootParams : BitVec 32) (i : ℕ) : BitVec 32 :=
  bootParams + BitVec.ofNat 32 (BootParams.e820Map + i * BootParams.e820EntrySize)

/-- The entry for a record: bad memory is reserved. -/
def MemoryMap.toBootEntry (r : MemoryMap) : BootEntry :=
  ⟨r.addr, r.len, if r.type = E820_BAD_MEM then E820_RESERVED_MEM else r.type⟩

/-- The boot parameters say what the map and the header of the kernel do, and nothing else has
changed. -/
structure BootMapFaithful (m : Memory 32) (mbi bootParams hdr : BitVec 32) (m' : Memory 32) :
    Prop where
  count : (m'.field 8 bootParams BootParams.e820Entries).toNat = (recordsOf m mbi).length
  entries : ∀ i < (m'.field 8 bootParams BootParams.e820Entries).toNat, i < BootParams.E820MAX ∧
    some (readBootEntry m' (bootEntry bootParams i)) =
      (recordsOf m mbi)[i]?.map MemoryMap.toBootEntry
  header : Memory.Same m' (bootParams + BitVec.ofNat 32 SetupHeader.setupSects) m
    (hdr + BitVec.ofNat 32 SetupHeader.setupSects) SetupHeader.size
  frame : ∀ x, ¬ InSpan (bootParams + BitVec.ofNat 32 SetupHeader.setupSects) SetupHeader.size x →
    ¬ InSpan (bootParams + BitVec.ofNat 32 BootParams.e820Entries) 1 x →
    ¬ InSpan (bootEntry bootParams 0) ((m'.field 8 bootParams BootParams.e820Entries).toNat *
      BootParams.e820EntrySize) x →
    ¬ InSpan bootParams BootParams.screenInfoSize x →
    ¬ InSpan (bootParams + BitVec.ofNat 32 BootParams.tbootSharedAddr) 8 x → m' x = m x

section entries
variable {bootParams mmap p : BitVec 32} {m m' : Memory 32} {i j n : ℕ} {x : BitVec 32}

theorem readBootEntry_congr (h : Memory.Same m' p m p BootParams.e820EntrySize) :
    readBootEntry m' p = readBootEntry m p := by
  unfold readBootEntry
  rw [Memory.field_congr h (by decide), Memory.field_congr h (by decide),
    Memory.field_congr h (by decide)]

/-- One round stores the entry of its record, if this is elsewhere. -/
theorem bootMapStep_spec (hap : Apart (bootEntry bootParams i) BootParams.e820EntrySize
      (mapEntry mmap i) memoryMapSize) (s : Memory 32 × ℕ) :
    ∃ m, bootMapStep bootParams mmap i s = .next (m, i + 1) ∧
      (∀ x, ¬ InSpan (bootEntry bootParams i) BootParams.e820EntrySize x → m x = s.1 x) ∧
      readBootEntry m (bootEntry bootParams i) = (readMap s.1 (mapEntry mmap i)).toBootEntry := by
  have hs : BootParams.e820EntrySize ≤ 2 ^ 32 := by decide
  have h0 : Memory.Same s.1 (mapEntry mmap i) s.1 (mapEntry mmap i) memoryMapSize := fun _ _ => rfl
  obtain ⟨m, hm, hframe⟩ := bootMapStep_writes bootParams mmap i s
  refine ⟨m, hm, hframe, ?_⟩
  unfold bootMapStep at hm
  cases hm
  unfold bootEntry at hap ⊢
  generalize bootParams + BitVec.ofNat 32 (BootParams.e820Map + i * BootParams.e820EntrySize) =
    entry at hap ⊢
  have h1 := h0.setField hap (o := 0) (by decide) hs (by decide)
    (readMap s.1 (mapEntry mmap i)).addr
  have h2 := h1.setField hap (o := 8) (by decide) hs (by decide)
    (readMap s.1 (mapEntry mmap i)).len
  rw [readMap_congr h1, readMap_congr h2]
  unfold readBootEntry MemoryMap.toBootEntry
  rw [BootEntry.mk.injEq]
  refine ⟨?_, ?_, ?_⟩
  · rw [Memory.field_setField_of_ne _ _ (by decide) (by decide) (by decide),
      Memory.field_setField_of_ne _ _ (by decide) (by decide) (by decide)]
    exact Memory.field_setField _ _ _ _ (by decide) (by decide)
  · rw [Memory.field_setField_of_ne _ _ (by decide) (by decide) (by decide)]
    exact Memory.field_setField _ _ _ _ (by decide) (by decide)
  · exact Memory.field_setField _ _ _ _ (by decide) (by decide)

end entries

/-- The loop over the map, from the round `i` on. -/
abbrev bootMapLoop (mbi bootParams mmap : BitVec 32) (fuel i : ℕ) (m : Memory 32) :
    Outcome (Memory 32 × ℕ) :=
  Loop.run (fun i s => i < (MultibootInfo.mmapLength s.1 mbi).toNat / memoryMapSize)
    (bootMapStep bootParams mmap) fuel i (m, i)

section loop
variable {bootParams mbi hdr mmap : BitVec 32} {m : Memory 32} {i n : ℕ} {s : Memory 32 × ℕ}
  {x : BitVec 32}

/-- The screen and the address of tboot are all that the last stores write. -/
theorem setupScreen_of_outside (m : Memory 32) (hx : ¬ InSpan bootParams BootParams.screenInfoSize x)
    (ht : ¬ InSpan (bootParams + BitVec.ofNat 32 BootParams.tbootSharedAddr) 8 x) :
    setupScreen m bootParams x = m x := by
  have hs : BootParams.screenInfoSize ≤ 2 ^ 32 := by decide
  unfold setupScreen
  rw [Memory.setField_of_not_inSpan _ _ ht, Memory.setField_of_outside _ _ hx (by decide) hs,
    Memory.setField_of_outside _ _ hx (by decide) hs, Memory.setField_of_outside _ _ hx (by decide) hs,
    Memory.setField_of_outside _ _ hx (by decide) hs, Memory.setField_of_outside _ _ hx (by decide) hs,
    Memory.setField_of_outside _ _ hx (by decide) hs, Memory.setField_of_outside _ _ hx (by decide) hs]

/-- Behind both of them nothing changes. -/
theorem setupScreen_behind (m : Memory 32) {o k : ℕ} (ho : 0x60 ≤ o) (hfit : o + k ≤ 2 ^ 32)
    (hx : InSpan (bootParams + BitVec.ofNat 32 o) k x) : setupScreen m bootParams x = m x := by
  rw [inSpan_offset hfit] at hx
  apply setupScreen_of_outside
  · intro hin
    change (x - bootParams).toNat < 64 at hin
    omega
  · rw [inSpan_offset (by decide)]
    unfold BootParams.tbootSharedAddr
    omega

/-- No round writes before the array, however long the map is. -/
theorem bootMapLoop_low (fuel : ℕ) (hx : (x - bootParams).toNat < BootParams.e820Map) :
    (bootMapLoop mbi bootParams mmap fuel 0 m).state.1 x = m x := by
  apply run_state (fun s : Memory 32 × ℕ => s.1 x = m x) _ rfl
  intro i s hi hs
  have hlt := (MultibootInfo.mmapLength s.1 mbi).isLt
  have hentry : ¬ InSpan (bootEntry bootParams i) BootParams.e820EntrySize x := by
    unfold memoryMapSize at hi
    unfold bootEntry BootParams.e820Map BootParams.e820EntrySize at *
    rw [inSpan_offset (by omega)]
    omega
  obtain ⟨m', hm, hframe⟩ := bootMapStep_writes bootParams mmap i s
  rw [hm]
  exact (hframe x hentry).trans hs

/-- The entries of the rounds that are made are all that the loop writes, whatever becomes of the
information meanwhile. -/
theorem bootMapLoop_stores {fuel : ℕ} {o : Outcome (Memory 32 × ℕ)}
    (ho : bootMapLoop mbi bootParams mmap fuel 0 m = o)
    (hx : ∀ i < o.state.2, ¬ InSpan (bootEntry bootParams i) BootParams.e820EntrySize x) :
    o.state.1 x = m x := by
  let I : ℕ → Memory 32 × ℕ → Prop := fun i s => s.2 = i ∧
    ((∀ j < s.2, ¬ InSpan (bootEntry bootParams j) BootParams.e820EntrySize x) → s.1 x = m x)
  have hbody : ∀ i s, i < (MultibootInfo.mmapLength s.1 mbi).toNat / memoryMapSize → I i s →
      (bootMapStep bootParams mmap i s).All (I (i + 1)) (fun _ => False) (fun _ => False) := by
    rintro i s - ⟨rfl, hs⟩
    obtain ⟨m', hm, hframe⟩ := bootMapStep_writes bootParams mmap s.2 s
    rw [hm]
    refine ⟨rfl, fun hout => ?_⟩
    exact (hframe x (hout s.2 (Nat.lt_succ_self _))).trans
      (hs fun j hj => hout j (Nat.lt_succ_of_lt hj))
  have h0 : I 0 (m, 0) := ⟨rfl, fun _ => rfl⟩
  have hall : (bootMapLoop mbi bootParams mmap fuel 0 m).All _ _ _ :=
    Loop.run_all I (fun _ => False) (fun _ => False) hbody h0
  rw [ho] at hall
  cases o with
  | next t =>
    obtain ⟨_, _, hI, _⟩ := hall
    exact hI.2 hx
  | quit t => exact hall.elim
  | spent t =>
    rcases hall with hf | ⟨_, _, hI, _⟩
    · exact hf.elim
    · exact hI.2 hx

/-- No round is undone. -/
theorem bootMapLoop_le {fuel : ℕ} : i ≤ (bootMapLoop mbi bootParams mmap fuel i m).state.2 := by
  have hbody : ∀ (j : ℕ) (s : Memory 32 × ℕ),
      j < (MultibootInfo.mmapLength s.1 mbi).toNat / memoryMapSize → s.2 = j →
      (bootMapStep bootParams mmap j s).All (fun t => t.2 = j + 1) (fun _ => False)
        (fun _ => False) := by
    intro j s _ _
    obtain ⟨m', hm, _⟩ := bootMapStep_writes bootParams mmap j s
    rw [hm]
    rfl
  have hall : (bootMapLoop mbi bootParams mmap fuel i m).All _ _ _ :=
    Loop.run_all (fun j s => s.2 = j) (fun _ => False) (fun _ => False) hbody rfl
  generalize bootMapLoop mbi bootParams mmap fuel i m = o at hall ⊢
  cases o with
  | next t =>
    obtain ⟨j, hj, ht, _⟩ := hall
    exact hj.trans (Nat.le_of_eq ht.symm)
  | quit t => exact hall.elim
  | spent t =>
    rcases hall with hf | ⟨j, hj, ht, _⟩
    · exact hf.elim
    · exact (Nat.le_add_right i fuel).trans (Nat.le_of_eq (hj.symm.trans ht.symm))

/-- The rounds that the loop over the map makes. -/
def bootRounds (m : Memory 32) (mbi bootParams : BitVec 32) : ℕ :=
  (bootMapLoop mbi bootParams (MultibootInfo.mmapAddr m mbi) mapFuel 0 m).state.2

/-- The loop makes as many rounds as the map has records if they keep off the information. -/
theorem bootMapLoop_next (hinfo : Apart bootParams (BootParams.span n) mbi MultibootInfo.span)
    (hlength : (MultibootInfo.mmapLength m mbi).toNat / memoryMapSize = n)
    {I : ℕ → Memory 32 × ℕ → Prop}
    (hframe : ∀ i s, I i s → ∀ x, ¬ InSpan bootParams (BootParams.span n) x → s.1 x = m x)
    (hbody : ∀ i s, i < n → I i s → ∃ t, bootMapStep bootParams mmap i s = .next t ∧ I (i + 1) t)
    (h0 : I 0 (m, 0)) :
    ∃ t, bootMapLoop mbi bootParams mmap mapFuel 0 m = .next t ∧ I n t := by
  have hcond : ∀ i s, I i s →
      (i < (MultibootInfo.mmapLength s.1 mbi).toNat / memoryMapSize ↔ i < n) := by
    intro i s hs
    have hsame : Memory.Same s.1 mbi m mbi MultibootInfo.span :=
      Memory.Same.of_unchanged (fun x hx => hframe i s hs x (hinfo.symm x hx)) (by decide)
    have hkept : MultibootInfo.mmapLength s.1 mbi = MultibootInfo.mmapLength m mbi :=
      Memory.field_congr hsame (by decide)
    rw [hkept, hlength]
  have hfuel : n ≤ 0 + mapFuel := by
    have hlt := (MultibootInfo.mmapLength m mbi).isLt
    unfold memoryMapSize at hlength
    unfold mapFuel
    omega
  exact run_count I hcond hbody (Nat.zero_le n) hfuel h0

/-- As many as the map has records, if the entries keep off the information. -/
theorem bootRounds_eq (hinfo : Apart bootParams (BootParams.span n) mbi MultibootInfo.span)
    (hlength : (MultibootInfo.mmapLength m mbi).toNat / memoryMapSize = n) :
    bootRounds m mbi bootParams = n := by
  have hcount : n * memoryMapSize < 2 ^ 32 := by
    have hlt := (MultibootInfo.mmapLength m mbi).isLt
    unfold memoryMapSize at *
    omega
  let I : ℕ → Memory 32 × ℕ → Prop := fun i s => s.2 = i ∧
    ∀ x, ¬ InSpan bootParams (BootParams.span n) x → s.1 x = m x
  have hbody : ∀ i s, i < n → I i s →
      ∃ t, bootMapStep bootParams (MultibootInfo.mmapAddr m mbi) i s = .next t ∧ I (i + 1) t := by
    rintro i s hi ⟨_, hs⟩
    obtain ⟨m', hm, hframe⟩ :=
      bootMapStep_frame hi (BootParams.span_le hcount) (MultibootInfo.mmapAddr m mbi) s
    exact ⟨_, hm, rfl, fun x hx => (hframe x hx).trans (hs x hx)⟩
  have h0 : I 0 (m, 0) := ⟨rfl, fun _ _ => rfl⟩
  obtain ⟨t, hrun, ht, _⟩ := bootMapLoop_next hinfo hlength (fun _ _ hs => hs.2) hbody h0
  unfold bootRounds
  rw [hrun]
  exact ht

/-- The bytes that `setup_boot_params` stores in so many rounds. -/
inductive SetupStores (bootParams : BitVec 32) (rounds : ℕ) (x : BitVec 32) : Prop
  | header (h : InSpan (bootParams + BitVec.ofNat 32 SetupHeader.setupSects) SetupHeader.size x)
  | entry (i : ℕ) (hi : i < rounds) (h : InSpan (bootEntry bootParams i) BootParams.e820EntrySize x)
  | count (h : InSpan (bootParams + BitVec.ofNat 32 BootParams.e820Entries) 1 x)
  | screen (o k : ℕ) (ho : (o, k) ∈ BootParams.screenStores)
      (h : InSpan (bootParams + BitVec.ofNat 32 o) k x)

theorem SetupStores.inSpan (h : SetupStores bootParams n x) (hn : BootParams.span n ≤ 2 ^ 32) :
    InSpan bootParams (BootParams.span n) x := by
  have hsize : BootParams.size ≤ BootParams.span n := le_max_left _ _
  cases h with
  | header h => exact h.of_offset (le_trans (by decide) hsize) hn
  | entry i hi h =>
    apply h.of_offset _ hn
    unfold BootParams.span BootParams.e820EntrySize
    omega
  | count h => exact h.of_offset (le_trans (by decide) hsize) hn
  | screen o k ho h =>
    have hfit : ∀ f ∈ BootParams.screenStores, f.1 + f.2 ≤ BootParams.size := by decide
    exact h.of_offset ((hfit _ ho).trans hsize) hn

/-- The parts of the boot parameters that they lie in, as long as the entries end within them. -/
theorem SetupStores.areas (h : SetupStores bootParams n x) (hn : n ≤ BootParams.mapRoom) :
    InSpan (bootParams + BitVec.ofNat 32 SetupHeader.setupSects) SetupHeader.size x ∨
      InSpan (bootParams + BitVec.ofNat 32 BootParams.e820Entries) 1 x ∨
      InSpan (bootEntry bootParams 0) (n * BootParams.e820EntrySize) x ∨
      InSpan bootParams BootParams.screenInfoSize x ∨
      InSpan (bootParams + BitVec.ofNat 32 BootParams.tbootSharedAddr) 8 x := by
  cases h with
  | header h => exact .inl h
  | count h => exact .inr (.inl h)
  | entry i hi h =>
    refine .inr (.inr (.inl ?_))
    unfold BootParams.mapRoom at hn
    unfold bootEntry BootParams.e820Map BootParams.e820EntrySize at *
    rw [inSpan_offset (by omega)] at h ⊢
    omega
  | screen o k ho h =>
    have hfield : ∀ f ∈ BootParams.screenStores, f.1 + f.2 ≤ BootParams.screenInfoSize ∨
        f = (BootParams.tbootSharedAddr, 8) := by decide
    rcases hfield _ ho with hlow | hlast
    · exact .inr (.inr (.inr (.inl (h.of_offset hlow (by decide)))))
    · cases hlast
      exact .inr (.inr (.inr (.inr h)))

theorem setupScreen_stores (m : Memory 32)
    (hx : ∀ o k, (o, k) ∈ BootParams.screenStores → ¬ InSpan (bootParams + BitVec.ofNat 32 o) k x) :
    setupScreen m bootParams x = m x := by
  unfold setupScreen
  rw [Memory.setField_of_not_inSpan _ _ (hx _ 8 (by decide)),
    Memory.setField_of_not_inSpan _ _ (hx _ 2 (by decide)),
    Memory.setField_of_not_inSpan _ _ (hx _ 1 (by decide)),
    Memory.setField_of_not_inSpan _ _ (hx _ 1 (by decide)),
    Memory.setField_of_not_inSpan _ _ (hx _ 2 (by decide)),
    Memory.setField_of_not_inSpan _ _ (hx _ 1 (by decide)),
    Memory.setField_of_not_inSpan _ _ (hx _ 1 (by decide)),
    Memory.setField_of_not_inSpan _ _ (hx _ 1 (by decide))]

/-- Beside these bytes a success changes nothing. -/
theorem setupBootParams_stores {m' : Memory 32} (h : setupBootParams m mbi bootParams hdr = (m', true))
    (hx : ¬ SetupStores bootParams (bootRounds (m.copy
      (bootParams + BitVec.ofNat 32 SetupHeader.setupSects)
      (hdr + BitVec.ofNat 32 SetupHeader.setupSects) SetupHeader.size) mbi bootParams) x) :
    m' x = m x := by
  unfold setupBootParams at h
  unfold bootRounds at hx
  dsimp only at h
  have hcopy : m.copy (bootParams + BitVec.ofNat 32 SetupHeader.setupSects)
      (hdr + BitVec.ofNat 32 SetupHeader.setupSects) SetupHeader.size x = m x :=
    Memory.copy_of_not_inSpan _ _ fun hin => hx (.header hin)
  generalize m.copy _ _ _ = m₁ at h hx hcopy
  split at h
  next => cases h
  next =>
    cases h
    rw [setupScreen_stores _ fun o k ho hin => hx (.screen o k ho hin),
      Memory.setField_of_not_inSpan _ _ fun hin => hx (.count hin),
      bootMapLoop_stores rfl fun i hi hin => hx (.entry i hi hin), hcopy]

/-- The header arrives in the boot parameters with any map. -/
theorem setupBootParams_header (hap : Apart bootParams BootParams.size hdr
      SetupHeader.kernelHeaderSize) {m' : Memory 32}
    (h : setupBootParams m mbi bootParams hdr = (m', true)) :
    Memory.Same m' (bootParams + BitVec.ofNat 32 SetupHeader.setupSects) m
      (hdr + BitVec.ofNat 32 SetupHeader.setupSects) SetupHeader.size := by
  intro k hk
  have hx : InSpan (bootParams + BitVec.ofNat 32 SetupHeader.setupSects) SetupHeader.size
      (bootParams + BitVec.ofNat 32 SetupHeader.setupSects + BitVec.ofNat 32 k) :=
    (inSpan_add_ofNat (hk.trans (by decide))).mpr hk
  have hoffset := hx
  rw [inSpan_offset (by decide)] at hoffset
  change 497 ≤ _ ∧ _ < 612 at hoffset
  unfold setupBootParams at h
  dsimp only at h
  split at h
  next => cases h
  next =>
    cases h
    rw [setupScreen_behind _ (by decide) (by decide) hx, Memory.setField_of_not_inSpan,
      bootMapLoop_low _ (hoffset.2.trans (by decide))]
    · apply Memory.copy_apply _ (by decide) _ hk
      right
      intro hin
      exact hap _ ((inSpan_self.mpr (by decide) : InSpan _ SetupHeader.size _).of_offset
        (by decide) (by decide)) (hin.of_offset (by decide) (by decide))
    · rw [inSpan_offset (by decide)]
      unfold BootParams.e820Entries
      omega

end loop

section lists
variable {bootParams mbi hdr mmap : BitVec 32} {m : Memory 32} {i n : ℕ} {s : Memory 32 × ℕ}

/-- The entries up to `n` lie in the span for `n` records. -/
theorem bootEntry_in_span (hi : i < n) (hn : BootParams.span n ≤ 2 ^ 32) {x : BitVec 32}
    (hx : InSpan (bootEntry bootParams i) BootParams.e820EntrySize x) :
    InSpan bootParams (BootParams.span n) x := by
  apply hx.of_offset _ hn
  unfold BootParams.span BootParams.e820EntrySize
  omega

theorem bootEntry_beside {j : ℕ} (hij : i < j) (hj : j < n) (hn : BootParams.span n ≤ 2 ^ 32) :
    Apart (bootEntry bootParams i) BootParams.e820EntrySize (bootEntry bootParams j)
      BootParams.e820EntrySize := by
  unfold BootParams.span at hn
  unfold bootEntry BootParams.e820EntrySize at *
  apply apart_offset
  · omega
  · omega
  · omega

/-- The state before the record `i`, however far the entries reach. -/
structure Listing (bootParams mmap : BitVec 32) (m : Memory 32) (n i : ℕ) (s : Memory 32 × ℕ) :
    Prop where
  idx : s.2 = i
  stored : ∀ k < i, readBootEntry s.1 (bootEntry bootParams k) =
    (readMap m (mapEntry mmap k)).toBootEntry
  frame : ∀ x, ¬ InSpan bootParams (BootParams.span n) x → s.1 x = m x

theorem Listing.step (h : Listing bootParams mmap m n i s) (hi : i < n)
    (hn : BootParams.span n ≤ 2 ^ 32)
    (hap : Apart bootParams (BootParams.span n) (mapEntry mmap i) memoryMapSize) :
    ∃ t, bootMapStep bootParams mmap i s = .next t ∧ Listing bootParams mmap m n (i + 1) t := by
  obtain ⟨m', hm, hframe, hentry⟩ := bootMapStep_spec
    (fun x hx => hap x (bootEntry_in_span hi hn hx)) s
  refine ⟨_, hm, rfl, ?_, ?_⟩
  · intro k hk
    rcases Nat.lt_succ_iff_lt_or_eq.mp hk with hlt | rfl
    · rw [← h.stored k hlt]
      apply readBootEntry_congr
      apply Memory.Same.of_unchanged _ (by decide)
      exact fun x hx => hframe x (bootEntry_beside hlt hi hn x hx)
    · have hsame : Memory.Same s.1 (mapEntry mmap k) m (mapEntry mmap k) memoryMapSize := by
        apply Memory.Same.of_unchanged _ (by decide)
        exact fun x hx => h.frame x fun hin => hap x hin hx
      rw [← readMap_congr hsame]
      exact hentry
  · intro x hx
    exact (hframe x fun hin => hx (bootEntry_in_span hi hn hin)).trans (h.frame x hx)

/-- The count and the screen are stored before the entries. -/
theorem readBootEntry_last (u : Memory 32) (v : BitVec 8) (hi : i < n)
    (hn : BootParams.span n ≤ 2 ^ 32) :
    readBootEntry (setupScreen (u.setField bootParams BootParams.e820Entries v) bootParams)
      (bootEntry bootParams i) = readBootEntry u (bootEntry bootParams i) := by
  have hroom : BootParams.e820Map + i * BootParams.e820EntrySize + BootParams.e820EntrySize ≤
      2 ^ 32 := by
    unfold BootParams.span BootParams.e820EntrySize at *
    omega
  apply readBootEntry_congr
  apply Memory.Same.of_unchanged _ (by decide)
  intro x hx
  unfold bootEntry at hx
  rw [setupScreen_behind _ (le_trans (by decide) (Nat.le_add_right _ _)) hroom hx]
  apply Memory.setField_of_not_inSpan
  rw [inSpan_offset hroom] at hx
  rw [inSpan_offset (by decide)]
  unfold BootParams.e820Entries
  unfold BootParams.e820Map at hx
  omega

/-- A success has listed a record every 24 bytes, and the count is cut to eight bits. -/
theorem setupBootParams_lists {m' : Memory 32}
    (hinfo : Apart bootParams (BootParams.span n) mbi MultibootInfo.span)
    (hn : BootParams.span n ≤ 2 ^ 32)
    (hlength : (MultibootInfo.mmapLength m mbi).toNat / memoryMapSize = n)
    (hap : ∀ i < n, Apart bootParams (BootParams.span n)
      (mapEntry (MultibootInfo.mmapAddr m mbi) i) memoryMapSize)
    (h : setupBootParams m mbi bootParams hdr = (m', true)) :
    m'.field 8 bootParams BootParams.e820Entries = BitVec.ofNat 8 n ∧
      ∀ i < n, readBootEntry m' (bootEntry bootParams i) =
        (readMap m (mapEntry (MultibootInfo.mmapAddr m mbi) i)).toBootEntry := by
  have hcopy : ∀ x, ¬ InSpan bootParams (BootParams.span n) x →
      m.copy (bootParams + BitVec.ofNat 32 SetupHeader.setupSects)
        (hdr + BitVec.ofNat 32 SetupHeader.setupSects) SetupHeader.size x = m x := by
    intro x hx
    apply Memory.copy_of_not_inSpan
    exact fun hin => hx (hin.of_offset (le_trans (by decide) (le_max_left _ _)) hn)
  unfold setupBootParams at h
  dsimp only at h
  generalize m.copy _ _ _ = m₁ at hcopy h
  have hkept : Memory.Same m₁ mbi m mbi MultibootInfo.span :=
    Memory.Same.of_unchanged (fun x hx => hcopy x (hinfo.symm x hx)) (by decide)
  have haddr : MultibootInfo.mmapAddr m₁ mbi = MultibootInfo.mmapAddr m mbi :=
    Memory.field_congr hkept (by decide)
  have hlength₁ : MultibootInfo.mmapLength m₁ mbi = MultibootInfo.mmapLength m mbi :=
    Memory.field_congr hkept (by decide)
  rw [← hlength₁] at hlength
  rw [haddr] at h
  have h0 : Listing bootParams (MultibootInfo.mmapAddr m mbi) m₁ n 0 (m₁, 0) :=
    ⟨rfl, fun k hk => absurd hk (Nat.not_lt_zero k), fun _ _ => rfl⟩
  obtain ⟨t, hrun, ht⟩ := bootMapLoop_next hinfo hlength (fun _ _ hs => hs.frame)
    (fun i s hi hs => hs.step hi hn (hap i hi)) h0
  unfold bootMapLoop at hrun
  rw [hrun] at h
  split at h
  next => cases h
  next =>
    cases h
    dsimp only [Outcome.state]
    constructor
    · rw [Memory.field_of_unchanged (fun x hx => setupScreen_behind _ (by decide) (by decide) hx)
        (by decide), ht.idx]
      exact Memory.field_setField _ _ _ _ (by decide) (by decide)
    · intro i hi
      have hread : readMap m₁ (mapEntry (MultibootInfo.mmapAddr m mbi) i) =
          readMap m (mapEntry (MultibootInfo.mmapAddr m mbi) i) := by
        apply readMap_congr
        apply Memory.Same.of_unchanged _ (by decide)
        exact fun x hx => hcopy x ((hap i hi).symm x hx)
      rw [readBootEntry_last _ _ hi hn, ht.stored i hi, hread]

end lists

/-- `boot_params` lies apart from what is read: the information, the map and the header. -/
structure BootInput (m : Memory 32) (mbi bootParams hdr : BitVec 32) : Prop where
  flags : MultibootInfo.flags m mbi &&& MBI_MEMMAP ≠ 0
  infoOutside : Apart bootParams BootParams.size mbi MultibootInfo.span
  mapOutside : Apart bootParams BootParams.size (MultibootInfo.mmapAddr m mbi)
    (MultibootInfo.mmapLength m mbi).toNat
  headerOutside : Apart bootParams BootParams.size hdr SetupHeader.kernelHeaderSize

section faithful
variable {m : Memory 32} {mbi bootParams hdr : BitVec 32}

theorem getElem?_recordsOf {i : ℕ} (hi : i < (recordsOf m mbi).length) :
    (recordsOf m mbi)[i]? = some (readMap m (mapEntry (MultibootInfo.mmapAddr m mbi) i)) := by
  unfold recordsOf at hi ⊢
  rw [List.length_map, List.length_range] at hi
  simp [hi]

theorem BootInput.recordOutside (h : BootInput m mbi bootParams hdr) {i : ℕ}
    (hi : i < (recordsOf m mbi).length) : Apart bootParams BootParams.size
      (mapEntry (MultibootInfo.mmapAddr m mbi) i) memoryMapSize := by
  rw [length_recordsOf] at hi
  apply h.mapOutside.part
  rw [← Nat.succ_mul]
  exact (Nat.mul_le_mul_right _ hi).trans (Nat.div_mul_le_self _ _)

/-- What is stored, also where the array has no entries any more. -/
structure BootMapStored (m : Memory 32) (mbi bootParams hdr : BitVec 32) (m' : Memory 32) :
    Prop where
  count : m'.field 8 bootParams BootParams.e820Entries = BitVec.ofNat 8 (recordsOf m mbi).length
  entries : ∀ i < (recordsOf m mbi).length, readBootEntry m' (bootEntry bootParams i) =
    (readMap m (mapEntry (MultibootInfo.mmapAddr m mbi) i)).toBootEntry
  header : Memory.Same m' (bootParams + BitVec.ofNat 32 SetupHeader.setupSects) m
    (hdr + BitVec.ofNat 32 SetupHeader.setupSects) SetupHeader.size
  frame : ∀ x, ¬ InSpan (bootParams + BitVec.ofNat 32 SetupHeader.setupSects) SetupHeader.size x →
    ¬ InSpan (bootParams + BitVec.ofNat 32 BootParams.e820Entries) 1 x →
    ¬ InSpan (bootEntry bootParams 0) ((recordsOf m mbi).length * BootParams.e820EntrySize) x →
    ¬ InSpan bootParams BootParams.screenInfoSize x →
    ¬ InSpan (bootParams + BitVec.ofNat 32 BootParams.tbootSharedAddr) 8 x → m' x = m x

/-- With a map the boot parameters are set up. -/
theorem setupBootParams_succeeds (hflags : MultibootInfo.flags (m.copy
      (bootParams + BitVec.ofNat 32 SetupHeader.setupSects)
      (hdr + BitVec.ofNat 32 SetupHeader.setupSects) SetupHeader.size) mbi &&& MBI_MEMMAP ≠ 0) :
    ∃ m', setupBootParams m mbi bootParams hdr = (m', true) := by
  unfold setupBootParams
  dsimp only
  rw [if_neg hflags]
  exact ⟨_, rfl⟩

/-- What `setup_boot_params` does with a map whose entries end within the boot parameters. -/
theorem setupBootParams_stored (h : BootInput m mbi bootParams hdr)
    (hroom : (recordsOf m mbi).length ≤ BootParams.mapRoom) :
    ∃ m', setupBootParams m mbi bootParams hdr = (m', true) ∧
      BootMapStored m mbi bootParams hdr m' := by
  have hspan := BootParams.span_mapRoom hroom
  have hfit : BootParams.span (recordsOf m mbi).length ≤ 2 ^ 32 := by
    rw [hspan]
    decide
  have hinfo : Apart bootParams (BootParams.span (recordsOf m mbi).length) mbi MultibootInfo.span := by
    rw [hspan]
    exact h.infoOutside
  have hlength : (MultibootInfo.mmapLength m mbi).toNat / memoryMapSize = (recordsOf m mbi).length :=
    (length_recordsOf m mbi).symm
  -- the copy of the header misses the information
  have hcopied : Memory.Same (m.copy (bootParams + BitVec.ofNat 32 SetupHeader.setupSects)
      (hdr + BitVec.ofNat 32 SetupHeader.setupSects) SetupHeader.size) mbi m mbi
        MultibootInfo.span := by
    apply Memory.Same.of_unchanged _ (by decide)
    intro x hx
    apply Memory.copy_of_not_inSpan
    exact fun hin => h.infoOutside x (hin.of_offset (by decide) (by decide)) hx
  have hflags : MultibootInfo.flags (m.copy (bootParams + BitVec.ofNat 32 SetupHeader.setupSects)
      (hdr + BitVec.ofNat 32 SetupHeader.setupSects) SetupHeader.size) mbi =
        MultibootInfo.flags m mbi := Memory.field_congr hcopied (by decide)
  have hcopiedLength : MultibootInfo.mmapLength (m.copy
      (bootParams + BitVec.ofNat 32 SetupHeader.setupSects)
      (hdr + BitVec.ofNat 32 SetupHeader.setupSects) SetupHeader.size) mbi =
        MultibootInfo.mmapLength m mbi := Memory.field_congr hcopied (by decide)
  obtain ⟨m', heq⟩ := setupBootParams_succeeds (hflags.symm ▸ h.flags)
  obtain ⟨hcount, hentries⟩ := setupBootParams_lists hinfo hfit hlength
    (fun i hi => hspan.symm ▸ h.recordOutside hi) heq
  refine ⟨m', heq, hcount, hentries, setupBootParams_header h.headerOutside heq, ?_⟩
  intro x hheader hnumber hmap hscreen htboot
  apply setupBootParams_stores heq
  rw [bootRounds_eq hinfo (hcopiedLength ▸ hlength)]
  intro hin
  rcases hin.areas hroom with hin | hin | hin | hin | hin
  · exact hheader hin
  · exact hnumber hin
  · exact hmap hin
  · exact hscreen hin
  · exact htboot hin

/-- The map is handed on exactly if the array has room for it. -/
theorem setupBootParams_faithful_iff (h : BootInput m mbi bootParams hdr) :
    (∃ m', setupBootParams m mbi bootParams hdr = (m', true) ∧
        BootMapFaithful m mbi bootParams hdr m') ↔
      (recordsOf m mbi).length ≤ BootParams.E820MAX := by
  constructor
  · rintro ⟨m', _, hf⟩
    by_contra hgt
    have hlast := hf.entries BootParams.E820MAX (by rw [hf.count]; exact Nat.lt_of_not_le hgt)
    exact absurd hlast.1 (lt_irrefl _)
  · intro hroom
    have hnat : (BitVec.ofNat 8 (recordsOf m mbi).length).toNat = (recordsOf m mbi).length := by
      apply toNat_ofNat_of_lt
      unfold BootParams.E820MAX at hroom
      omega
    obtain ⟨m', heq, hs⟩ := setupBootParams_stored h (hroom.trans (by decide))
    refine ⟨m', heq, ?_, ?_, hs.header, ?_⟩
    · rw [hs.count, hnat]
    · rw [hs.count, hnat]
      intro i hi
      rw [hs.entries i hi, getElem?_recordsOf hi]
      exact ⟨Nat.lt_of_lt_of_le hi hroom, rfl⟩
    · rw [hs.count, hnat]
      exact hs.frame

end faithful

/-- A map of `n` records at 0x1000, of which the one with the index 128 is AVAILABLE. -/
def longMapMem (n : ℕ) : Memory 32 :=
  let mem : Memory 32 := fun _ => 0
  let mem := mem.setField 0x100 0 MBI_MEMMAP
  let mem := mem.setField 0x100 44 (BitVec.ofNat 32 (n * memoryMapSize))
  let mem := mem.setField 0x100 48 (0x1000 : BitVec 32)
  mem.setField (mapEntry 0x1000 128) 20 MULTIBOOT_MEMORY_AVAILABLE

theorem bootInput_longMap {n : ℕ} (hn : n = 128 ∨ n = 129) :
    BootInput (longMapMem n) 0x100 0x8000 0x4000 ∧ (recordsOf (longMapMem n) 0x100).length = n := by
  have hflags : MultibootInfo.flags (longMapMem n) 0x100 = MBI_MEMMAP := by
    rcases hn with rfl | rfl <;> decide +kernel
  have haddr : MultibootInfo.mmapAddr (longMapMem n) 0x100 = 0x1000 := by
    rcases hn with rfl | rfl <;> decide +kernel
  have hlength : (MultibootInfo.mmapLength (longMapMem n) 0x100).toNat = n * memoryMapSize := by
    rcases hn with rfl | rfl <;> decide +kernel
  refine ⟨⟨?_, ?_, ?_, ?_⟩, ?_⟩
  · rw [hflags]
    decide
  · exact (apart_of_le (by decide) (by decide)).symm
  · rw [haddr, hlength]
    apply (apart_of_le _ (by decide)).symm
    rcases hn with rfl | rfl <;> decide
  · exact (apart_of_le (by decide) (by decide)).symm
  · rw [length_recordsOf, hlength, Nat.mul_div_cancel _ (by decide)]

/-- A map of as many records as the array has entries. -/
theorem setupBootParams_faithful_iff_full :
    (∃ m', setupBootParams (longMapMem 128) 0x100 0x8000 0x4000 = (m', true) ∧
        BootMapFaithful (longMapMem 128) 0x100 0x8000 0x4000 m') ↔
      (recordsOf (longMapMem 128) 0x100).length ≤ BootParams.E820MAX :=
  setupBootParams_faithful_iff (bootInput_longMap (.inl rfl)).1

/-- One more record is stored behind the array. -/
theorem setupBootParams_overfull :
    BootInput (longMapMem 129) 0x100 0x8000 0x4000 ∧
      ∃ m', setupBootParams (longMapMem 129) 0x100 0x8000 0x4000 = (m', true) ∧
        ¬ BootMapFaithful (longMapMem 129) 0x100 0x8000 0x4000 m' ∧
        readBootEntry (longMapMem 129) (bootEntry 0x8000 BootParams.E820MAX) = ⟨0, 0, 0⟩ ∧
        readBootEntry m' (bootEntry 0x8000 BootParams.E820MAX) =
          ⟨0, 0, MULTIBOOT_MEMORY_AVAILABLE⟩ := by
  obtain ⟨hin, hlen⟩ := bootInput_longMap (n := 129) (.inr rfl)
  obtain ⟨m', heq, hs⟩ := setupBootParams_stored hin (by rw [hlen]; decide)
  refine ⟨hin, m', heq, ?_, by decide +kernel, ?_⟩
  · intro hf
    have hlast := hf.entries BootParams.E820MAX (by rw [hf.count, hlen]; decide)
    exact absurd hlast.1 (lt_irrefl _)
  · rw [hs.entries _ (by rw [hlen]; decide)]
    decide +kernel

end IkgtLoader
