import IkgtLoader.PreOs.Multiboot

/-! `hide_runtime_memory`: the map is copied to the heap, with the monitor's range cut out of
the record that holds it. -/
namespace IkgtLoader
open Flat

/-- `mmap->addr + mmap->len`. -/
def MemoryMap.stop (r : MemoryMap) : BitVec 64 := r.addr + r.len

/-- `hide_mem_addr + hide_mem_size`, a 32-bit sum that is compared with 64-bit addresses. -/
def hideStop (hideMemAddr hideMemSize : BitVec 32) : BitVec 64 :=
  (hideMemAddr + hideMemSize).setWidth 64

/-- The record is taken for one before or behind the range. -/
def MemoryMap.Outside (r : MemoryMap) (hideMemAddr hideMemSize : BitVec 32) : Prop :=
  r.stop ≤ hideMemAddr.setWidth 64 ∨ hideStop hideMemAddr hideMemSize ≤ r.addr

instance (r : MemoryMap) (hideMemAddr hideMemSize : BitVec 32) :
    Decidable (r.Outside hideMemAddr hideMemSize) := inferInstanceAs (Decidable (_ ∨ _))

/-- Four stores to a new record, each from the old one as it is at that moment. -/
def putEntry (mem : Memory 32) (entry mmap : BitVec 32) (addr len : MemoryMap → BitVec 64)
    (type : MemoryMap → BitVec 32) : Memory 32 :=
  let mem := mem.setField entry 0 (readMap mem mmap).size
  let mem := mem.setField entry 4 (addr (readMap mem mmap))
  let mem := mem.setField entry 12 (len (readMap mem mmap))
  mem.setField entry 20 (type (readMap mem mmap))

/-- The locals of the loop, with the memory. -/
structure Hiding where
  mem : Memory 32
  entryIdx : BitVec 32
  mmap : BitVec 32

/-- `entry_idx++` and the step to the next record, whose distance is read from this one. -/
def Hiding.advance (mem : Memory 32) (entryIdx mmap : BitVec 32) : Hiding where
  mem := mem
  entryIdx := entryIdx + 1
  mmap := mmap + (readMap mem mmap).size + 4

def hideStep (hideMemAddr hideMemSize newmmap : BitVec 32) (_ : ℕ) (s : Hiding) :
    Loop.Outcome Hiding :=
  let hideEnd := hideStop hideMemAddr hideMemSize
  if (readMap s.mem s.mmap).Outside hideMemAddr hideMemSize then
    .next (.advance (s.mem.copy (mapEntry newmmap s.entryIdx.toNat) s.mmap memoryMapSize)
      s.entryIdx s.mmap)
  else if (readMap s.mem s.mmap).type ≠ MULTIBOOT_MEMORY_AVAILABLE then .quit s
  else
    let mem := putEntry s.mem (mapEntry newmmap s.entryIdx.toNat) s.mmap MemoryMap.addr
      (fun r => hideMemAddr.setWidth 64 - r.addr) MemoryMap.type
    let mem := putEntry mem (mapEntry newmmap (s.entryIdx + 1).toNat) s.mmap
      (fun _ => hideMemAddr.setWidth 64) (fun _ => hideMemSize.setWidth 64)
      (fun _ => MULTIBOOT_MEMORY_RESERVED)
    if (readMap mem s.mmap).stop < hideEnd then .quit ⟨mem, s.entryIdx + 1, s.mmap⟩
    else if hideEnd < (readMap mem s.mmap).stop then
      .next (.advance (putEntry mem (mapEntry newmmap (s.entryIdx + 2).toNat) s.mmap
        (fun _ => hideEnd) (fun r => r.stop - hideEnd) MemoryMap.type) (s.entryIdx + 2) s.mmap)
    else .next (.advance mem (s.entryIdx + 1) s.mmap)

/-- No result means that the fuel is spent. -/
def hideRuntimeMemory (s : Machine) (mbi hideMemAddr hideMemSize : BitVec 32) (fuel : ℕ) :
    Option (Machine × Bool) :=
  if MultibootInfo.flags s.mem mbi &&& MBI_MEMMAP = 0 then some (s, false)
  else
    -- space for two more entries
    let numOfEntries := MultibootInfo.mmapLength s.mem mbi / BitVec.ofNat 32 memoryMapSize + 2
    match allocateMemory s (BitVec.ofNat 32 memoryMapSize * numOfEntries) with
    | (s, newmmap) =>
      if newmmap = NULL then some (s, false)
      else
        match Loop.run (fun _ h => h.mmap <
            MultibootInfo.mmapAddr h.mem mbi + MultibootInfo.mmapLength h.mem mbi)
          (hideStep hideMemAddr hideMemSize newmmap) fuel 0
          ⟨s.mem, 0, MultibootInfo.mmapAddr s.mem mbi⟩ with
        | .spent _ => none
        | .quit h => some ({ s with mem := h.mem }, false)
        | .next h =>
          let mem := h.mem.setField mbi 48 newmmap
          some ({ s with mem := mem.setField mbi 44 (BitVec.ofNat 32 memoryMapSize * h.entryIdx) },
            true)

/-- What one record becomes, or nothing if it is refused. -/
def hideRecord (hideMemAddr hideMemSize : BitVec 32) (r : MemoryMap) : Option (List MemoryMap) :=
  if r.Outside hideMemAddr hideMemSize then some [r]
  else if r.type ≠ MULTIBOOT_MEMORY_AVAILABLE then none
  else if r.stop < hideStop hideMemAddr hideMemSize then none
  else
    let before := { r with len := hideMemAddr.setWidth 64 - r.addr }
    let hidden := { r with
      addr := hideMemAddr.setWidth 64
      len := hideMemSize.setWidth 64
      type := MULTIBOOT_MEMORY_RESERVED }
    let behind := { r with
      addr := hideStop hideMemAddr hideMemSize
      len := r.stop - hideStop hideMemAddr hideMemSize }
    if hideStop hideMemAddr hideMemSize < r.stop then some [before, hidden, behind]
    else some [before, hidden]

/-- The records below `n` rewritten one after the other. -/
def hideRecords (hideMemAddr hideMemSize : BitVec 32) (map : ℕ → MemoryMap) :
    ℕ → Option (List MemoryMap)
  | 0 => some []
  | n + 1 =>
    match hideRecords hideMemAddr hideMemSize map n, hideRecord hideMemAddr hideMemSize (map n) with
    | some l, some pieces => some (l ++ pieces)
    | _, _ => none

/-- The range to hide, over the naturals. -/
def InRange (hideMemAddr hideMemSize : BitVec 32) (x : ℕ) : Prop :=
  hideMemAddr.toNat ≤ x ∧ x < hideMemAddr.toNat + hideMemSize.toNat

namespace MemoryMap

/-- A record that ends the rewriting: it meets the range, and it is not AVAILABLE or ends within
the range. -/
def Refused (r : MemoryMap) (hideMemAddr hideMemSize : BitVec 32) : Prop :=
  r.addr.toNat < hideMemAddr.toNat + hideMemSize.toNat ∧ hideMemAddr.toNat < r.stop.toNat ∧
    (r.type ≠ MULTIBOOT_MEMORY_AVAILABLE ∨
      r.stop.toNat < hideMemAddr.toNat + hideMemSize.toNat)

/-- An AVAILABLE record that begins within the range and ends where the range does or later, or
one that holds a part of the range and ends at the top of the 64-bit addresses. -/
def Spoils (r : MemoryMap) (hideMemAddr hideMemSize : BitVec 32) : Prop :=
  r.type = MULTIBOOT_MEMORY_AVAILABLE ∧
    r.addr.toNat < hideMemAddr.toNat + hideMemSize.toNat ∧
    (r.addr.toNat + r.len.toNat = 2 ^ 64 ∨ (hideMemAddr.toNat < r.addr.toNat ∧
      hideMemAddr.toNat + hideMemSize.toNat ≤ r.addr.toNat + r.len.toNat))

end MemoryMap

section records
variable {hideMemAddr hideMemSize : BitVec 32} {r q : MemoryMap} {l : List MemoryMap}

theorem toNat_hideStop (h : hideMemAddr.toNat + hideMemSize.toNat < 2 ^ 32) :
    (hideStop hideMemAddr hideMemSize).toNat = hideMemAddr.toNat + hideMemSize.toNat := by
  unfold hideStop
  rw [BitVec.toNat_setWidth, BitVec.toNat_add]
  omega

theorem toNat_stop (r : MemoryMap) : r.stop.toNat = (r.addr.toNat + r.len.toNat) % 2 ^ 64 :=
  BitVec.toNat_add _ _

theorem toNat_widen (x : BitVec 32) : (x.setWidth 64).toNat = x.toNat := by
  rw [BitVec.toNat_setWidth]
  omega

theorem outside_iff (h : hideMemAddr.toNat + hideMemSize.toNat < 2 ^ 32) :
    r.Outside hideMemAddr hideMemSize ↔ r.stop.toNat ≤ hideMemAddr.toNat ∨
      hideMemAddr.toNat + hideMemSize.toNat ≤ r.addr.toNat := by
  unfold MemoryMap.Outside
  rw [BitVec.le_def, BitVec.le_def, toNat_hideStop h, toNat_widen]

theorem hideRecord_eq_none (h : hideMemAddr.toNat + hideMemSize.toNat < 2 ^ 32) :
    hideRecord hideMemAddr hideMemSize r = none ↔ r.Refused hideMemAddr hideMemSize := by
  unfold hideRecord MemoryMap.Refused
  dsimp only
  split
  next ho =>
    rw [outside_iff h] at ho
    constructor
    · intro he
      cases he
    · intro hr
      omega
  next ho =>
    rw [outside_iff h] at ho
    split
    next ht =>
      exact ⟨fun _ => ⟨by omega, by omega, .inl ht⟩, fun _ => rfl⟩
    next ht =>
      split
      next hlt =>
        rw [BitVec.lt_def, toNat_hideStop h] at hlt
        exact ⟨fun _ => ⟨by omega, by omega, .inr hlt⟩, fun _ => rfl⟩
      next hge =>
        rw [BitVec.lt_def, toNat_hideStop h] at hge
        constructor
        · intro he
          split at he <;> cases he
        · intro hr
          exact absurd hr.2.2 (not_or.mpr ⟨ht, hge⟩)

/-- What a record that is not refused becomes. -/
theorem hideRecord_cases (h : hideMemAddr.toNat + hideMemSize.toNat < 2 ^ 32)
    (hr : hideRecord hideMemAddr hideMemSize r = some l) :
    (l = [r] ∧ r.Outside hideMemAddr hideMemSize) ∨
      (r.type = MULTIBOOT_MEMORY_AVAILABLE ∧ r.addr.toNat < hideMemAddr.toNat + hideMemSize.toNat ∧
        hideMemAddr.toNat < r.stop.toNat ∧
        hideMemAddr.toNat + hideMemSize.toNat ≤ r.stop.toNat ∧
        ∃ before hidden, before = { r with len := hideMemAddr.setWidth 64 - r.addr } ∧
          hidden = { r with
            addr := hideMemAddr.setWidth 64
            len := hideMemSize.setWidth 64
            type := MULTIBOOT_MEMORY_RESERVED } ∧
          ((l = [before, hidden] ∧ r.stop.toNat = hideMemAddr.toNat + hideMemSize.toNat) ∨
            ∃ behind, behind = { r with
                addr := hideStop hideMemAddr hideMemSize
                len := r.stop - hideStop hideMemAddr hideMemSize } ∧
              l = [before, hidden, behind])) := by
  unfold hideRecord at hr
  dsimp only at hr
  split at hr
  next ho =>
    left
    exact ⟨(Option.some.inj hr).symm, ho⟩
  next ho =>
    right
    rw [outside_iff h] at ho
    split at hr
    next => cases hr
    next ht =>
      split at hr
      next => cases hr
      next hge =>
        rw [BitVec.lt_def, toNat_hideStop h] at hge
        refine ⟨not_not.mp ht, by omega, by omega, by omega, _, _, rfl, rfl, ?_⟩
        split at hr
        next =>
          right
          exact ⟨_, rfl, (Option.some.inj hr).symm⟩
        next hle =>
          rw [BitVec.lt_def, toNat_hideStop h] at hle
          left
          exact ⟨(Option.some.inj hr).symm, by omega⟩

/-- Outside the range a record covers what its pieces do. -/
theorem coveredBy_hideRecord (h : hideMemAddr.toNat + hideMemSize.toNat < 2 ^ 32)
    (hw : r.addr.toNat + r.len.toNat ≤ 2 ^ 64) (hs : ¬ r.Spoils hideMemAddr hideMemSize)
    (hr : hideRecord hideMemAddr hideMemSize r = some l) {x : ℕ}
    (hx : ¬ InRange hideMemAddr hideMemSize x) (t : BitVec 32) :
    CoveredBy l t x ↔ r.type = t ∧ r.Covers x := by
  have hstop := toNat_stop r
  have hend := toNat_hideStop h
  have ha := r.addr.isLt
  have haddr := toNat_widen hideMemAddr
  have hsize := toNat_widen hideMemSize
  unfold InRange at hx
  unfold MemoryMap.Spoils at hs
  rcases hideRecord_cases h hr with ⟨rfl, _⟩ | ⟨ht, hlt, hgt, hge, before, hidden, rfl, rfl, hl⟩
  · simp only [CoveredBy, List.mem_singleton, exists_eq_left]
  · have hfit : r.addr.toNat ≤ hideMemAddr.toNat := by
      by_contra hne
      exact hs ⟨ht, hlt, .inr (by omega)⟩
    have hbefore : (hideMemAddr.setWidth 64 - r.addr).toNat =
        hideMemAddr.toNat - r.addr.toNat := by
      rw [BitVec.toNat_sub_of_le (by rw [BitVec.le_def, haddr]; exact hfit), haddr]
    rcases hl with ⟨rfl, he⟩ | ⟨behind, rfl, rfl⟩
    · have hall : r.Covers x ↔
          r.addr.toNat ≤ x ∧ x < r.addr.toNat + (hideMemAddr.toNat - r.addr.toNat) := by
        unfold MemoryMap.Covers
        omega
      simp only [CoveredBy, List.mem_cons, List.not_mem_nil, or_false, exists_eq_or_imp,
        exists_eq_left, MemoryMap.Covers, hbefore, haddr, hsize, hx, and_false]
      rw [← hall]
      exact Iff.rfl
    · have hbehind : (r.stop - hideStop hideMemAddr hideMemSize).toNat =
          r.stop.toNat - (hideMemAddr.toNat + hideMemSize.toNat) := by
        rw [BitVec.toNat_sub_of_le (by rw [BitVec.le_def, hend]; exact hge), hend]
      have hall : r.Covers x ↔
          (r.addr.toNat ≤ x ∧ x < r.addr.toNat + (hideMemAddr.toNat - r.addr.toNat)) ∨
            (hideMemAddr.toNat + hideMemSize.toNat ≤ x ∧ x < hideMemAddr.toNat +
              hideMemSize.toNat + (r.stop.toNat - (hideMemAddr.toNat + hideMemSize.toNat))) := by
        unfold MemoryMap.Covers
        omega
      simp only [CoveredBy, List.mem_cons, List.not_mem_nil, or_false, exists_eq_or_imp,
        exists_eq_left, MemoryMap.Covers, hbefore, hbehind, haddr, hsize, hend, hx, and_false,
        false_or]
      rw [← and_or_left, ← hall]
      exact Iff.rfl

/-- In the range no piece is AVAILABLE. -/
theorem not_coveredBy_hideRecord (h : hideMemAddr.toNat + hideMemSize.toNat < 2 ^ 32)
    (hw : r.addr.toNat + r.len.toNat ≤ 2 ^ 64) (hs : ¬ r.Spoils hideMemAddr hideMemSize)
    (hr : hideRecord hideMemAddr hideMemSize r = some l) {x : ℕ}
    (hx : InRange hideMemAddr hideMemSize x) : ¬ CoveredBy l MULTIBOOT_MEMORY_AVAILABLE x := by
  have hstop := toNat_stop r
  have hend := toNat_hideStop h
  have ha := r.addr.isLt
  have haddr := toNat_widen hideMemAddr
  have hav : MULTIBOOT_MEMORY_RESERVED ≠ MULTIBOOT_MEMORY_AVAILABLE := by decide
  unfold InRange at hx
  unfold MemoryMap.Spoils at hs
  rcases hideRecord_cases h hr with ⟨rfl, ho⟩ | ⟨ht, hlt, hgt, hge, before, hidden, rfl, rfl, hl⟩
  · rw [outside_iff h] at ho
    rintro ⟨q, hq, ht, hc⟩
    rw [List.mem_singleton] at hq
    subst hq
    unfold MemoryMap.Covers at hc
    apply hs
    exact ⟨ht, by omega, .inl (by omega)⟩
  · have hfit : r.addr.toNat ≤ hideMemAddr.toNat := by
      by_contra hne
      exact hs ⟨ht, hlt, .inr (by omega)⟩
    have hbefore : (hideMemAddr.setWidth 64 - r.addr).toNat =
        hideMemAddr.toNat - r.addr.toNat := by
      rw [BitVec.toNat_sub_of_le (by rw [BitVec.le_def, haddr]; exact hfit), haddr]
    rcases hl with ⟨rfl, _⟩ | ⟨behind, rfl, rfl⟩
    · simp only [CoveredBy, List.mem_cons, List.not_mem_nil, or_false, exists_eq_or_imp,
        exists_eq_left, MemoryMap.Covers, hbefore, hav, false_and]
      omega
    · simp only [CoveredBy, List.mem_cons, List.not_mem_nil, or_false, exists_eq_or_imp,
        exists_eq_left, MemoryMap.Covers, hbefore, hav, false_and, false_or, hend]
      omega

/-- The first piece of a record that spoils the rewriting is AVAILABLE in the range. -/
theorem head_of_spoils (h : hideMemAddr.toNat + hideMemSize.toNat < 2 ^ 32)
    (hpos : 0 < hideMemSize.toNat) (hw : r.addr.toNat + r.len.toNat ≤ 2 ^ 64)
    (hs : r.Spoils hideMemAddr hideMemSize) (hr : hideRecord hideMemAddr hideMemSize r = some l) :
    ∃ q rest, l = q :: rest ∧ q.type = MULTIBOOT_MEMORY_AVAILABLE ∧
      ∃ x, InRange hideMemAddr hideMemSize x ∧ q.Covers x := by
  have hstop := toNat_stop r
  have ha := r.addr.isLt
  have haddr := toNat_widen hideMemAddr
  obtain ⟨ht, hlt, hs⟩ := hs
  unfold InRange
  rcases hideRecord_cases h hr with ⟨rfl, ho⟩ | ⟨_, _, hgt, hge, before, hidden, rfl, rfl, hl⟩
  · rw [outside_iff h] at ho
    have htop : r.addr.toNat + r.len.toNat = 2 ^ 64 := by
      have hlen := r.len.isLt
      omega
    -- the last byte of the range
    refine ⟨r, [], rfl, ht, hideMemAddr.toNat + hideMemSize.toNat - 1, by omega, ?_⟩
    unfold MemoryMap.Covers
    omega
  · have hbelow : hideMemAddr.toNat < r.addr.toNat := by
      rcases hs with htop | ⟨hb, _⟩
      · omega
      · exact hb
    have hhead : ∃ rest, l = { r with len := hideMemAddr.setWidth 64 - r.addr } :: rest := by
      rcases hl with ⟨rfl, _⟩ | ⟨behind, rfl, rfl⟩
      · exact ⟨_, rfl⟩
      · exact ⟨_, rfl⟩
    obtain ⟨rest, rfl⟩ := hhead
    -- the length of the piece before the range has wrapped
    refine ⟨_, rest, rfl, ht, r.addr.toNat, by omega, ?_⟩
    unfold MemoryMap.Covers
    dsimp only
    rw [BitVec.toNat_sub, haddr]
    omega

/-- A record that spoils the rewriting leaves an AVAILABLE piece in the range. -/
theorem coveredBy_of_spoils (h : hideMemAddr.toNat + hideMemSize.toNat < 2 ^ 32)
    (hpos : 0 < hideMemSize.toNat) (hw : r.addr.toNat + r.len.toNat ≤ 2 ^ 64)
    (hs : r.Spoils hideMemAddr hideMemSize) (hr : hideRecord hideMemAddr hideMemSize r = some l) :
    ∃ x, InRange hideMemAddr hideMemSize x ∧ CoveredBy l MULTIBOOT_MEMORY_AVAILABLE x := by
  obtain ⟨q, rest, rfl, ht, x, hx, hc⟩ := head_of_spoils h hpos hw hs hr
  exact ⟨x, hx, q, List.mem_cons_self, ht, hc⟩

end records

/-- The new map hides the range: nothing in it is AVAILABLE, and beside it nothing changes. -/
structure Hides (hideMemAddr hideMemSize : BitVec 32) (old new : List MemoryMap) : Prop where
  hidden : ∀ x, InRange hideMemAddr hideMemSize x → ¬ CoveredBy new MULTIBOOT_MEMORY_AVAILABLE x
  kept : ∀ x, ¬ InRange hideMemAddr hideMemSize x → ∀ t, CoveredBy new t x ↔ CoveredBy old t x

section maps
variable {hideMemAddr hideMemSize : BitVec 32} {map : ℕ → MemoryMap} {n : ℕ} {l : List MemoryMap}

theorem hideRecords_succ : hideRecords hideMemAddr hideMemSize map (n + 1) = some l ↔
    ∃ l' pieces, hideRecords hideMemAddr hideMemSize map n = some l' ∧
      hideRecord hideMemAddr hideMemSize (map n) = some pieces ∧ l = l' ++ pieces := by
  rw [hideRecords]
  cases hideRecords hideMemAddr hideMemSize map n with
  | none => simp
  | some l' =>
    cases hideRecord hideMemAddr hideMemSize (map n) with
    | none => simp
    | some pieces =>
      constructor
      · intro h
        exact ⟨l', pieces, rfl, rfl, (Option.some.inj h).symm⟩
      · rintro ⟨l'', pieces', h1, h2, rfl⟩
        cases h1
        cases h2
        rfl

theorem hideRecords_congr {map' : ℕ → MemoryMap} (h : ∀ i < n, map i = map' i) :
    hideRecords hideMemAddr hideMemSize map n = hideRecords hideMemAddr hideMemSize map' n := by
  induction n with
  | zero => rfl
  | succ n ih => rw [hideRecords, hideRecords, ih fun i hi => h i (by omega), h n (by omega)]

/-- The new map consists of the pieces of the records. -/
theorem coveredBy_hideRecords (hl : hideRecords hideMemAddr hideMemSize map n = some l)
    (t : BitVec 32) (x : ℕ) : CoveredBy l t x ↔
      ∃ i < n, ∃ pieces, hideRecord hideMemAddr hideMemSize (map i) = some pieces ∧
        CoveredBy pieces t x := by
  induction n generalizing l with
  | zero =>
    rw [hideRecords, Option.some.injEq] at hl
    subst hl
    simp [CoveredBy]
  | succ n ih =>
    obtain ⟨l', pieces, hl', hp, rfl⟩ := hideRecords_succ.mp hl
    have happend : CoveredBy (l' ++ pieces) t x ↔ CoveredBy l' t x ∨ CoveredBy pieces t x := by
      unfold CoveredBy
      simp only [List.mem_append, or_and_right, exists_or]
    rw [happend, ih hl']
    constructor
    · rintro (⟨i, hi, h⟩ | h)
      · exact ⟨i, by omega, h⟩
      · exact ⟨n, by omega, pieces, hp, h⟩
    · rintro ⟨i, hi, pieces', hp', h⟩
      rcases Nat.lt_succ_iff_lt_or_eq.mp hi with hlt | rfl
      · exact .inl ⟨i, hlt, pieces', hp', h⟩
      · rw [hp] at hp'
        cases hp'
        exact .inr h

theorem hideRecord_isSome (hl : hideRecords hideMemAddr hideMemSize map n = some l) {i : ℕ}
    (hi : i < n) : ∃ pieces, hideRecord hideMemAddr hideMemSize (map i) = some pieces := by
  induction n generalizing l with
  | zero => omega
  | succ n ih =>
    obtain ⟨l', pieces, hl', hp, _⟩ := hideRecords_succ.mp hl
    rcases Nat.lt_succ_iff_lt_or_eq.mp hi with hlt | rfl
    · exact ih hl' hlt
    · exact ⟨pieces, hp⟩

theorem hideRecords_eq_none : hideRecords hideMemAddr hideMemSize map n = none ↔
    ∃ i < n, hideRecord hideMemAddr hideMemSize (map i) = none := by
  induction n with
  | zero => simp [hideRecords]
  | succ n ih =>
    constructor
    · intro hn
      cases hl : hideRecords hideMemAddr hideMemSize map n with
      | none =>
        obtain ⟨i, hi, h⟩ := ih.mp hl
        exact ⟨i, by omega, h⟩
      | some l =>
        refine ⟨n, by omega, ?_⟩
        rw [hideRecords, hl] at hn
        cases hp : hideRecord hideMemAddr hideMemSize (map n) with
        | none => rfl
        | some pieces =>
          rw [hp] at hn
          cases hn
    · rintro ⟨i, hi, h⟩
      cases hl : hideRecords hideMemAddr hideMemSize map (n + 1) with
      | none => rfl
      | some l =>
        obtain ⟨pieces, hp⟩ := hideRecord_isSome hl hi
        rw [h] at hp
        cases hp

/-- The pieces keep the size of their record, so that they lie end to end. -/
theorem size_hideRecords (h : hideMemAddr.toNat + hideMemSize.toNat < 2 ^ 32)
    (hl : hideRecords hideMemAddr hideMemSize map n = some l) {k : BitVec 32}
    (hk : ∀ i < n, (map i).size = k) {q : MemoryMap} (hq : q ∈ l) : q.size = k := by
  induction n generalizing l with
  | zero =>
    rw [hideRecords, Option.some.injEq] at hl
    subst hl
    cases hq
  | succ n ih =>
    obtain ⟨l', pieces, hl', hp, rfl⟩ := hideRecords_succ.mp hl
    rcases List.mem_append.mp hq with hq | hq
    · exact ih hl' (fun i hi => hk i (by omega)) hq
    · rw [← hk n (by omega)]
      rcases hideRecord_cases h hp with ⟨rfl, _⟩ | ⟨_, _, _, _, before, hidden, rfl, rfl, hc⟩
      · rw [List.mem_singleton.mp hq]
      · rcases hc with ⟨rfl, _⟩ | ⟨behind, rfl, rfl⟩
        · simp only [List.mem_cons, List.not_mem_nil, or_false] at hq
          rcases hq with rfl | rfl <;> rfl
        · simp only [List.mem_cons, List.not_mem_nil, or_false] at hq
          rcases hq with rfl | rfl | rfl <;> rfl

/-- Records apart from each other hold the end of the range at most once. -/
theorem length_hideRecords (h : hideMemAddr.toNat + hideMemSize.toNat < 2 ^ 32)
    (hap : ∀ i < n, ∀ j < n, i ≠ j → ∀ x, (map i).Covers x → ¬ (map j).Covers x)
    (hl : hideRecords hideMemAddr hideMemSize map n = some l) :
    l.length ≤ n ∨ (l.length ≤ n + 2 ∧
      ∃ i < n, (map i).Covers (hideMemAddr.toNat + hideMemSize.toNat - 1)) := by
  induction n generalizing l with
  | zero =>
    rw [hideRecords, Option.some.injEq] at hl
    subst hl
    exact .inl le_rfl
  | succ n ih =>
    obtain ⟨l', pieces, hl', hp, rfl⟩ := hideRecords_succ.mp hl
    have hih := ih (fun i hi j hj => hap i (by omega) j (by omega)) hl'
    rw [List.length_append]
    rcases hideRecord_cases h hp with ⟨rfl, _⟩ | ⟨_, hlt, _, hge, before, hidden, _, _, hcase⟩
    · rw [List.length_singleton]
      rcases hih with hle | ⟨hle, i, hi, hc⟩
      · exact .inl (by omega)
      · exact .inr ⟨by omega, i, by omega, hc⟩
    · have hlen : pieces.length ≤ 3 := by
        rcases hcase with ⟨rfl, _⟩ | ⟨_, _, rfl⟩
        · exact Nat.le_succ 2
        · exact le_rfl
      have hcov : (map n).Covers (hideMemAddr.toNat + hideMemSize.toNat - 1) := by
        have hmod := Nat.mod_le ((map n).addr.toNat + (map n).len.toNat) (2 ^ 64)
        rw [toNat_stop] at hge
        unfold MemoryMap.Covers
        omega
      rcases hih with hle | ⟨_, i, hi, hc⟩
      · exact .inr ⟨by omega, n, by omega, hcov⟩
      · exact absurd hcov (hap i (by omega) n (by omega) (by omega) _ hc)

theorem hides_iff (h : hideMemAddr.toNat + hideMemSize.toNat < 2 ^ 32)
    (hpos : 0 < hideMemSize.toNat)
    (hw : ∀ i < n, (map i).addr.toNat + (map i).len.toNat ≤ 2 ^ 64)
    (hl : hideRecords hideMemAddr hideMemSize map n = some l) :
    Hides hideMemAddr hideMemSize ((List.range n).map map) l ↔
      ∀ i < n, ¬ (map i).Spoils hideMemAddr hideMemSize := by
  constructor
  · intro hh i hi hs
    obtain ⟨pieces, hp⟩ := hideRecord_isSome hl hi
    obtain ⟨x, hx, hc⟩ := coveredBy_of_spoils h hpos (hw i hi) hs hp
    exact hh.hidden x hx ((coveredBy_hideRecords hl _ x).mpr ⟨i, hi, pieces, hp, hc⟩)
  · intro hs
    constructor
    · intro x hx hc
      obtain ⟨i, hi, pieces, hp, hc⟩ := (coveredBy_hideRecords hl _ x).mp hc
      exact not_coveredBy_hideRecord h (hw i hi) (hs i hi) hp hx hc
    · intro x hx t
      have hold : CoveredBy ((List.range n).map map) t x ↔
          ∃ i < n, (map i).type = t ∧ (map i).Covers x := by
        unfold CoveredBy
        simp only [List.mem_map, List.mem_range, exists_exists_and_eq_and]
      rw [hold, coveredBy_hideRecords hl]
      constructor
      · rintro ⟨i, hi, pieces, hp, hc⟩
        exact ⟨i, hi, (coveredBy_hideRecord h (hw i hi) (hs i hi) hp hx t).mp hc⟩
      · rintro ⟨i, hi, hc⟩
        obtain ⟨pieces, hp⟩ := hideRecord_isSome hl hi
        exact ⟨i, hi, pieces, hp, (coveredBy_hideRecord h (hw i hi) (hs i hi) hp hx t).mpr hc⟩

end maps

end IkgtLoader
