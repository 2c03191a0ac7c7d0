import IkgtLoader.PreOs.Gdt64
import IkgtLoader.PreOs.Stacks
import IkgtLoader.StartAp.LongMode

/-! What `xmon_loader` prepares for the 64-bit mode of the processors that it starts. -/
namespace IkgtLoader
open Flat Loop StartAp

/-- `init64`, as `xmon_loader` fills it. -/
def setupInit64 (s : Machine) (gdtr32 : Gdtr) (cr3ForX64 : BitVec 32) : Option (Machine × Init64Struct) :=
  match x32Gdt64Setup s gdtr32 with
  | none => none
  | some (s, g) =>
    match x32Pt64SetupPaging s cr3ForX64 (1024 * 4 * 0x100000) with
    | none => none
    | some (s, cr3) =>
      let gdtr := x32Gdt64GetGdtr g
      some (s, { i64Cs := x32Gdt64GetCs g, i64Gdtr := ⟨gdtr.limit, gdtr.base⟩, i64Efer := 0,
                 i64Cr3 := x32Pt64GetCr3 cr3 })

theorem setupInit64_efer {s t : Machine} {gdtr32 : Gdtr} {cr3 : BitVec 32} {d : Init64Struct}
    (h : setupInit64 s gdtr32 cr3 = some (t, d)) : d.i64Efer = 0 := by
  unfold setupInit64 at h
  split at h
  next => cases h
  next =>
    dsimp only at h
    split at h
    next => cases h
    next =>
      cases h
      rfl

section frame
variable {s t u : Machine} {m : Memory 32} {k : ℕ} {page x : BitVec 32}

theorem HeapAt.allocTable_eq (h : HeapAt s k t) (ha : allocTable t = some (u, page)) :
    page = pageAt s k ∧ HeapAt s (k + 1) u ∧
      ∀ x, ¬ InSpan (pageAt s k) PageTable.tableSize x → u.mem x = t.mem x := by
  have hserved : (monPageAlloc t 1).2 ≠ NULL := by
    unfold allocTable at ha
    intro hnull
    dsimp only at ha
    rw [if_pos hnull] at ha
    cases ha
  obtain ⟨v, hv, hheap, -, hframe⟩ := allocTable_served h hserved
  rw [hv] at ha
  cases ha
  exact ⟨rfl, hheap, hframe⟩

theorem fillPd_frame (pdTable address : BitVec 32) (hx : ¬ InSpan pdTable PageTable.tableSize x) :
    (fillPd m pdTable address).1 x = m x := by
  unfold fillPd
  refine run_state (fun r : Memory 32 × BitVec 32 => r.1 x = m x) (fun i r hi hr => ?_) rfl
  exact (putPde_frame hi hx).trans hr

/-- One round of the outer loop goes on to the next page and writes in its two pages only. -/
theorem pdptStep_frame {i : ℕ} (hi : i < 4) {r r' : Machine × BitVec 32} (h : HeapAt s (2 + i) r.1)
    (hr : pdptStep (pageAt s 1) i r = .next r') : HeapAt s (2 + (i + 1)) r'.1 ∧
      ∀ x, (∀ k < 6, ¬ InSpan (pageAt s k) PageTable.tableSize x) → r'.1.mem x = r.1.mem x := by
  obtain ⟨m, hm⟩ : ∃ m, putTableFlags r.1.mem (pageAt s 1) i = m := ⟨_, rfl⟩
  unfold pdptStep at hr
  dsimp only at hr
  rw [hm] at hr
  split at hr
  next => cases hr
  next v page halloc =>
    obtain ⟨rfl, hheap, hframe⟩ := (h.of_mem m).allocTable_eq halloc
    obtain ⟨m', hm'⟩ : ∃ m', putLo v.mem (pageAt s 1) i TableLo.baseAddressLo
      (pageAt s (2 + i) >>> 12) = m' := ⟨_, rfl⟩
    rw [hm'] at hr
    have hfill : ∀ x, ¬ InSpan (pageAt s (2 + i)) PageTable.tableSize x →
        (fillPd m' (pageAt s (2 + i)) r.2).1 x = m' x := fun x hx => fillPd_frame _ _ hx
    obtain ⟨f, hf⟩ : ∃ f, fillPd m' (pageAt s (2 + i)) r.2 = f := ⟨_, rfl⟩
    rw [hf] at hr hfill
    cases hr
    refine ⟨hheap.of_mem _, fun x hx => ?_⟩
    have hpdpt := hx 1 (by decide)
    have hpd := hx (2 + i) (by omega)
    calc f.1 x = m' x := hfill x hpd
      _ = v.mem x := by rw [← hm', putLo_frame (by omega) hpdpt]
      _ = m x := hframe x hpd
      _ = r.1.mem x := by rw [← hm, putTableFlags_frame (by omega) hpdpt]

theorem pdptLoop_frame {r r' : Machine × BitVec 32} (h : HeapAt s 2 r.1)
    (hr : run (fun i _ => i < 4) (pdptStep (pageAt s 1)) 4 0 r = .next r')
    (hx : ∀ k < 6, ¬ InSpan (pageAt s k) PageTable.tableSize x) : r'.1.mem x = r.1.mem x := by
  let I : ℕ → Machine × BitVec 32 → Prop := fun i q => HeapAt s (2 + i) q.1 ∧ q.1.mem x = r.1.mem x
  have hbody : ∀ i q q', I i q → i < 4 → pdptStep (pageAt s 1) i q = .next q' → I (i + 1) q' := by
    intro i q q' hq hi hstep
    obtain ⟨hheap, hsame⟩ := pdptStep_frame hi hq.1 hstep
    exact ⟨hheap, (hsame x hx).trans hq.2⟩
  have hinit : I 0 r := ⟨h, rfl⟩
  exact (throughout_of_invariant I hinit (fun i q hq => hq.2) hbody).run hr

/-- The tables are written in their six pages only. -/
theorem x32Pt64SetupPaging_frame {cr3 lo : BitVec 32} {memorySize : BitVec 64}
    (h : x32Pt64SetupPaging s cr3 memorySize = some (t, lo))
    (hx : ∀ k < 6, ¬ InSpan (pageAt s k) PageTable.tableSize x) : t.mem x = s.mem x := by
  unfold x32Pt64SetupPaging at h
  split at h
  next => cases h
  next u pml4 hu =>
    obtain ⟨rfl, hheap, hframe⟩ := (HeapAt.zero s).allocTable_eq hu
    dsimp only at h
    split at h
    next => cases h
    next v pdpt hv =>
      obtain ⟨rfl, hheap', hframe'⟩ := hheap.allocTable_eq hv
      obtain ⟨m, hm⟩ : ∃ m, putTableFlags (putLo v.mem (pageAt s 0) 0 TableLo.baseAddressLo
        (pageAt s (0 + 1) >>> 12)) (pageAt s 0) 0 = m := ⟨_, rfl⟩
      rw [hm] at h
      split at h
      next r hrun =>
        cases h
        calc t.mem x = m x := pdptLoop_frame (hheap'.of_mem m) hrun hx
          _ = putLo v.mem (pageAt s 0) 0 TableLo.baseAddressLo (pageAt s (0 + 1) >>> 12) x := by
            rw [← hm, putTableFlags_frame (by decide) (hx 0 (by decide))]
          _ = v.mem x := putLo_frame (by decide) (hx 0 (by decide))
          _ = u.mem x := hframe' x (hx 1 (by decide))
          _ = s.mem x := hframe x (hx 0 (by decide))
      next => cases h

/-- The first pages are apart. -/
theorem pageAt_apart_of_lt (s : Machine) {j k : ℕ} (hjk : j < k) (hk : k < 0x1000) :
    Apart (pageAt s j) PageTable.tableSize (pageAt s k) PageTable.tableSize := by
  unfold pageAt PageTable.tableSize
  exact apart_offset (by omega) (by omega) (by omega)

/-- The heap behind the first pages. -/
theorem HeapAt.pageAt_eq {j : ℕ} (h : HeapAt s j t) (k : ℕ) : pageAt t k = pageAt s (j + k) := by
  rw [pageAt, h.next, pageAt, pageAt, add_ofNat_ofNat, Nat.add_mul]

theorem HeapAt.shift {j : ℕ} (h : HeapAt s j t) (hu : HeapAt t k u) : HeapAt s (j + k) u :=
  ⟨hu.tops.trans h.tops, hu.next.trans (h.pageAt_eq k)⟩

theorem PagesServed.behind {j n : ℕ} (hp : PagesServed s (j + n)) (h : HeapAt s j t) : PagesServed t n := by
  induction n with
  | zero => exact fun k hk => absurd hk (Nat.not_lt_zero k)
  | succ n ih =>
    have hp' : PagesServed t n := ih fun k hk => hp k (by omega)
    intro k hk
    rcases Nat.lt_succ_iff_lt_or_eq.mp hk with hlt | rfl
    · exact hp' k hlt
    · exact (h.shift (hp'.heapAt le_rfl)).alloc (hp.heapAt (by omega)) (hp (j + k) (by omega))

/-- The table is extended in its page, and the heap goes on behind this page. -/
theorem x32Gdt64Setup_page (gdtr32 : Gdtr) {n : ℕ} (hn : 2 ≤ n) (hfit : 8 * n + 16 ≤ 4096)
    (hlimit : gdtr32.limit.toNat = 8 * n - 1) (hpage : (monPageAlloc s 1).2 ≠ NULL)
    (hap : Apart gdtr32.base (8 * n) (pageAt s 0) 4096) :
    ∃ t c, c ≤ n ∧ 1 ≤ c ∧ x32Gdt64Setup s gdtr32 = some (t,
        { gdtr64 := ⟨gdtr32.limit + 16, pageAt s 0⟩, cs64 := BitVec.ofNat 16 (c * 8) }) ∧
      HeapAt s 1 t ∧ t.mem.field 64 (pageAt s 0) (8 * c) = codeHi ++ (0 : BitVec 32) := by
  obtain ⟨u, halloc, hheap, hzero, hframe⟩ := allocTable_served (HeapAt.zero s) hpage
  obtain ⟨t, hrun, hentries⟩ := x32Gdt64Setup_of_clone gdtr32 halloc
    (fun i hi => clone_entries hzero hframe hap (by omega) hi) (fun i hi => if_neg (by omega)) hn hfit
    hlimit
  obtain ⟨c, hc⟩ : ∃ c, codeIndex (clonedEntry s.mem gdtr32.base n) n = c := ⟨_, rfl⟩
  have hplace : c ≤ n ∧ 1 ≤ c := by
    rw [← hc]
    unfold codeIndex
    split <;> omega
  rw [hc] at hrun
  refine ⟨t, c, hplace.1, hplace.2, hrun, ?_, ?_⟩
  · have h := hrun
    unfold x32Gdt64Setup at h
    rw [halloc] at h
    cases (Prod.mk.inj (Option.some.inj h)).1
    exact hheap.of_mem _
  · rw [hentries c (by omega)]
    unfold extendedEntry
    rw [hc, if_pos rfl]

theorem Tables.of_frame {i : ℕ} {address : BitVec 32} (hi : i ≤ 4) (h : Tables s i t address)
    (hm : ∀ k < 6, ∀ x, InSpan (pageAt s k) PageTable.tableSize x → m x = t.mem x) :
    Tables s i { t with mem := m } address where
  heap := h.heap.of_mem m
  address := h.address
  pml4 := h.pml4.of_frame (hm 0 (by decide))
  pdpt := h.pdpt.of_frame (hm 1 (by decide))
  pd k hk := (h.pd k hk).of_frame (hm (2 + k) (by omega))

/-- What `setupInit64` gives, with the pages of the heap that it uses. -/
structure Init64At (s t : Machine) (limit : BitVec 16) (c : ℕ) (d : Init64Struct) : Prop where
  gdtr : d.i64Gdtr = ⟨limit + 16, pageAt s 0⟩
  selector : d.i64Cs = BitVec.ofNat 16 (c * 8)
  efer : d.i64Efer = 0
  code : t.mem.field 64 (pageAt s 0) (8 * c) = codeHi ++ (0 : BitVec 32)
  identity : ∀ m : Memory 32, (∀ k < 6, ∀ x, InSpan (pageAt s (1 + k)) PageTable.tableSize x →
    m x = t.mem x) → Ia32e.Identity m d.i64Cr3

theorem setupInit64_at (gdtr32 : Gdtr) (cr3 : BitVec 32) {n : ℕ} (hn : 2 ≤ n) (hfit : 8 * n + 16 ≤ 4096)
    (hlimit : gdtr32.limit.toNat = 8 * n - 1) (hp : PagesServed s 7)
    (hap : Apart gdtr32.base (8 * n) (pageAt s 0) 4096) :
    ∃ t d c, c ≤ n ∧ 1 ≤ c ∧ setupInit64 s gdtr32 cr3 = some (t, d) ∧ Init64At s t gdtr32.limit c d := by
  obtain ⟨u, c, hle, hpos, hgdt, hheap, hcode⟩ :=
    x32Gdt64Setup_page (s := s) gdtr32 hn hfit hlimit (hp 0 (by decide)) hap
  have hserved : PagesServed u 6 := PagesServed.behind (j := 1) hp hheap
  obtain ⟨t, address, htables, lo, hpt⟩ := setupPaging_tables hserved cr3 (1024 * 4 * 0x100000)
  have hrun : setupInit64 s gdtr32 cr3 = some (t, {
      i64Cs := BitVec.ofNat 16 (c * 8)
      i64Gdtr := ⟨gdtr32.limit + 16, pageAt s 0⟩
      i64Efer := 0
      i64Cr3 := Cr3Lo.baseAddressLo.set lo (pageAt u 0 >>> 12) }) := by
    unfold setupInit64
    rw [hgdt]
    dsimp only
    rw [hpt]
    rfl
  refine ⟨t, _, c, hle, hpos, hrun, rfl, rfl, rfl, ?_, fun m hm a ha => ?_⟩
  · rw [← hcode]
    refine Memory.field_congr (n := 4096) (Memory.Same.of_unchanged (fun x hx => ?_) (by decide)) (by omega)
    refine x32Pt64SetupPaging_frame hpt fun k hk hin => ?_
    rw [hheap.pageAt_eq] at hin
    exact pageAt_apart_of_lt s (by omega : 0 < 1 + k) (by omega) x hx hin
  · refine ⟨_, walk_identity (htables.of_frame le_rfl fun k hk x hx => ?_) ha, ?_, rfl⟩
    · rw [hheap.pageAt_eq] at hx
      exact hm k hk x hx
    · rw [BitVec.toNat_setWidth]
      omega

end frame

end IkgtLoader
