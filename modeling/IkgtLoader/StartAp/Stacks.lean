import IkgtLoader.PreOs.Stacks
import IkgtLoader.StartAp.Progress

/-! Which stack a processor takes. `xmon_loader` counts stacks by CPUID, `startap` counts
ordinals by the answers to a broadcast, and only the two together decide who is safe. -/
namespace IkgtLoader.StartAp
open Flat Schedule

theorem loadEsp_eq {cfg : Config} {p : Init32Struct} (hp : cfg.init32 = some p) {e : BitVec 32}
    (h1 : 1 ≤ e.toNat) (h2 : e.toNat ≤ 255) : loadEsp cfg e = p.i32Esp (e.toNat - 1) := by
  have hsub : (e - 1).toNat = e.toNat - 1 := by
    rw [BitVec.toNat_sub_of_le (by rw [BitVec.le_def]; exact h1)]
    rfl
  have hoff : (8#32 + ((e - 1) <<< 2)).toNat = 8 + 4 * (e.toNat - 1) := by
    rw [BitVec.toNat_add, BitVec.toNat_shiftLeft, hsub, Nat.shiftLeft_eq, BitVec.toNat_ofNat]
    omega
  have h0 : 8#32 + ((e - 1) <<< 2) ≠ 0#32 := fun h => by
    rw [h] at hoff
    simp only [BitVec.toNat_ofNat] at hoff
    omega
  have h4 : 8#32 + ((e - 1) <<< 2) ≠ 4#32 := fun h => by
    rw [h] at hoff
    simp only [BitVec.toNat_ofNat] at hoff
    omega
  unfold loadEsp
  rw [hp]
  change p.word (8#32 + ((e - 1) <<< 2)) = _
  unfold Init32Struct.word
  rw [if_neg h0, if_neg h4, hoff]
  congr 1
  omega

/-- What the stacks of the processors in C code should be: those stored for their ordinals,
8 KB each, inside the loader heap and apart from one another. -/
structure StacksSafe (heap : Machine) (init32 : Option Init32Struct) (t : State) : Prop where
  stored : ∀ a e p, (t.ap a).ecx? = some e → (t.ap a).esp? = some p → ∃ d, init32 = some d ∧
    1 ≤ e.toNat ∧ e.toNat ≤ d.i32NumOfAps.toNat ∧ p = d.i32Esp (e.toNat - 1)
  inside : ∀ a p, (t.ap a).esp? = some p → heap.heapBase.toNat ≤ (p - 8192#32).toNat ∧
    (p - 8192#32).toNat + 8192 ≤ heap.heapTops.toNat
  apart : ∀ a b p q, a ≠ b → (t.ap a).esp? = some p → (t.ap b).esp? = some q →
    Apart (p - 8192#32) 8192 (q - 8192#32) 8192

/-- Nobody is in C code: there is nothing to check. -/
theorem StacksSafe.of_none {heap : Machine} {init32 : Option Init32Struct} {t : State}
    (h : ∀ a p, (t.ap a).esp? ≠ some p) : StacksSafe heap init32 t where
  stored a _ p _ hp := absurd hp (h a p)
  inside a p hp := absurd hp (h a p)
  apart a _ p _ _ hp _ := absurd hp (h a p)

theorem reported_of_esp {s : State} {a : BitVec 8} {p : BitVec 32}
    (h : (s.ap a).esp? = some p) : s.Reported a := fun hw => by rw [hw] at h; cases h

/-- Without an `init32` nobody ever gets a SIPI. -/
theorem sipiSent_of_none {cfg : Config} (hp : cfg.init32 = none) (sched : List Actor) :
    (run (step cfg) initial sched).sipiSent = false := by
  refine run_invariant (fun s => s.sipiSent = false) (fun s c hs _ => ?_) rfl
    (admits_of_forall (fun _ _ => trivial) initial sched)
  cases c with
  | bsp =>
    simp only [step, stepBsp, hp]
    repeat' split
    all_goals exact hs
  | ap a =>
    simp only [step]
    split
    · rw [stepAp_sipiSent]
      exact hs
    · exact hs

theorem BarrierInv.enumerated {cfg : Config} {s : State} (h : BarrierInv cfg s) {a : BitVec 8}
    (ha : (s.ap a).Released) : s.Enumerated := by
  have hr : s.Reported a := fun hw => by rw [hw] at ha; exact ha
  refine ⟨?_, .inl ?_⟩
  · cases hs : s.sipiSent with
    | true => rfl
    | false => exact absurd hr ((h.unsent hs).2 a)
  · rcases h.state (h.released a ha) with hb | hb | hb <;> rw [hb] <;> trivial

/-- Every ordinal up to the number of processors is taken to C code by some run. -/
theorem exists_ordinal {cfg : Config} (hid : ∀ a ∈ cfg.aps, a ≠ 0) {p : Init32Struct}
    (hp : cfg.init32 = some p) (hpage : p.i32LowMemoryPage ≠ 0) {i : ℕ} (h1 : 1 ≤ i)
    (hi : i ≤ cfg.aps.card) :
    ∃ t a e, Reach (step cfg) (ReportFirst cfg) initial t ∧
      t.ap a = .entered e (loadEsp cfg e) ∧ e.toNat = i := by
  obtain ⟨a₀, ha₀⟩ := Finset.card_pos.mp (show 0 < cfg.aps.card by omega)
  obtain ⟨t₀, e₀, hr₀, ht₀⟩ := exists_entered hid hp hpage ha₀
  have inv₀ := BarrierInv.of_reach hid hr₀
  have hen₀ := inv₀.enumerated (a := a₀) (by rw [ht₀]; trivial)
  have hmem : i ∈ Finset.Icc 1 cfg.aps.card := Finset.mem_Icc.mpr ⟨h1, hi⟩
  rw [← inv₀.ordinals hen₀] at hmem
  obtain ⟨a, ha, rfl⟩ := Finset.mem_image.mp hmem
  obtain ⟨t, e, hr, ht⟩ := exists_entered hid hp hpage ha
  have inv := BarrierInv.of_reach hid hr
  have hen := inv.enumerated (a := a) (by rw [ht]; trivial)
  refine ⟨t, a, e, hr, ht, ?_⟩
  -- the ordinal is the rank of the id, which is the same in both runs
  rw [inv.ordinal_eq (by rw [ht]; rfl), (inv₀.slot_eq hen₀ ha).1]
  exact count_congr fun b hb _ => iff_of_true (inv.slot_eq hen hb).2 (inv₀.slot_eq hen₀ hb).2

section setup
variable {cfg : Config} {s s' : Machine} {ebx : BitVec 32} {esp : ℕ → BitVec 32}

theorem setupInit32_some (h : setupInit32 s ebx esp = some (s', cfg.init32)) :
    (numOfAps ebx = 0 ∧ cfg.init32 = none) ∨
      (numOfAps ebx ≠ 0 ∧ ∃ d, cfg.init32 = some d ∧ d.i32LowMemoryPage ≠ 0 ∧
        d.i32NumOfAps.toNat = numOfAps ebx ∧ 0 < stackBase s ∧ stackBase s < 2 ^ 32 ∧
        ∀ i < numOfAps ebx, d.i32Esp i = BitVec.ofNat 32 (stackBase s + 8192 * (i + 1))) := by
  unfold setupInit32 at h
  split at h
  · cases h
  next s₁ esp' he =>
    obtain ⟨hesp, hne, -⟩ := allocStacks_some he
    have hinit := (Prod.mk.inj (Option.some.inj h)).2.symm
    by_cases hn : numOfAps ebx = 0
    · left
      exact ⟨hn, by simpa [hn] using hinit⟩
    · right
      rw [if_pos hn] at hinit
      have hlt := numOfAps_lt ebx
      have hz := hne 0 (by omega)
      have hbase : stackBase s % 2 ^ 32 ≠ 0 := fun hb =>
        hz (BitVec.eq_of_toNat_eq (by simpa using hb))
      have hcur := s.heapCurrent.isLt
      refine ⟨hn, _, hinit, show 0x8000#32 ≠ 0 by decide, ?_, ?_, ?_, hesp⟩
      · rw [BitVec.toNat_ofNat]
        omega
      · omega
      · unfold stackBase at hbase ⊢
        omega

/-- A stack pointer in use, in a startup with at least one stack. -/
theorem esp_eq {t : State} (hi : BarrierInv cfg t) {d : Init32Struct} (hd : cfg.init32 = some d)
    {a : BitVec 8} {p : BitVec 32} (hp : (t.ap a).esp? = some p) :
    ∃ e, (t.ap a).ecx? = some e ∧ 1 ≤ e.toNat ∧ e.toNat ≤ cfg.aps.card ∧
      p = d.i32Esp (e.toNat - 1) := by
  obtain ⟨e, he, rfl⟩ := hi.stack a p hp
  have hr := reported_of_esp hp
  have ha := hi.member a hr
  have hc := hi.ordinal_eq he
  have hle : t.count cfg (a.toNat + 1) ≤ cfg.aps.card := Finset.card_filter_le _ _
  have h255 := hi.toInv.count_le (a.toNat + 1)
  have hsucc := count_succ_of_reported ha hr
  exact ⟨e, he, by omega, by omega, loadEsp_eq hd (by omega) (by omega)⟩

/-- Enough stacks and enough room in the heap for the processors that answer. -/
def StacksSuffice (heap : Machine) (ebx : BitVec 32) (k : ℕ) : Prop :=
  k ≤ numOfAps ebx ∧ heap.heapBase.toNat ≤ stackBase heap ∧
    stackBase heap + 8192 * k ≤ heap.heapTops.toNat

theorem stacksSafe_of_suffice {t : State} (hi : BarrierInv cfg t)
    (h : setupInit32 s ebx esp = some (s', cfg.init32)) (hn : numOfAps ebx ≠ 0)
    (hs : StacksSuffice s ebx cfg.aps.card) : StacksSafe s cfg.init32 t := by
  obtain ⟨hk, hbase, htops⟩ := hs
  rcases setupInit32_some h with ⟨h0, -⟩ | ⟨-, d, hd, -, hnum, -, -, hesp⟩
  · exact absurd h0 hn
  have ht := s.heapTops.isLt
  -- the stack pointer of ordinal `e`, less the size of the stack
  have hlow : ∀ a p, (t.ap a).esp? = some p → ∃ e, (t.ap a).ecx? = some e ∧ 1 ≤ e.toNat ∧
      e.toNat ≤ cfg.aps.card ∧ p = d.i32Esp (e.toNat - 1) ∧
      (p - 8192#32).toNat = stackBase s + 8192 * (e.toNat - 1) := by
    intro a p hp
    obtain ⟨e, he, h1, h2, rfl⟩ := esp_eq hi hd hp
    refine ⟨e, he, h1, h2, rfl, ?_⟩
    rw [hesp _ (by omega), BitVec.toNat_sub, BitVec.toNat_ofNat, BitVec.toNat_ofNat]
    omega
  refine ⟨?_, ?_, ?_⟩
  · intro a e p he hp
    obtain ⟨e', he', h1, h2, hp', -⟩ := hlow a p hp
    rw [he] at he'
    cases he'
    exact ⟨d, hd, h1, by omega, hp'⟩
  · intro a p hp
    obtain ⟨e, -, h1, h2, -, hb⟩ := hlow a p hp
    omega
  · intro a b p q hab hp hq
    obtain ⟨e, he, h1, h2, -, hb⟩ := hlow a p hp
    obtain ⟨e', he', h1', h2', -, hb'⟩ := hlow b q hq
    have hne : e.toNat ≠ e'.toNat := fun heq =>
      hi.ordinal_ne hab he he' (BitVec.eq_of_toNat_eq heq)
    rcases Nat.lt_or_gt_of_ne hne with hlt | hlt
    · exact apart_of_le (by omega) (by omega)
    · exact (apart_of_le (by omega) (by omega)).symm

theorem suffice_of_stacksSafe (hid : ∀ a ∈ cfg.aps, a ≠ 0)
    (h : setupInit32 s ebx esp = some (s', cfg.init32)) (hn : numOfAps ebx ≠ 0)
    (hk : 0 < cfg.aps.card)
    (hs : ∀ t, Reach (step cfg) (ReportFirst cfg) initial t → StacksSafe s cfg.init32 t) :
    StacksSuffice s ebx cfg.aps.card := by
  rcases setupInit32_some h with ⟨h0, -⟩ | ⟨-, d, hd, hpage, hnum, hpos, hlt, hesp⟩
  · exact absurd h0 hn
  have hcard := card_aps_le cfg
  have ht := s.heapTops.isLt
  -- what a run that ends in C code with the ordinal shows
  have hone : ∀ i, 1 ≤ i → i ≤ cfg.aps.card → i ≤ numOfAps ebx ∧
      s.heapBase.toNat ≤ (stackBase s + 8192 * (i - 1)) % 2 ^ 32 ∧
      (stackBase s + 8192 * (i - 1)) % 2 ^ 32 + 8192 ≤ s.heapTops.toNat := by
    intro i h1 hi
    obtain ⟨t, a, e, hr, hta, rfl⟩ := exists_ordinal hid hd hpage h1 hi
    have hsafe := hs t hr
    obtain ⟨d', hd', -, hle, hp⟩ := hsafe.stored a e _ (by rw [hta]; rfl) (by rw [hta]; rfl)
    rw [hd] at hd'
    cases hd'
    rw [hnum] at hle
    have hin := hsafe.inside a _ (by rw [hta]; rfl)
    rw [hp, hesp _ (by omega), BitVec.toNat_sub, BitVec.toNat_ofNat, BitVec.toNat_ofNat] at hin
    refine ⟨hle, ?_⟩
    have heq : (2 ^ 32 - 8192 % 2 ^ 32 + (stackBase s + 8192 * (e.toNat - 1 + 1)) % 2 ^ 32) %
        2 ^ 32 = (stackBase s + 8192 * (e.toNat - 1)) % 2 ^ 32 := by omega
    rwa [heq] at hin
  -- no stack of these wraps, so neither does the next one
  have hup : ∀ i, i ≤ cfg.aps.card → stackBase s + 8192 * i ≤ s.heapTops.toNat ∨ i = 0 := by
    intro i
    induction i with
    | zero => exact fun _ => .inr rfl
    | succ i ih =>
      intro hi
      have hw : stackBase s + 8192 * i < 2 ^ 32 := by
        rcases ih (by omega) with hl | hz
        · exact hl.trans_lt ht
        · rwa [hz, Nat.mul_zero, Nat.add_zero]
      have ho := (hone (i + 1) (by omega) hi).2.2
      rw [Nat.add_sub_cancel, Nat.mod_eq_of_lt hw, Nat.add_assoc, ← Nat.mul_succ] at ho
      exact .inl ho
  have hfirst := (hone 1 le_rfl hk).2.1
  have hlast := hup cfg.aps.card le_rfl
  exact ⟨(hone cfg.aps.card hk le_rfl).1, by omega, by omega⟩

end setup

/-- The stacks are safe in every run exactly when none is needed, or there are enough of
them and they fit the heap. -/
theorem stacksSafe_iff (cfg : Config) (hid : ∀ a ∈ cfg.aps, a ≠ 0) (s s' : Machine)
    (ebx : BitVec 32) (esp : ℕ → BitVec 32) (h : setupInit32 s ebx esp = some (s', cfg.init32)) :
    (∀ sched, Admits (step cfg) (ReportFirst cfg) initial sched →
        StacksSafe s cfg.init32 (run (step cfg) initial sched)) ↔
      numOfAps ebx = 0 ∨ cfg.aps = ∅ ∨ StacksSuffice s ebx cfg.aps.card := by
  constructor
  · intro hs
    by_cases hn : numOfAps ebx = 0
    · exact .inl hn
    by_cases hk : cfg.aps = ∅
    · exact .inr (.inl hk)
    refine .inr (.inr (suffice_of_stacksSafe hid h hn ?_ fun t ht => ?_))
    · exact Finset.card_pos.mpr (Finset.nonempty_iff_ne_empty.mpr hk)
    · obtain ⟨sched, hadm, rfl⟩ := ht
      exact hs sched hadm
  · intro hc sched hadm
    have hi := BarrierInv.run hid hadm
    by_cases hn : numOfAps ebx = 0
    · rcases setupInit32_some h with ⟨-, hnone⟩ | ⟨h0, -⟩
      · refine .of_none fun a p hp => ?_
        exact (hi.unsent (sipiSent_of_none hnone sched)).2 a (reported_of_esp hp)
      · exact absurd hn h0
    · rcases hc with h0 | hk | hsuf
      · exact absurd h0 hn
      · refine .of_none fun a p hp => ?_
        have ha := hi.member a (reported_of_esp hp)
        rw [hk] at ha
        exact absurd ha (Finset.notMem_empty a)
      · exact stacksSafe_of_suffice hi h hn hsuf

/-- A heap of 1 MB at 16 MB, as `initialize_memory_manager` leaves it. -/
def freshHeap : Machine := initializeMemoryManager (fun _ => 0) 0x1000000 0x100000

/-- Processors 1 and 2 answer the broadcast of a loader that read `ebx`. -/
def twoAnswering (ebx : BitVec 32) : Config where
  size := 4
  aps := {1, 2}
  below_size := twoAps.below_size
  init32 := (setupInit32 freshHeap ebx fun _ => 0).elim none Prod.snd
  continueApBootFunc := 0x200000
  anyData := 0x300000

theorem setupInit32_twoAnswering (ebx : BitVec 32)
    (h : (setupInit32 freshHeap ebx fun _ => 0).isSome) :
    ∃ s', setupInit32 freshHeap ebx (fun _ => 0) = some (s', (twoAnswering ebx).init32) := by
  obtain ⟨⟨s', i⟩, he⟩ := Option.isSome_iff_exists.mp h
  refine ⟨s', he.trans ?_⟩
  unfold twoAnswering
  dsimp only
  rw [he]
  rfl

/-- With three logical processors reported there are two stacks, one for each that answers. -/
theorem stacksSafe_three_reported :
    StacksSafe freshHeap (twoAnswering 0x30000).init32
      (run (step (twoAnswering 0x30000)) initial
        (enumerateAfter [.ap 1, .ap 2] ++ boot 2)) := by
  obtain ⟨s', h⟩ := setupInit32_twoAnswering 0x30000 (by decide +kernel)
  refine (stacksSafe_iff (twoAnswering 0x30000) (by decide) freshHeap s' 0x30000 _ h).mpr ?_ _
    (by decide +kernel)
  exact .inr (.inr ⟨by decide +kernel, by decide +kernel, by decide +kernel⟩)

/-- With two reported there is one stack: the second processor that answers enters C code on
the stack pointer 0 of a slot nobody filled. -/
theorem not_stacksSafe_two_reported :
    (setupInit32 freshHeap 0x20000 fun _ => 0).isSome ∧
    (run (step (twoAnswering 0x20000)) initial
        (enumerateAfter [.ap 1, .ap 2] ++ boot 2)).ap 2 = .user 2 0 0x200000 0x300000 ∧
      Admits (step (twoAnswering 0x20000)) (ReportFirst (twoAnswering 0x20000)) initial
        (enumerateAfter [.ap 1, .ap 2] ++ boot 2) ∧
      ¬ StacksSafe freshHeap (twoAnswering 0x20000).init32
        (run (step (twoAnswering 0x20000)) initial
          (enumerateAfter [.ap 1, .ap 2] ++ boot 2)) := by
  have h2 : (run (step (twoAnswering 0x20000)) initial
      (enumerateAfter [.ap 1, .ap 2] ++ boot 2)).ap 2 = .user 2 0 0x200000 0x300000 := by
    decide +kernel
  refine ⟨by decide +kernel, h2, by decide +kernel, fun hs => ?_⟩
  have hin := (hs.inside 2 0 (by rw [h2]; rfl)).2
  exact absurd hin (by decide +kernel)

end IkgtLoader.StartAp
