import IkgtLoader.StartAp.Barrier

/-! Every processor of a startup that has a low memory page can be brought to C code. -/
namespace IkgtLoader.StartAp
open Schedule

/-- The report of one processor while the bootstrap processor stalls. -/
theorem report_step {cfg : Config} {s : State} {a : BitVec 8} (hs : s.sipiSent = true) :
    (stepAp cfg s a).Reported a := by
  unfold State.Reported
  rw [stepAp_ap_self]
  unfold nextPc
  split
  next => simp [hs]
  next => split <;> simp
  all_goals simp

theorem reach_stepAp {cfg : Config} {a : BitVec 8} (ha : a ∈ cfg.aps) (s : State) :
    Reach (step cfg) (ReportFirst cfg) s (stepAp cfg s a) := by
  have h : step cfg s (.ap a) = stepAp cfg s a := if_pos ha
  rw [← h]
  exact .single fun he => by cases he

/-- All of them report, one after the other. -/
theorem reach_reported (cfg : Config) {s : State} (hb : s.bsp = .stall) (hs : s.sipiSent = true)
    (l : List (BitVec 8)) (hl : ∀ a ∈ l, a ∈ cfg.aps) :
    ∃ t, Reach (step cfg) (ReportFirst cfg) s t ∧ t.bsp = .stall ∧ t.sipiSent = true ∧
      (∀ a ∈ l, t.Reported a) ∧ ∀ a, s.Reported a → t.Reported a := by
  induction l generalizing s with
  | nil => exact ⟨s, .refl s, hb, hs, by simp, fun _ h => h⟩
  | cons a rest ih =>
    obtain ⟨t, hr, hb', hs', hall, hmono⟩ := ih (s := stepAp cfg s a) (by simpa using hb)
      (by simpa using hs) fun b hm => hl b (by simp [hm])
    refine ⟨t, (reach_stepAp (hl a (by simp)) s).trans hr, hb', hs', fun b hm => ?_,
      fun b h => hmono b (reported_stepAp h)⟩
    rcases List.mem_cons.mp hm with rfl | hm
    · exact hmono b (report_step hs)
    · exact hall b hm

section bsp
variable {cfg : Config} {s : State}

theorem bsp_allowed (hall : ∀ a ∈ cfg.aps, s.Reported a) : ReportFirst cfg s .bsp :=
  fun _ _ => hall

theorem reported_stepBsp (hall : ∀ a ∈ cfg.aps, s.Reported a) :
    ∀ a ∈ cfg.aps, (stepBsp cfg s).Reported a := by
  simpa [State.Reported] using hall

/-- The enumeration loop ends. -/
theorem reach_storeCount (hall : ∀ a ∈ cfg.aps, s.Reported a) {i : ℕ} {n : BitVec 8}
    (hb : s.bsp = .enumerate i n) :
    ∃ t m, Reach (step cfg) (ReportFirst cfg) s t ∧ t.bsp = .storeCount m ∧ t.ap = s.ap := by
  induction hk : cfg.size - i generalizing s i n with
  | zero =>
    refine ⟨stepBsp cfg s, n, .single (bsp_allowed hall), ?_, stepBsp_ap cfg s⟩
    simp [stepBsp, hb, show ¬ i < cfg.size by omega]
  | succ k ih =>
    have hnext : ∃ m, (stepBsp cfg s).bsp = .enumerate (i + 1) m := by
      simp only [stepBsp, hb, if_pos (show i < cfg.size by omega)]
      split
      · exact ⟨_, rfl⟩
      · exact ⟨_, rfl⟩
    obtain ⟨m, hm⟩ := hnext
    obtain ⟨t, m', hr, ht, hap⟩ := ih (reported_stepBsp hall) hm (by omega)
    exact ⟨t, m', (Reach.single (bsp_allowed hall)).trans hr, ht, hap.trans (stepBsp_ap cfg s)⟩

/-- With at least one ordinal handed out, the state word is set. -/
theorem reach_enumerated (hall : ∀ a ∈ cfg.aps, s.Reported a) {n : BitVec 8}
    (hb : s.bsp = .storeCount n) (hn : n ≠ 0) :
    ∃ t, Reach (step cfg) (ReportFirst cfg) s t ∧ t.mpBootstrapState = .apsEnumerated ∧
      t.ap = s.ap := by
  have hpos : 0#32 < n.setWidth 32 := by
    have : n.toNat ≠ 0 := fun hz => hn (BitVec.eq_of_toNat_eq hz)
    rw [BitVec.lt_def, BitVec.toNat_setWidth_of_le (by omega)]
    exact Nat.pos_of_ne_zero this
  let s1 := stepBsp cfg s
  let s2 := stepBsp cfg s1
  let s3 := stepBsp cfg s2
  let s4 := stepBsp cfg s3
  have b1 : s1.bsp = .launch (n.setWidth 32) := by simp [s1, stepBsp, hb]
  have b2 : s2.bsp = .setUserFunc := by simp [s2, stepBsp, b1, hpos]
  have b3 : s3.bsp = .setAnyData := by simp [s3, stepBsp, b2]
  have b4 : s4.bsp = .setState := by simp [s4, stepBsp, b3]
  have h1 := reported_stepBsp hall
  have h2 := reported_stepBsp h1
  have h3 := reported_stepBsp h2
  have h4 := reported_stepBsp h3
  refine ⟨stepBsp cfg s4, ?_, by simp [stepBsp, b4], by simp [s4, s3, s2, s1]⟩
  exact ((((Reach.single (bsp_allowed hall)).tail (bsp_allowed h1)).tail (bsp_allowed h2)).tail
    (bsp_allowed h3)).tail (bsp_allowed h4)

end bsp

/-- A processor that waits on the state word runs on to its stack. -/
theorem reach_entered {cfg : Config} {s : State} {a : BitVec 8} (ha : a ∈ cfg.aps)
    (hp : s.ap a = .waitLock1) (hs : s.mpBootstrapState = .apsEnumerated) :
    ∃ t e, Reach (step cfg) (ReportFirst cfg) s t ∧ t.ap a = .entered e (loadEsp cfg e) := by
  let s1 := stepAp cfg s a
  let s2 := stepAp cfg s1 a
  have p1 : s1.ap a = .stage2 := by simp [s1, stepAp_ap_self, nextPc, hp, hs]
  have p2 : s2.ap a = .ordered ((s1.apPresenceArray a.toNat).setWidth 32) := by
    simp [s2, stepAp_ap_self, nextPc, p1]
  refine ⟨stepAp cfg s2 a, _, ?_, by rw [stepAp_ap_self]; simp only [nextPc, p2]; rfl⟩
  exact ((reach_stepAp ha s).trans (reach_stepAp ha s1)).trans (reach_stepAp ha s2)

theorem BarrierInv.of_reach {cfg : Config} {t : State} (hid : ∀ a ∈ cfg.aps, a ≠ 0)
    (h : Reach (StartAp.step cfg) (ReportFirst cfg) initial t) : BarrierInv cfg t := by
  obtain ⟨sched, hadm, rfl⟩ := h
  exact BarrierInv.run hid hadm

theorem exists_entered {cfg : Config} (hid : ∀ a ∈ cfg.aps, a ≠ 0) {p : Init32Struct}
    (hp : cfg.init32 = some p) (hpage : p.i32LowMemoryPage ≠ 0) {a : BitVec 8} (ha : a ∈ cfg.aps) :
    ∃ t e, Reach (step cfg) (ReportFirst cfg) initial t ∧
      t.ap a = .entered e (loadEsp cfg e) := by
  have hstart : ReportFirst cfg initial .bsp := fun _ hn => absurd rfl hn
  have r0 : Reach (step cfg) (ReportFirst cfg) initial (stepBsp cfg initial) := .single hstart
  have h0 : (stepBsp cfg initial).bsp = .stall ∧ (stepBsp cfg initial).sipiSent = true := by
    simp only [stepBsp, initial, hp, if_neg hpage, and_self]
  obtain ⟨s1, r1, hb1, -, hall, -⟩ :=
    reach_reported cfg h0.1 h0.2 cfg.aps.toList (by simp)
  replace hall : ∀ b ∈ cfg.aps, s1.Reported b := by simpa using hall
  have inv1 := BarrierInv.of_reach hid (r0.trans r1)
  have hinit := inv1.state_ne (by simp [hb1]) (by simp [hb1]) (by simp [hb1])
  have hwait : s1.ap a = .waitLock1 := by
    have hnot : ¬ (s1.ap a).Released := fun hr => hinit (inv1.released a hr)
    have hrep := hall a ha
    unfold State.Reported at hrep
    cases hpc : s1.ap a <;> simp_all [ApPc.Released]
  have r2 : Reach (step cfg) (ReportFirst cfg) s1 (stepBsp cfg s1) := .single (bsp_allowed hall)
  have hall2 := reported_stepBsp hall
  have hb2 : (stepBsp cfg s1).bsp = .enumerate 1 0 := by simp [stepBsp, hb1]
  obtain ⟨s3, m, r3, hb3, hap3⟩ := reach_storeCount hall2 hb2
  have hall3 : ∀ b ∈ cfg.aps, s3.Reported b := by simpa [State.Reported, hap3] using hall2
  have inv3 := BarrierInv.of_reach hid (((r0.trans r1).trans r2).trans r3)
  have hm : m ≠ 0 := by
    rintro rfl
    have hc := inv3.counted 0 hb3
    exact absurd (Finset.card_pos.mpr ⟨a, ha⟩) (by rw [← hc]; simp)
  obtain ⟨s4, r4, hst4, hap4⟩ := reach_enumerated hall3 hb3 hm
  have hap : s4.ap a = .waitLock1 := by rw [hap4, hap3, stepBsp_ap, hwait]
  obtain ⟨t, e, r5, ht⟩ := reach_entered ha hap hst4
  exact ⟨t, e, ((((r0.trans r1).trans r2).trans r3).trans r4).trans r5, ht⟩

end IkgtLoader.StartAp
