import IkgtLoader.StartAp.Identity

/-! The barrier of `ap_procs_run`: what every processor has done by the time it returns,
when all of them report before `bsp_enumerate_aps` starts. -/
namespace IkgtLoader.StartAp

section Frame
variable (cfg : Config) (s : State) (a : BitVec 8)

@[simp] theorem stepBsp_ap : (stepBsp cfg s).ap = s.ap := by
  unfold stepBsp
  split <;> repeat' split
  all_goals rfl

@[simp] theorem stepAp_bsp : (stepAp cfg s a).bsp = s.bsp := by
  unfold stepAp
  split <;> repeat' split
  all_goals rfl

@[simp] theorem stepAp_sipiSent : (stepAp cfg s a).sipiSent = s.sipiSent := by
  unfold stepAp
  split <;> repeat' split
  all_goals rfl

@[simp] theorem stepAp_mpBootstrapState :
    (stepAp cfg s a).mpBootstrapState = s.mpBootstrapState := by
  unfold stepAp
  split <;> repeat' split
  all_goals rfl

@[simp] theorem stepAp_gApsCounter : (stepAp cfg s a).gApsCounter = s.gApsCounter := by
  unfold stepAp
  split <;> repeat' split
  all_goals rfl

@[simp] theorem stepAp_gUserFunc : (stepAp cfg s a).gUserFunc = s.gUserFunc := by
  unfold stepAp
  split <;> repeat' split
  all_goals rfl

@[simp] theorem stepAp_gAnyDataForUserFunc :
    (stepAp cfg s a).gAnyDataForUserFunc = s.gAnyDataForUserFunc := by
  unfold stepAp
  split <;> repeat' split
  all_goals rfl

theorem stepAp_ap_of_ne {b : BitVec 8} (h : b ≠ a) : (stepAp cfg s a).ap b = s.ap b := by
  unfold stepAp
  split <;> repeat' split
  all_goals first | rfl | exact setAp_ap_of_ne h

end Frame

/-- The next place of an application processor, with what it reads on the way. -/
def nextPc (cfg : Config) (s : State) (a : BitVec 8) : ApPc :=
  match s.ap a with
  | .waitSipi => if s.sipiSent then .waitLock1 else .waitSipi
  | .waitLock1 => if s.mpBootstrapState = .apsEnumerated then .stage2 else .waitLock1
  | .stage2 => .ordered ((s.apPresenceArray a.toNat).setWidth 32)
  | .ordered ecx => .entered ecx (loadEsp cfg ecx)
  | .entered ecx esp => .ready ecx esp
  | .ready ecx esp => .pushed ecx esp s.gAnyDataForUserFunc
  | .pushed ecx esp anyData => .user ecx esp s.gUserFunc anyData
  | .user ecx esp func anyData => .user ecx esp func anyData

theorem stepAp_ap_self (cfg : Config) (s : State) (a : BitVec 8) :
    (stepAp cfg s a).ap a = nextPc cfg s a := by
  unfold stepAp nextPc
  cases h : s.ap a with
  | waitSipi => dsimp only; split <;> simp_all
  | waitLock1 => dsimp only; split <;> simp_all
  | user => exact h
  | _ => simp

theorem of_nextPc_pushed {cfg : Config} {s : State} {a : BitVec 8} {e p d : BitVec 32}
    (h : nextPc cfg s a = .pushed e p d) : s.ap a = .ready e p ∧ d = s.gAnyDataForUserFunc := by
  unfold nextPc at h
  cases hp : s.ap a <;> rw [hp] at h <;> dsimp only at h <;> (repeat' split at h) <;> simp_all

theorem of_nextPc_user {cfg : Config} {s : State} {a : BitVec 8} {e p f d : BitVec 32}
    (h : nextPc cfg s a = .user e p f d) :
    (s.ap a = .pushed e p d ∧ f = s.gUserFunc) ∨ s.ap a = .user e p f d := by
  unfold nextPc at h
  cases hp : s.ap a <;> rw [hp] at h <;> dsimp only at h <;> (repeat' split at h) <;> simp_all

/-- A processor that has reported stays so. -/
theorem reported_stepAp {cfg : Config} {s : State} {a b : BitVec 8} (h : s.Reported b) :
    (stepAp cfg s a).Reported b := by
  unfold State.Reported at h ⊢
  by_cases hb : b = a
  · subst hb
    rw [stepAp_ap_self]
    unfold nextPc
    split
    next hw => exact absurd hw h
    next => split <;> simp
    all_goals simp
  · rwa [stepAp_ap_of_ne cfg s a hb]

/-- At its `lock; incl g_ready_counter`. -/
def ApPc.AtIncrement : ApPc → Prop
  | .entered .. => True
  | _ => False

instance : (pc : ApPc) → Decidable pc.AtIncrement
  | .entered .. => inferInstanceAs (Decidable True)
  | .waitSipi | .waitLock1 | .stage2 | .ordered _ | .ready .. | .pushed .. | .user .. =>
    inferInstanceAs (Decidable False)

theorem stepAp_passed (cfg : Config) (s : State) (a : BitVec 8) :
    ((stepAp cfg s a).ap a).Passed ↔ (s.ap a).Passed ∨ (s.ap a).AtIncrement := by
  rw [stepAp_ap_self]
  unfold nextPc
  split
  next h => rw [h]; split <;> simp [ApPc.Passed, ApPc.AtIncrement]
  next h => rw [h]; split <;> simp [ApPc.Passed, ApPc.AtIncrement]
  all_goals next h => rw [h]; simp [ApPc.Passed, ApPc.AtIncrement]

theorem stepAp_gReadyCounter (cfg : Config) (s : State) (a : BitVec 8) :
    (stepAp cfg s a).gReadyCounter =
      if (s.ap a).AtIncrement then s.gReadyCounter + 1 else s.gReadyCounter := by
  unfold stepAp
  split
  next h => rw [h]; split <;> simp [ApPc.AtIncrement, State.setAp]
  next h => rw [h]; split <;> simp [ApPc.AtIncrement, State.setAp]
  all_goals next h => rw [h]; simp [ApPc.AtIncrement, State.setAp]

/-- How many times a schedule takes the processor through its increment. -/
def increments (cfg : Config) (a : BitVec 8) : State → List Actor → ℕ
  | _, [] => 0
  | s, c :: rest =>
    (if c = .ap a ∧ a ∈ cfg.aps ∧ (s.ap a).AtIncrement then 1 else 0) +
      increments cfg a (step cfg s c) rest

theorem not_atIncrement_of_passed {pc : ApPc} (h : pc.Passed) : ¬ pc.AtIncrement := by
  cases pc <;> first | exact h.elim | exact id

theorem passed_step (cfg : Config) (s : State) (c : Actor) (a : BitVec 8) :
    (if c = .ap a ∧ a ∈ cfg.aps ∧ (s.ap a).AtIncrement then 1 else 0) +
      (if (s.ap a).Passed then 1 else 0) = if ((step cfg s c).ap a).Passed then 1 else 0 := by
  cases c with
  | bsp => simp [step]
  | ap b =>
    by_cases hb : b ∈ cfg.aps
    · by_cases hab : a = b
      · subst hab
        have hp := stepAp_passed cfg s a
        have hx := @not_atIncrement_of_passed (s.ap a)
        simp only [step, hb, true_and]
        by_cases h1 : (s.ap a).Passed <;> by_cases h2 : (s.ap a).AtIncrement <;> simp_all
      · have hne : ¬ (Actor.ap b = Actor.ap a) := fun he => hab (Actor.ap.inj he).symm
        simp [step, hb, stepAp_ap_of_ne cfg s b hab, hne]
    · by_cases hab : a = b
      · subst hab
        simp [step, hb]
      · have hne : ¬ (Actor.ap b = Actor.ap a) := fun he => hab (Actor.ap.inj he).symm
        simp [step, hb, hne]

/-- A processor is past its increment after exactly one of them. -/
theorem increments_add (cfg : Config) (a : BitVec 8) (s : State) (sched : List Actor) :
    increments cfg a s sched + (if (s.ap a).Passed then 1 else 0) =
      if ((Schedule.run (step cfg) s sched).ap a).Passed then 1 else 0 := by
  induction sched generalizing s with
  | nil => exact Nat.zero_add _
  | cons c rest ih =>
    have h := ih (step cfg s c)
    have hs := passed_step cfg s c a
    change _ = if ((Schedule.run (step cfg) (step cfg s c) rest).ap a).Passed then 1 else 0
    unfold increments
    omega

/-- What the user function and its data are once the state says that they are set. -/
structure UserSet (cfg : Config) (s : State) : Prop where
  func : s.mpBootstrapState = .apsEnumerated ∨ s.bsp = .setAnyData ∨ s.bsp = .setState →
    s.gUserFunc = cfg.continueApBootFunc
  data : s.mpBootstrapState = .apsEnumerated ∨ s.bsp = .setState →
    s.gAnyDataForUserFunc = cfg.anyData
  pushed : ∀ a e p d, s.ap a = .pushed e p d → d = cfg.anyData
  user : ∀ a e p f d, s.ap a = .user e p f d → f = cfg.continueApBootFunc ∧ d = cfg.anyData

theorem userSet_initial (cfg : Config) : UserSet cfg initial where
  func h := by simp [initial] at h
  data h := by simp [initial] at h
  pushed _ _ _ _ h := by cases h
  user _ _ _ _ _ h := by cases h

theorem UserSet.stepBsp {cfg : Config} {s : State} (h : UserSet cfg s) (hi : Inv cfg s) :
    UserSet cfg (stepBsp cfg s) := by
  have hst := hi.state
  have hf := h.func
  have hd := h.data
  refine ⟨?_, ?_, ?_, ?_⟩
  · cases hb : s.bsp <;> simp only [StartAp.stepBsp, hb] <;> (repeat' split) <;>
      simp_all [apIntializeEnvironment]
  · cases hb : s.bsp <;> simp only [StartAp.stepBsp, hb] <;> (repeat' split) <;>
      simp_all [apIntializeEnvironment]
  · simpa using h.pushed
  · simpa using h.user

theorem UserSet.stepAp {cfg : Config} {s : State} (h : UserSet cfg s) (hi : Inv cfg s)
    (a : BitVec 8) : UserSet cfg (stepAp cfg s a) := by
  have hrel : (s.ap a).Released → s.mpBootstrapState = .apsEnumerated := hi.released a
  refine ⟨by simpa using h.func, by simpa using h.data, ?_, ?_⟩
  · intro b e p d hb
    by_cases hba : b = a
    · subst hba
      rw [stepAp_ap_self] at hb
      obtain ⟨hp, rfl⟩ := of_nextPc_pushed hb
      exact h.data (.inl (hrel (by rw [hp]; trivial)))
    · exact h.pushed b e p d (by rwa [stepAp_ap_of_ne cfg s a hba] at hb)
  · intro b e p f d hb
    by_cases hba : b = a
    · subst hba
      rw [stepAp_ap_self] at hb
      rcases of_nextPc_user hb with ⟨hp, rfl⟩ | hp
      · exact ⟨h.func (.inl (hrel (by rw [hp]; trivial))), h.pushed b e p d hp⟩
      · exact h.user b e p f d hp
    · exact h.user b e p f d (by rwa [stepAp_ap_of_ne cfg s a hba] at hb)

/-- `g_ready_counter` counts the processors past their increment. -/
def Ready (cfg : Config) (s : State) : Prop :=
  s.gReadyCounter.toNat = (cfg.aps.filter fun a => (s.ap a).Passed).card

theorem card_aps_le (cfg : Config) : cfg.aps.card ≤ 256 := by
  have h : cfg.aps.card ≤ (Finset.range 256).card :=
    Finset.card_le_card_of_injOn BitVec.toNat
      (fun a _ => Finset.mem_coe.mpr (Finset.mem_range.mpr a.isLt))
      fun a _ b _ => BitVec.eq_of_toNat_eq
  simpa using h

theorem Ready.stepBsp {cfg : Config} {s : State} (h : Ready cfg s) (hi : Inv cfg s) :
    Ready cfg (stepBsp cfg s) := by
  unfold Ready at h ⊢
  rw [stepBsp_ap]
  by_cases hb : s.bsp = .startup
  · -- `ap_intialize_environment` clears the counter while nobody has reported
    have hnone : (cfg.aps.filter fun a => (s.ap a).Passed) = ∅ := by
      refine Finset.filter_eq_empty_iff.mpr fun a _ hp => ?_
      have hw := not_not.mp ((hi.quiet hb).2 a)
      rw [hw] at hp
      exact hp
    rw [hnone] at h ⊢
    simp only [StartAp.stepBsp, hb]
    split
    · exact h
    · split
      · exact h
      · rfl
  · rw [← h]
    congr 1
    unfold StartAp.stepBsp
    split <;> repeat' split
    all_goals first | rfl | exact absurd ‹_› hb

theorem Ready.stepAp {cfg : Config} {s : State} (h : Ready cfg s) {a : BitVec 8}
    (ha : a ∈ cfg.aps) : Ready cfg (stepAp cfg s a) := by
  unfold Ready at h ⊢
  rw [stepAp_gReadyCounter]
  by_cases hp : (s.ap a).AtIncrement
  · have he : (cfg.aps.filter fun b => ((StartAp.stepAp cfg s a).ap b).Passed) =
        insert a (cfg.aps.filter fun b => (s.ap b).Passed) := by
      ext b
      by_cases hba : b = a
      · subst hba
        simp [stepAp_passed, ha, hp]
      · simp [stepAp_ap_of_ne cfg s a hba, hba]
    have hnot : a ∉ cfg.aps.filter fun b => (s.ap b).Passed := fun hm =>
      not_atIncrement_of_passed (Finset.mem_filter.mp hm).2 hp
    have hle := (Finset.card_filter_le cfg.aps fun b => (s.ap b).Passed).trans (card_aps_le cfg)
    rw [if_pos hp, he, Finset.card_insert_of_notMem hnot, ← h, BitVec.toNat_add]
    simp only [BitVec.reduceToNat]
    omega
  · rw [if_neg hp, h]
    congr 1
    refine Finset.filter_congr fun b _ => ?_
    by_cases hba : b = a
    · subst hba
      simp [stepAp_passed, hp]
    · rw [stepAp_ap_of_ne cfg s a hba]

/-- Past `g_aps_counter = bsp_enumerate_aps()`, or on the way round it. -/
def BspPc.Counted : BspPc → Prop
  | .launch _ => True
  | .setUserFunc => True
  | .setAnyData => True
  | .setState => True
  | .waitReady => True
  | .runReturned => True
  | .startApplication => True
  | _ => False

/-- All processors report before the bootstrap processor goes on from its SIPI. -/
def ReportFirst (cfg : Config) (s : State) (c : Actor) : Prop :=
  c = .bsp → s.bsp ≠ .startup → ∀ a ∈ cfg.aps, s.Reported a

instance (cfg : Config) (s : State) (c : Actor) : Decidable (ReportFirst cfg s c) := by
  unfold ReportFirst
  infer_instance

/-- What holds along a run in which every processor reports first. A startup without a low
memory page goes straight to `launch`: it sends no SIPI and nobody reports. -/
structure Counting (cfg : Config) (s : State) : Prop where
  reported : s.bsp ≠ .startup → s.bsp ≠ .stall → (s.sipiSent = true ∨ ∀ n, s.bsp ≠ .launch n) →
    ∀ a ∈ cfg.aps, s.Reported a
  unsent : s.sipiSent = false → s.gApsCounter = 0 ∧ ∀ a, ¬ s.Reported a
  sent : ¬ s.bsp.Counted → s.bsp ≠ .startup → s.sipiSent = true
  counted : ∀ n, s.bsp = .storeCount n → n.toNat = cfg.aps.card
  counter : s.bsp.Counted → s.sipiSent = true → s.gApsCounter.toNat = cfg.aps.card
  returned : s.bsp = .runReturned → ∀ a ∈ cfg.aps, (s.ap a).Passed

theorem counting_initial (cfg : Config) : Counting cfg initial where
  reported h := absurd rfl h
  unsent _ := ⟨rfl, fun _ hr => hr rfl⟩
  sent _ h := absurd rfl h
  counted _ h := by cases h
  counter h := h.elim
  returned h := by cases h

theorem Counting.counter_eq {cfg : Config} {s : State} (h : Counting cfg s) (hc : s.bsp.Counted)
    (hl : ∀ n, s.bsp ≠ .launch n) : s.gApsCounter.toNat = cfg.aps.card := by
  cases hs : s.sipiSent with
  | true => exact h.counter hc hs
  | false =>
    obtain ⟨hz, hnone⟩ := h.unsent hs
    have hbs : s.bsp ≠ .startup := fun hb => by rw [hb] at hc; exact hc
    have hbt : s.bsp ≠ .stall := fun hb => by rw [hb] at hc; exact hc
    have hempty : cfg.aps = ∅ := Finset.eq_empty_of_forall_notMem fun a ha =>
      hnone a (h.reported hbs hbt (.inr hl) a ha)
    simp [hz, hempty]

/-- The enumeration has counted every processor once its cursor has left the array. -/
theorem count_eq_card {cfg : Config} {s : State} (h : ∀ a ∈ cfg.aps, s.Reported a) {i : ℕ}
    (hi : cfg.size ≤ i) : s.count cfg i = cfg.aps.card := by
  unfold State.count
  congr 1
  refine Finset.filter_true_of_mem fun a ha => ⟨h a ha, ?_⟩
  have := cfg.below_size a ha
  omega

theorem all_passed {cfg : Config} {s : State} (h : Ready cfg s)
    (hc : s.gReadyCounter.toNat = cfg.aps.card) : ∀ a ∈ cfg.aps, (s.ap a).Passed := by
  have he := (Finset.card_filter_eq_iff).mp (h.symm.trans hc)
  exact he

/-- The startup itself: with no low memory page nobody ever gets a SIPI. -/
theorem Counting.startup {cfg : Config} {s : State} (h : Counting cfg s) (hi : Inv cfg s)
    (hb : s.bsp = .startup) : Counting cfg (StartAp.stepBsp cfg s) := by
  obtain ⟨hsipi, hnone⟩ := hi.quiet hb
  obtain ⟨hz, _⟩ := h.unsent hsipi
  have hlaunch : ∀ n, Counting cfg { s with bsp := .launch n } := fun n => {
    reported := fun _ _ hs => by rcases hs with hs | hs <;> simp_all
    unsent := fun _ => ⟨hz, hnone⟩
    sent := fun hc => absurd trivial hc
    counted := fun _ hc => by cases hc
    counter := fun _ hs => by rw [hsipi] at hs; cases hs
    returned := fun hc => by cases hc }
  simp only [StartAp.stepBsp, hb]
  split
  · exact hlaunch 0
  · split
    · exact hlaunch (-1)
    · exact {
        reported := fun _ hc => absurd rfl hc
        unsent := fun hc => by cases hc
        sent := fun _ _ => rfl
        counted := fun _ hc => by cases hc
        counter := fun hc => hc.elim
        returned := fun hc => by cases hc }

/-- A later step of the bootstrap processor. -/
theorem Counting.setBsp {cfg : Config} {s : State} (h : Counting cfg s)
    (hall : ∀ a ∈ cfg.aps, s.Reported a) (pc : BspPc) (g : BitVec 32)
    (hz : s.sipiSent = false → g = 0) (hsent : ¬ pc.Counted → s.sipiSent = true)
    (hcounted : ∀ n, pc = .storeCount n → n.toNat = cfg.aps.card)
    (hcounter : pc.Counted → s.sipiSent = true → g.toNat = cfg.aps.card)
    (hret : pc = .runReturned → ∀ a ∈ cfg.aps, (s.ap a).Passed)
    (m : MpBootstrapState) (A : ℕ → BitVec 8) (r f d : BitVec 32) :
    Counting cfg { s with
      bsp := pc, gApsCounter := g, mpBootstrapState := m, apPresenceArray := A,
      gReadyCounter := r, gUserFunc := f, gAnyDataForUserFunc := d } where
  reported _ _ _ := hall
  unsent hs := ⟨hz hs, (h.unsent hs).2⟩
  sent hc _ := hsent hc
  counted := hcounted
  counter := hcounter
  returned := hret

theorem Counting.stepBsp {cfg : Config} {s : State} (h : Counting cfg s) (hi : Inv cfg s)
    (hready : Ready cfg s) (hg : ReportFirst cfg s .bsp) : Counting cfg (stepBsp cfg s) := by
  have hz : s.sipiSent = false → s.gApsCounter = 0 := fun hs => (h.unsent hs).1
  -- a step between two places past the counter, that does not return from `ap_procs_run`
  have hpast : ∀ pc : BspPc, s.bsp ≠ .startup → s.bsp.Counted → pc.Counted → pc ≠ .runReturned →
      ∀ m f d, Counting cfg { s with
        bsp := pc, mpBootstrapState := m, gUserFunc := f, gAnyDataForUserFunc := d } :=
    fun pc hs hc hpc hr m f d => h.setBsp (hg rfl hs) pc _ hz (fun hn => absurd hpc hn)
      (fun n he => by rw [he] at hpc; exact hpc.elim) (fun _ => h.counter hc)
      (fun he => absurd he hr) m _ _ f d
  cases hb : s.bsp with
  | startup => exact h.startup hi hb
  | stall =>
    have hall := hg rfl (by simp [hb])
    have hsent := h.sent (by rw [hb]; exact id) (by simp [hb])
    simp only [StartAp.stepBsp, hb]
    exact h.setBsp hall (.enumerate 1 0) _ hz (fun _ => hsent) (fun _ he => by cases he)
      (fun hc => hc.elim) (fun he => by cases he) _ _ _ _ _
  | enumerate i n =>
    have hall := hg rfl (by simp [hb])
    have hsent := h.sent (by rw [hb]; exact id) (by simp [hb])
    simp only [StartAp.stepBsp, hb]
    split
    · split
      · exact h.setBsp hall (.enumerate (i + 1) (n + 1)) _ hz (fun _ => hsent)
          (fun _ he => by cases he) (fun hc => hc.elim) (fun he => by cases he) _ _ _ _ _
      · exact h.setBsp hall (.enumerate (i + 1) n) _ hz (fun _ => hsent)
          (fun _ he => by cases he) (fun hc => hc.elim) (fun he => by cases he) _ _ _ _ _
    next hn =>
      refine h.setBsp hall (.storeCount n) _ hz (fun _ => hsent) (fun m he => ?_)
        (fun hc => hc.elim) (fun he => by cases he) _ _ _ _ _
      cases he
      exact (hi.apNum i n hb).2.trans (count_eq_card hall (by omega))
  | storeCount n =>
    have hall := hg rfl (by simp [hb])
    have hsent := h.sent (by rw [hb]; exact id) (by simp [hb])
    simp only [StartAp.stepBsp, hb]
    refine h.setBsp hall (.launch (n.setWidth 32)) _ (fun hs => ?_) (fun _ => hsent)
      (fun _ he => by cases he) (fun _ _ => ?_) (fun he => by cases he) _ _ _ _ _
    · rw [hsent] at hs
      cases hs
    · rw [BitVec.toNat_setWidth_of_le (by omega)]
      exact h.counted n hb
  | launch n =>
    simp only [StartAp.stepBsp, hb]
    split
    · exact hpast .setUserFunc (by simp [hb]) (by rw [hb]; trivial) trivial (by simp) _ _ _
    · exact hpast .startApplication (by simp [hb]) (by rw [hb]; trivial) trivial (by simp) _ _ _
  | setUserFunc =>
    simp only [StartAp.stepBsp, hb]
    exact hpast .setAnyData (by simp [hb]) (by rw [hb]; trivial) trivial (by simp) _ _ _
  | setAnyData =>
    simp only [StartAp.stepBsp, hb]
    exact hpast .setState (by simp [hb]) (by rw [hb]; trivial) trivial (by simp) _ _ _
  | setState =>
    simp only [StartAp.stepBsp, hb]
    exact hpast .waitReady (by simp [hb]) (by rw [hb]; trivial) trivial (by simp) _ _ _
  | waitReady =>
    have hall := hg rfl (by simp [hb])
    have hc : s.bsp.Counted := by rw [hb]; trivial
    simp only [StartAp.stepBsp, hb]
    split
    · exact h
    next he =>
      have hr : s.gReadyCounter.toNat = cfg.aps.card := by
        rw [not_not.mp he]
        exact h.counter_eq hc (by simp [hb])
      exact h.setBsp hall .runReturned _ hz (fun hn => absurd trivial hn)
        (fun _ he => by cases he) (fun _ => h.counter hc) (fun _ => all_passed hready hr) _ _ _ _ _
  | runReturned =>
    simp only [StartAp.stepBsp, hb]
    exact hpast .startApplication (by simp [hb]) (by rw [hb]; trivial) trivial (by simp) _ _ _
  | startApplication =>
    simp only [StartAp.stepBsp, hb]
    exact h

theorem Counting.stepAp {cfg : Config} {s : State} (h : Counting cfg s) (a : BitVec 8) : Counting cfg (stepAp cfg s a) where
  reported h1 h2 h3 b hb := by
    simp only [stepAp_bsp, stepAp_sipiSent] at h1 h2 h3
    exact reported_stepAp (h.reported h1 h2 h3 b hb)
  unsent hs := by
    simp only [stepAp_sipiSent, stepAp_gApsCounter] at hs ⊢
    obtain ⟨hz, hnone⟩ := h.unsent hs
    refine ⟨hz, fun b hr => hnone b ?_⟩
    by_cases hba : b = a
    · subst hba
      have hw := not_not.mp (hnone b)
      rw [State.Reported, stepAp_ap_self, nextPc, hw] at hr
      simp [hs] at hr
    · rwa [State.Reported, stepAp_ap_of_ne cfg s a hba] at hr
  sent := by simpa using h.sent
  counted := by simpa using h.counted
  counter := by simpa using h.counter
  returned hb b hm := by
    simp only [stepAp_bsp] at hb
    by_cases hba : b = a
    · subst hba
      exact (stepAp_passed cfg s b).mpr (.inl (h.returned hb b hm))
    · rw [stepAp_ap_of_ne cfg s a hba]
      exact h.returned hb b hm

structure BarrierInv (cfg : Config) (s : State) : Prop extends
  Inv cfg s, UserSet cfg s, Counting cfg s where
  ready : Ready cfg s

theorem barrierInv_initial (cfg : Config) : BarrierInv cfg initial where
  toInv := inv_initial cfg
  toUserSet := userSet_initial cfg
  toCounting := counting_initial cfg
  ready := by
    refine (Finset.card_eq_zero.mpr ?_).symm
    exact Finset.filter_eq_empty_iff.mpr fun _ _ hp => hp

namespace BarrierInv
variable {cfg : Config} {s : State}

/-- Whoever has still to report can do so in time. -/
theorem inTime (h : BarrierInv cfg s) (hid : ∀ a ∈ cfg.aps, a ≠ 0) {a : BitVec 8}
    (ha : a ∈ cfg.aps) : InTime cfg s (.ap a) := by
  intro hw hs
  have hpos : 1 ≤ a.toNat := by
    have hne : a.toNat ≠ 0 := fun hz => hid a ha (BitVec.eq_of_toNat_eq hz)
    omega
  cases hb : s.bsp with
  | startup =>
    rw [(h.quiet hb).1] at hs
    cases hs
  | stall => exact hpos
  | _ => exact absurd hw (h.reported (by simp [hb]) (by simp [hb]) (.inl hs) a ha)

theorem step (h : BarrierInv cfg s) (hid : ∀ a ∈ cfg.aps, a ≠ 0) {c : Actor}
    (hc : ReportFirst cfg s c) : BarrierInv cfg (step cfg s c) := by
  cases c with
  | bsp =>
    exact ⟨h.toInv.stepBsp, h.toUserSet.stepBsp h.toInv, h.toCounting.stepBsp h.toInv h.ready hc,
      h.ready.stepBsp h.toInv⟩
  | ap a =>
    by_cases ha : a ∈ cfg.aps
    · simp only [StartAp.step, if_pos ha]
      exact ⟨h.toInv.stepAp ha (h.inTime hid ha), h.toUserSet.stepAp h.toInv a,
        h.toCounting.stepAp a, h.ready.stepAp ha⟩
    · simpa only [StartAp.step, if_neg ha] using h

theorem run (hid : ∀ a ∈ cfg.aps, a ≠ 0) {sched : List Actor}
    (h : Schedule.Admits (StartAp.step cfg) (ReportFirst cfg) initial sched) :
    BarrierInv cfg (Schedule.run (StartAp.step cfg) initial sched) :=
  Schedule.run_invariant (BarrierInv cfg) (fun _ _ hi hc => hi.step hid hc) (barrierInv_initial cfg) h

end BarrierInv

/-- The enumeration loop has been run to its end. -/
def State.Enumerated (s : State) : Prop :=
  s.sipiSent = true ∧ (s.bsp.Counted ∨ ∃ n, s.bsp = .storeCount n)

/-- `NELEMENTS` of the loop is past every slot by then, so a slot holds the rank of its id. -/
theorem BarrierInv.slot_eq {cfg : Config} {s : State} (h : BarrierInv cfg s) (he : s.Enumerated)
    {a : BitVec 8} (ha : a ∈ cfg.aps) :
    (s.apPresenceArray a.toNat).toNat = s.count cfg (a.toNat + 1) ∧ s.Reported a := by
  obtain ⟨hs, hb⟩ := he
  have hne : s.bsp ≠ .startup ∧ s.bsp ≠ .stall ∧ s.bsp.cursor cfg.size = cfg.size := by
    rcases hb with hb | ⟨n, hb⟩
    · cases hp : s.bsp <;> rw [hp] at hb <;> first | exact hb.elim | simp [BspPc.cursor]
    · simp [hb, BspPc.cursor]
  have hr := h.reported hne.1 hne.2.1 (.inl hs) a ha
  refine ⟨?_, hr⟩
  rw [(h.slot a ha hr).2, hne.2.2, if_pos (cfg.below_size a ha)]

/-- What the barrier promises in a state of the startup. -/
structure Barrier (cfg : Config) (s : State) : Prop where
  increasing : s.Enumerated → ∀ a ∈ cfg.aps, ∀ b ∈ cfg.aps, a < b →
    s.apPresenceArray a.toNat < s.apPresenceArray b.toNat
  ordinals : s.Enumerated →
    cfg.aps.image (fun a => (s.apPresenceArray a.toNat).toNat) = Finset.Icc 1 cfg.aps.card
  others : s.Enumerated → ∀ j, (∀ a ∈ cfg.aps, a.toNat ≠ j) → s.apPresenceArray j = 0
  counter : s.sipiSent = true → s.bsp.Counted → s.gApsCounter.toNat = cfg.aps.card
  ready : s.gReadyCounter.toNat ≤ cfg.aps.card
  user : ∀ a e p f d, s.ap a = .user e p f d →
    s.gUserFunc = cfg.continueApBootFunc ∧ s.gAnyDataForUserFunc = cfg.anyData ∧
      f = cfg.continueApBootFunc ∧ d = cfg.anyData
  returned : s.bsp = .runReturned → ∀ a ∈ cfg.aps, (s.ap a).Passed

theorem BarrierInv.increasing {cfg : Config} {s : State} (h : BarrierInv cfg s)
    (he : s.Enumerated) {a b : BitVec 8} (ha : a ∈ cfg.aps) (hb : b ∈ cfg.aps) (hab : a < b) :
    s.apPresenceArray a.toNat < s.apPresenceArray b.toNat := by
  obtain ⟨hb', hr⟩ := h.slot_eq he hb
  rw [BitVec.lt_def, (h.slot_eq he ha).1, hb']
  exact count_lt_count hb hr hab

theorem BarrierInv.ordinals {cfg : Config} {s : State} (h : BarrierInv cfg s)
    (he : s.Enumerated) :
    cfg.aps.image (fun a => (s.apPresenceArray a.toNat).toNat) = Finset.Icc 1 cfg.aps.card := by
  have hinj : Set.InjOn (fun a : BitVec 8 => (s.apPresenceArray a.toNat).toNat) cfg.aps := by
    intro a ha b hb heq
    by_contra hne
    rcases lt_or_gt_of_ne (show a.toNat ≠ b.toNat from fun hn => hne (BitVec.eq_of_toNat_eq hn))
      with hlt | hlt
    · exact absurd heq (Nat.ne_of_lt (h.increasing he ha hb hlt))
    · exact absurd heq.symm (Nat.ne_of_lt (h.increasing he hb ha hlt))
  refine Finset.eq_of_subset_of_card_le (Finset.image_subset_iff.mpr fun a ha => ?_) ?_
  · obtain ⟨hs, hr⟩ := h.slot_eq he ha
    have hle : s.count cfg (a.toNat + 1) ≤ cfg.aps.card := Finset.card_filter_le _ _
    rw [Finset.mem_Icc, hs, count_succ_of_reported ha hr]
    rw [count_succ_of_reported ha hr] at hle
    omega
  · rw [Finset.card_image_of_injOn hinj, Nat.card_Icc]
    omega

/-- Every interleaving in which all processors report first keeps the barrier, and each is
past exactly one increment when `ap_procs_run` returns. -/
theorem barrier (cfg : Config) (hid : ∀ a ∈ cfg.aps, a ≠ 0) (sched : List Actor)
    (h : Schedule.Admits (step cfg) (ReportFirst cfg) initial sched) :
    Barrier cfg (Schedule.run (step cfg) initial sched) ∧
      ((Schedule.run (step cfg) initial sched).bsp = .runReturned →
        ∀ a ∈ cfg.aps, increments cfg a initial sched = 1) := by
  have hi := BarrierInv.run hid h
  refine ⟨⟨fun he a ha b hb => hi.increasing he ha hb, hi.ordinals,
    fun _ j hj => hi.empty j fun a ha _ => hj a ha, fun hs hc => hi.counter hc hs, ?_, ?_,
    hi.returned⟩, fun hb a ha => ?_⟩
  · rw [hi.ready]
    exact Finset.card_filter_le _ _
  · intro a e p f d hu
    have hst := hi.released a (by rw [hu]; trivial)
    obtain ⟨hf, hd⟩ := hi.user a e p f d hu
    exact ⟨hi.func (.inl hst), hi.data (.inl hst), hf, hd⟩
  · have hinc := increments_add cfg a initial sched
    rw [if_pos (hi.returned hb a ha), if_neg (show ¬ (initial.ap a).Passed from id)] at hinc
    exact hinc

/-- Both processors of `twoAps` report, are numbered and get through before the return. -/
theorem barrier_twoAps :
    Barrier twoAps (Schedule.run (step twoAps) initial
        (enumerateAfter [.ap 2, .ap 1] ++ boot 1 ++ boot 2 ++ [.bsp])) ∧
      increments twoAps 2 initial
        (enumerateAfter [.ap 2, .ap 1] ++ boot 1 ++ boot 2 ++ [.bsp]) = 1 := by
  obtain ⟨h1, h2⟩ := barrier twoAps (by decide)
    (enumerateAfter [.ap 2, .ap 1] ++ boot 1 ++ boot 2 ++ [.bsp]) (by decide +kernel)
  exact ⟨h1, h2 (by decide +kernel) 2 (by decide)⟩

end IkgtLoader.StartAp
