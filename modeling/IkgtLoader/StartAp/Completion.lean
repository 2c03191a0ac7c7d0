import IkgtLoader.Flat.Rounds
import IkgtLoader.StartAp.Barrier
import Mathlib.Algebra.Order.BigOperators.Group.Finset

/-! A startup whose processors all report before the enumeration comes to its end: every one of them is
in the user function and the bootstrap processor starts the application, after a number of rounds
that the array and the processors bound. -/
namespace IkgtLoader.StartAp

/-- Steps left to the bootstrap processor. -/
def BspPc.rank (size : ℕ) : BspPc → ℕ
  | .startup => size + 10
  | .stall => size + 9
  | .enumerate i _ => size - i + 8
  | .storeCount _ => 7
  | .launch _ => 6
  | .setUserFunc => 5
  | .setAnyData => 4
  | .setState => 3
  | .waitReady => 2
  | .runReturned => 1
  | .startApplication => 0

/-- Steps left to an application processor. -/
def ApPc.rank : ApPc → ℕ
  | .waitSipi => 7
  | .waitLock1 => 6
  | .stage2 => 5
  | .ordered _ => 4
  | .entered .. => 3
  | .ready .. => 2
  | .pushed .. => 1
  | .user .. => 0

def State.rank (cfg : Config) (s : State) : ℕ :=
  s.bsp.rank cfg.size + ∑ a ∈ cfg.aps, (s.ap a).rank

/-- `startap_main` has a low memory page to start the processors from. -/
def Config.StartsAps (cfg : Config) : Prop :=
  ∃ p, cfg.init32 = some p ∧ p.i32LowMemoryPage ≠ 0

/-- The bootstrap processor goes on to the enumeration when all processors have reported. -/
def EnumeratesLast (cfg : Config) (s : State) (c : Actor) : Prop :=
  c = .bsp → s.bsp = .stall → ∀ a ∈ cfg.aps, s.Reported a

instance (cfg : Config) (s : State) (c : Actor) : Decidable (EnumeratesLast cfg s c) := by
  unfold EnumeratesLast
  infer_instance

section Rank
variable (cfg : Config) (s : State)

/-- The bootstrap processor waits or comes closer to its end. -/
theorem stepBsp_idle_or_rank :
    stepBsp cfg s = s ∨ (stepBsp cfg s).bsp.rank cfg.size < s.bsp.rank cfg.size := by
  cases hb : s.bsp with
  | startup =>
    right
    simp only [stepBsp, hb]
    split
    · simp only [BspPc.rank]
      omega
    · split
      · simp only [BspPc.rank]
        omega
      · simp only [BspPc.rank]
        omega
  | stall =>
    right
    simp only [stepBsp, hb, BspPc.rank]
    omega
  | enumerate i n =>
    right
    simp only [stepBsp, hb]
    split
    · split
      · simp only [BspPc.rank]
        omega
      · simp only [BspPc.rank]
        omega
    · simp only [BspPc.rank]
      omega
  | launch n =>
    right
    simp only [stepBsp, hb]
    split
    · simp only [BspPc.rank]
      omega
    · simp only [BspPc.rank]
      omega
  | waitReady =>
    simp only [stepBsp, hb]
    split
    · exact .inl rfl
    · exact .inr (by simp only [BspPc.rank]; omega)
  | startApplication => exact .inl (by simp only [stepBsp, hb])
  | _ => exact .inr (by simp only [stepBsp, hb, BspPc.rank]; omega)

/-- So does an application processor. -/
theorem stepAp_idle_or_rank (a : BitVec 8) :
    stepAp cfg s a = s ∨ ((stepAp cfg s a).ap a).rank < (s.ap a).rank := by
  rw [stepAp_ap_self]
  cases hp : s.ap a with
  | waitSipi =>
    by_cases hs : s.sipiSent = true
    · exact .inr (by simp only [nextPc, hp, hs, if_true, ApPc.rank]; omega)
    · exact .inl (by simp only [stepAp, hp, if_neg hs])
  | waitLock1 =>
    by_cases hs : s.mpBootstrapState = .apsEnumerated
    · exact .inr (by simp only [nextPc, hp, hs, if_true, ApPc.rank]; omega)
    · exact .inl (by simp only [stepAp, hp, if_neg hs])
  | user => exact .inl (by simp only [stepAp, hp])
  | _ => exact .inr (by simp only [nextPc, hp, ApPc.rank]; omega)

theorem rank_stepAp {a : BitVec 8} (ha : a ∈ cfg.aps)
    (h : ((stepAp cfg s a).ap a).rank < (s.ap a).rank) :
    (stepAp cfg s a).rank cfg < s.rank cfg := by
  unfold State.rank
  rw [stepAp_bsp]
  refine Nat.add_lt_add_left (Finset.sum_lt_sum (fun b _ => ?_) ⟨a, ha, h⟩) _
  by_cases hba : b = a
  · exact hba ▸ h.le
  · rw [stepAp_ap_of_ne cfg s a hba]

theorem step_idle_or_rank (c : Actor) :
    step cfg s c = s ∨ (step cfg s c).rank cfg < s.rank cfg := by
  cases c with
  | bsp =>
    rcases stepBsp_idle_or_rank cfg s with h | h
    · exact .inl h
    · right
      unfold State.rank
      simp only [step, stepBsp_ap]
      omega
  | ap a =>
    by_cases ha : a ∈ cfg.aps
    · simp only [step, if_pos ha]
      rcases stepAp_idle_or_rank cfg s a with h | h
      · exact .inl h
      · exact .inr (rank_stepAp cfg s ha h)
    · exact .inl (if_neg ha)

end Rank

/-- What the bootstrap processor has signalled on its way. -/
structure Signalled (cfg : Config) (s : State) : Prop where
  requested : s.bsp ≠ .startup → (s.sipiSent = true ↔ cfg.StartsAps)
  launched : ∀ n, s.bsp = .launch n → s.sipiSent = true → n = s.gApsCounter
  signalled : s.bsp = .waitReady ∨ s.bsp = .runReturned → s.mpBootstrapState = .apsEnumerated
  started : s.bsp = .startApplication → s.sipiSent = true → cfg.aps.Nonempty →
    s.mpBootstrapState = .apsEnumerated

theorem signalled_initial (cfg : Config) : Signalled cfg initial where
  requested h := absurd rfl h
  launched _ h := by cases h
  signalled h := by simp [initial] at h
  started h := by cases h

namespace Signalled
variable {cfg : Config} {s : State}

/-- A step that neither sends nor waits. -/
theorem setBsp (h : Signalled cfg s) (hs : s.bsp ≠ .startup) (pc : BspPc) (g : BitVec 32)
    (m : MpBootstrapState) (hlaunch : ∀ n, pc = .launch n → n = g)
    (hsig : pc = .waitReady ∨ pc = .runReturned → m = .apsEnumerated)
    (hstart : pc = .startApplication → s.sipiSent = true → cfg.aps.Nonempty → m = .apsEnumerated)
    (A : ℕ → BitVec 8) (f d : BitVec 32) :
    Signalled cfg { s with
      bsp := pc, gApsCounter := g, mpBootstrapState := m, apPresenceArray := A,
      gUserFunc := f, gAnyDataForUserFunc := d } where
  requested _ := h.requested hs
  launched n he _ := hlaunch n he
  signalled := hsig
  started := hstart

/-- The startup sends its SIPI exactly when there is a page to send. -/
theorem startup (hi : Inv cfg s) (hb : s.bsp = .startup) : Signalled cfg (StartAp.stepBsp cfg s) := by
  have hsipi := (hi.quiet hb).1
  have hlaunch : ∀ n, ¬ cfg.StartsAps → Signalled cfg { s with bsp := .launch n } := fun n hno => {
    requested := fun _ => iff_of_false (by simp [hsipi]) hno
    launched := fun _ _ hs => by rw [hsipi] at hs; cases hs
    signalled := fun h => by simp at h
    started := fun h => by cases h }
  simp only [StartAp.stepBsp, hb]
  split
  next hnone =>
    refine hlaunch 0 fun h => ?_
    obtain ⟨p, hp, -⟩ := h
    rw [hnone] at hp
    cases hp
  next p hp =>
    split
    next hz =>
      refine hlaunch (-1) fun h => ?_
      obtain ⟨q, hq, hne⟩ := h
      rw [hp] at hq
      cases hq
      exact hne hz
    next hne =>
      exact {
        requested := fun _ => iff_of_true rfl ⟨p, hp, hne⟩
        launched := fun _ h => by cases h
        signalled := fun h => by simp at h
        started := fun h => by cases h }

theorem stepBsp (h : Signalled cfg s) (hi : Inv cfg s) (hc : Counting cfg s) :
    Signalled cfg (StartAp.stepBsp cfg s) := by
  cases hb : s.bsp with
  | startup => exact startup hi hb
  | stall =>
    have hs : s.bsp ≠ .startup := by simp [hb]
    simp only [StartAp.stepBsp, hb]
    exact h.setBsp hs (.enumerate 1 0) _ _ (fun _ he => by cases he) (by simp)
      (fun he => by cases he) _ _ _
  | enumerate i n =>
    have hs : s.bsp ≠ .startup := by simp [hb]
    simp only [StartAp.stepBsp, hb]
    split
    · split
      · exact h.setBsp hs (.enumerate (i + 1) (n + 1)) _ _ (fun _ he => by cases he) (by simp)
          (fun he => by cases he) _ _ _
      · exact h.setBsp hs (.enumerate (i + 1) n) _ _ (fun _ he => by cases he) (by simp)
          (fun he => by cases he) _ _ _
    · exact h.setBsp hs (.storeCount n) _ _ (fun _ he => by cases he) (by simp)
        (fun he => by cases he) _ _ _
  | storeCount n =>
    have hs : s.bsp ≠ .startup := by simp [hb]
    simp only [StartAp.stepBsp, hb]
    refine h.setBsp hs (.launch (n.setWidth 32)) _ _ (fun m he => ?_) (by simp)
      (fun he => by cases he) _ _ _
    cases he
    rfl
  | launch n =>
    have hs : s.bsp ≠ .startup := by simp [hb]
    simp only [StartAp.stepBsp, hb]
    split
    · exact h.setBsp hs .setUserFunc _ _ (fun _ he => by cases he) (by simp)
        (fun he => by cases he) _ _ _
    next hn =>
      refine h.setBsp hs .startApplication _ _ (fun _ he => by cases he) (by simp)
        (fun _ hsent hne => absurd ?_ hn) _ _ _
      -- a count of zero would mean that there is nobody to start
      have hcount := hc.counter (by rw [hb]; trivial) hsent
      rw [h.launched n hb hsent, BitVec.lt_def, hcount]
      exact hne.card_pos
  | setUserFunc =>
    have hs : s.bsp ≠ .startup := by simp [hb]
    simp only [StartAp.stepBsp, hb]
    exact h.setBsp hs .setAnyData _ _ (fun _ he => by cases he) (by simp)
      (fun he => by cases he) _ _ _
  | setAnyData =>
    have hs : s.bsp ≠ .startup := by simp [hb]
    simp only [StartAp.stepBsp, hb]
    exact h.setBsp hs .setState _ _ (fun _ he => by cases he) (by simp)
      (fun he => by cases he) _ _ _
  | setState =>
    have hs : s.bsp ≠ .startup := by simp [hb]
    simp only [StartAp.stepBsp, hb]
    exact h.setBsp hs .waitReady _ _ (fun _ he => by cases he) (fun _ => rfl)
      (fun he => by cases he) _ _ _
  | waitReady =>
    have hs : s.bsp ≠ .startup := by simp [hb]
    simp only [StartAp.stepBsp, hb]
    split
    · exact h
    · exact h.setBsp hs .runReturned _ _ (fun _ he => by cases he) (fun _ => h.signalled (.inl hb))
        (fun he => by cases he) _ _ _
  | runReturned =>
    have hs : s.bsp ≠ .startup := by simp [hb]
    simp only [StartAp.stepBsp, hb]
    exact h.setBsp hs .startApplication _ _ (fun _ he => by cases he) (by simp)
      (fun _ _ _ => h.signalled (.inr hb)) _ _ _
  | startApplication =>
    simp only [StartAp.stepBsp, hb]
    exact h

theorem stepAp (h : Signalled cfg s) (a : BitVec 8) : Signalled cfg (StartAp.stepAp cfg s a) where
  requested := by simpa using h.requested
  launched := by simpa using h.launched
  signalled := by simpa using h.signalled
  started := by simpa using h.started

end Signalled

structure Live (cfg : Config) (s : State) : Prop extends BarrierInv cfg s, Signalled cfg s

theorem Live.step {cfg : Config} {s : State} (hid : ∀ a ∈ cfg.aps, a ≠ 0) (h : Live cfg s)
    {c : Actor} (hc : ReportFirst cfg s c) : Live cfg (step cfg s c) := by
  refine ⟨h.toBarrierInv.step hid hc, ?_⟩
  cases c with
  | bsp => exact h.toSignalled.stepBsp h.toInv h.toCounting
  | ap a =>
    by_cases ha : a ∈ cfg.aps
    · simpa only [StartAp.step, if_pos ha] using h.toSignalled.stepAp a
    · simpa only [StartAp.step, if_neg ha] using h.toSignalled

/-- In the user function. -/
def ApPc.InUser : ApPc → Prop
  | .user .. => True
  | _ => False

/-- Nothing is left to do: with a page to start from, every processor is in the user function. -/
def State.Done (cfg : Config) (s : State) : Prop :=
  s.bsp = .startApplication ∧ (cfg.StartsAps → ∀ a ∈ cfg.aps, (s.ap a).InUser)

theorem State.Done.step {cfg : Config} {s : State} {c : Actor} (hd : s.Done cfg) : (StartAp.step cfg s c).Done cfg := by
  obtain ⟨hb, hu⟩ := hd
  cases c with
  | bsp => exact ⟨by simp [StartAp.step, stepBsp, hb], by simpa [StartAp.step] using hu⟩
  | ap a =>
    by_cases ha : a ∈ cfg.aps
    · simp only [StartAp.step, if_pos ha]
      refine ⟨by simpa using hb, fun hp b hm => ?_⟩
      by_cases hba : b = a
      · subst hba
        have hin := hu hp b hm
        rw [stepAp_ap_self]
        cases hpc : s.ap b <;> rw [hpc] at hin <;>
          first | exact hin.elim | (simp only [nextPc, hpc]; trivial)
      · rw [stepAp_ap_of_ne cfg s a hba]
        exact hu hp b hm
    · simpa only [StartAp.step, if_neg ha] using ⟨hb, hu⟩

/-- The processors that exist. -/
def actors (cfg : Config) : Set Actor := {c | ∀ a, c = .ap a → a ∈ cfg.aps}

/-- A processor that has reported and been released is never stuck before the user function. -/
theorem ap_moves {cfg : Config} {s : State} {a : BitVec 8} (ha : a ∈ cfg.aps) (hr : s.Reported a)
    (hs : s.mpBootstrapState = .apsEnumerated) (hu : ¬ (s.ap a).InUser) :
    ∃ c ∈ actors cfg, step cfg s c ≠ s := by
  refine ⟨.ap a, fun b he => Actor.ap.inj he ▸ ha, fun he => ?_⟩
  have hp : nextPc cfg s a = s.ap a := by
    rw [← stepAp_ap_self, ← show step cfg s (.ap a) = stepAp cfg s a from if_pos ha, he]
  cases hpc : s.ap a with
  | waitSipi => exact hr hpc
  | user => exact hu (by rw [hpc]; trivial)
  | _ => simp [nextPc, hpc, hs] at hp

theorem bsp_moves {cfg : Config} {s : State} (h : (stepBsp cfg s).bsp ≠ s.bsp) :
    ∃ c ∈ actors cfg, step cfg s c ≠ s := by
  refine ⟨.bsp, fun a ha => ?_, fun he => h (congrArg State.bsp he)⟩
  cases ha

namespace Live
variable {cfg : Config} {s : State}

theorem all_reported (h : Live cfg s) (hb : s.bsp ≠ .startup) (hb' : s.bsp ≠ .stall)
    (hp : cfg.StartsAps) : ∀ a ∈ cfg.aps, s.Reported a :=
  h.toCounting.reported hb hb' (.inl ((h.requested hb).mpr hp))

/-- The wait of `ap_procs_run`: either the counters agree or some processor still has its
increment ahead. -/
theorem waitReady_moves (h : Live cfg s) (hb : s.bsp = .waitReady) :
    ∃ c ∈ actors cfg, StartAp.step cfg s c ≠ s := by
  have hne : s.bsp ≠ .startup := by simp [hb]
  by_cases he : s.gReadyCounter = s.gApsCounter
  · refine bsp_moves ?_
    simp [stepBsp, hb, he]
  · have hcount : s.gApsCounter.toNat = cfg.aps.card :=
      h.counter_eq (by rw [hb]; trivial) (by simp [hb])
    obtain ⟨a, ha, hnot⟩ : ∃ a ∈ cfg.aps, ¬ (s.ap a).Passed := by
      by_contra hall
      push Not at hall
      refine he (BitVec.eq_of_toNat_eq ?_)
      rw [h.ready, hcount, Finset.filter_true_of_mem hall]
    have hr := h.toCounting.reported hne (by simp [hb]) (.inr (by simp [hb])) a ha
    refine ap_moves ha hr (h.signalled (.inl hb)) fun hu => hnot ?_
    cases hpc : s.ap a <;> rw [hpc] at hu <;> first | exact hu.elim | trivial

theorem moves (h : Live cfg s) (hd : ¬ s.Done cfg) : ∃ c ∈ actors cfg, StartAp.step cfg s c ≠ s := by
  cases hb : s.bsp with
  | waitReady => exact h.waitReady_moves hb
  | startApplication =>
    obtain ⟨hp, a, ha, hu⟩ : cfg.StartsAps ∧ ∃ a ∈ cfg.aps, ¬ (s.ap a).InUser := by
      by_contra hno
      refine hd ⟨hb, fun hp a ha => ?_⟩
      by_contra hu
      exact hno ⟨hp, a, ha, hu⟩
    have hne : s.bsp ≠ .startup := by simp [hb]
    have hs := h.started hb ((h.requested hne).mpr hp) ⟨a, ha⟩
    exact ap_moves ha (h.all_reported hne (by simp [hb]) hp a ha) hs hu
  | _ =>
    refine bsp_moves fun he => ?_
    rcases stepBsp_idle_or_rank cfg s with hidle | hlt
    · have hpc := congrArg State.bsp hidle
      simp only [stepBsp, hb] at hpc
      repeat' split at hpc
      all_goals simp at hpc
    · rw [he] at hlt
      omega

/-- With a page to start from, all processors have reported in every state behind the enumeration. -/
theorem reportFirst (h : Live cfg s) (hp : cfg.StartsAps) {c : Actor} (hc : EnumeratesLast cfg s c) :
    ReportFirst cfg s c := by
  intro hbsp hne
  by_cases hb : s.bsp = .stall
  · exact hc hbsp hb
  · exact h.all_reported hne hb hp

theorem settles (hid : ∀ a ∈ cfg.aps, a ≠ 0) (hp : cfg.StartsAps) :
    Schedule.Settles (StartAp.step cfg) (EnumeratesLast cfg) (actors cfg) (Live cfg) (State.Done cfg)
      (State.rank cfg) where
  keep _ _ h hc := h.step hid (h.reportFirst hp hc)
  descend s c _ := step_idle_or_rank cfg s c
  moves _ h hd := h.moves hd
  stays _ _ _ _ hd := hd.step

/-- All processors have reported by the end, so an ordinal is the rank of its APIC id. -/
theorem user_eq (h : Live cfg s) (hd : s.Done cfg) (hp : cfg.StartsAps) {a : BitVec 8}
    (ha : a ∈ cfg.aps) :
    ∃ e, s.ap a = .user e (loadEsp cfg e) cfg.continueApBootFunc cfg.anyData ∧
      e.toNat = (cfg.aps.filter fun b => b.toNat ≤ a.toNat).card := by
  obtain ⟨hb, hu⟩ := hd
  have hin := hu hp a ha
  cases hpc : s.ap a with
  | user e p f d =>
    obtain ⟨rfl, rfl⟩ := h.user a e p f d hpc
    obtain ⟨e', he', rfl⟩ := h.stack_of hpc (p := p) rfl
    cases he'
    refine ⟨e, rfl, ?_⟩
    rw [h.ordinal_eq (a := a) (e := e) (by rw [hpc]; rfl)]
    unfold State.count
    congr 1
    refine Finset.filter_congr fun b hm => ?_
    have hr := h.all_reported (by simp [hb]) (by simp [hb]) hp b hm
    simp only [hr, true_and]
    omega
  | _ =>
    rw [hpc] at hin
    exact hin.elim

end Live

/-- A startup without a page to start from: no SIPI is sent, nobody reports and nothing is counted. -/
structure Unsent (s : State) : Prop where
  sipi : s.sipiSent = false
  waiting : ∀ a, s.ap a = .waitSipi
  counters : s.gReadyCounter = s.gApsCounter
  bsp : s.bsp = .startup ∨ s.bsp.Counted

namespace Unsent
variable {cfg : Config} {s : State}

theorem stepBsp (h : Unsent s) (hp : ¬ cfg.StartsAps) : Unsent (StartAp.stepBsp cfg s) := by
  obtain ⟨hsipi, hwait, hcount, hbsp⟩ := h
  cases hb : s.bsp with
  | startup =>
    simp only [StartAp.stepBsp, hb]
    split
    · exact ⟨hsipi, hwait, hcount, .inr trivial⟩
    next p hsome =>
      split
      · exact ⟨hsipi, hwait, hcount, .inr trivial⟩
      next hne => exact absurd ⟨p, hsome, hne⟩ hp
  | launch n =>
    simp only [StartAp.stepBsp, hb]
    split <;> exact ⟨hsipi, hwait, hcount, .inr trivial⟩
  | waitReady =>
    simp only [StartAp.stepBsp, hb, if_neg (not_not.mpr hcount)]
    exact ⟨hsipi, hwait, hcount, .inr trivial⟩
  | setUserFunc | setAnyData | setState | runReturned =>
    simp only [StartAp.stepBsp, hb]
    exact ⟨hsipi, hwait, hcount, .inr trivial⟩
  | startApplication =>
    simp only [StartAp.stepBsp, hb]
    exact ⟨hsipi, hwait, hcount, hbsp⟩
  | stall | enumerate | storeCount =>
    rw [hb] at hbsp
    rcases hbsp with he | hc
    · cases he
    · exact hc.elim

/-- A processor without a SIPI stays where it is. -/
theorem step (h : Unsent s) (hp : ¬ cfg.StartsAps) (c : Actor) : Unsent (StartAp.step cfg s c) := by
  cases c with
  | bsp => exact h.stepBsp hp
  | ap a =>
    have hidle : stepAp cfg s a = s := by simp [stepAp, h.waiting a, h.sipi]
    have hstep : StartAp.step cfg s (.ap a) = s := by
      by_cases ha : a ∈ cfg.aps
      · exact (if_pos ha).trans hidle
      · exact if_neg ha
    rw [hstep]
    exact h

theorem moves (h : Unsent s) (hd : s.bsp ≠ .startApplication) :
    ∃ c ∈ actors cfg, StartAp.step cfg s c ≠ s := by
  refine bsp_moves fun he => ?_
  rcases stepBsp_idle_or_rank cfg s with hidle | hlt
  · have hpc := congrArg State.bsp hidle
    cases hb : s.bsp <;> simp only [StartAp.stepBsp, hb] at hpc
    case startApplication => exact hd hb
    case waitReady => simp [h.counters] at hpc
    all_goals
      repeat' split at hpc
      all_goals simp at hpc
  · rw [he] at hlt
    omega

theorem settles (hp : ¬ cfg.StartsAps) : Schedule.Settles (StartAp.step cfg) (EnumeratesLast cfg)
    (actors cfg) Unsent (State.Done cfg) (State.rank cfg) where
  keep _ c h _ := h.step hp c
  descend s c _ := step_idle_or_rank cfg s c
  moves _ h hd := h.moves fun hb => hd ⟨hb, fun hp' => absurd hp' hp⟩
  stays _ _ _ _ hd := hd.step

end Unsent

/-- What a startup has arrived at when it is over. -/
structure Completed (cfg : Config) (t : State) : Prop where
  bsp : t.bsp = .startApplication
  users : cfg.StartsAps → ∀ a ∈ cfg.aps, ∃ e,
    t.ap a = .user e (loadEsp cfg e) cfg.continueApBootFunc cfg.anyData ∧
      e.toNat = (cfg.aps.filter fun b => b.toNat ≤ a.toNat).card
  counters : cfg.StartsAps →
    t.gApsCounter.toNat = cfg.aps.card ∧ t.gReadyCounter.toNat = cfg.aps.card
  quiet : ¬ cfg.StartsAps → ∀ a, t.ap a = .waitSipi

end IkgtLoader.StartAp
