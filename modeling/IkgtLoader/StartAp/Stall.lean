import IkgtLoader.Flat.Loop
import Mathlib.Order.Monotone.Basic

/-! `startap_stall_using_tsc`: a busy loop on the low half of the time stamp counter. The
deadline wraps with the counter; the number of ticks is cut to 32 bits before it is divided. -/
namespace IkgtLoader.StartAp
open Loop

/-- `(uint32_t)startap_rdtsc()`, the `k`-th reading of a counter. -/
def rdtsc32 (tsc : ℕ → BitVec 64) (k : ℕ) : BitVec 32 := (tsc k).setWidth 32

/-- The locals of the stall, with the number of readings made so far. -/
structure Clock where
  startTsc : BitVec 32
  endTsc : BitVec 32
  next : ℕ

def Clock.initial (k : ℕ) : Clock := ⟨1, 0, k⟩

def late (_ : ℕ) (s : Clock) : Prop := s.startTsc > s.endTsc

def early (_ : ℕ) (s : Clock) : Prop := s.startTsc < s.endTsc

instance (i : ℕ) (s : Clock) : Decidable (late i s) := inferInstanceAs (Decidable (_ < _))

instance (i : ℕ) (s : Clock) : Decidable (early i s) := inferInstanceAs (Decidable (_ < _))

section stall
variable (tsc : ℕ → BitVec 64)

/-- Two readings around the port reads of `startap_stall`. -/
def calibrateStep (_ : ℕ) (s : Clock) : Outcome Clock :=
  .next ⟨rdtsc32 tsc s.next, rdtsc32 tsc (s.next + 1), s.next + 2⟩

/-- `startap_calibrate_tsc_ticks_per_msec`: the ticks and the readings made. -/
def calibrateTscTicksPerMsec (k fuel : ℕ) : Option (BitVec 32 × ℕ) :=
  match run late (calibrateStep tsc) fuel 0 (.initial k) with
  | .next s => some (s.endTsc - s.startTsc, s.next)
  | _ => none

def deadlineStep (ticks : BitVec 32) (_ : ℕ) (s : Clock) : Outcome Clock :=
  .next ⟨rdtsc32 tsc (s.next + 1), rdtsc32 tsc s.next + ticks, s.next + 2⟩

def waitStep (_ : ℕ) (s : Clock) : Outcome Clock :=
  .next { s with startTsc := rdtsc32 tsc s.next, next := s.next + 1 }

/-- The two loops of the stall. -/
def stallTicks (ticks : BitVec 32) (k fuel : ℕ) : Option ℕ :=
  match run late (deadlineStep tsc ticks) fuel 0 (.initial k) with
  | .next s =>
    match run early (waitStep tsc) fuel 0 s with
    | .next t => some t.next
    | _ => none
  | _ => none

/-- `startap_stall_using_tsc`: `startap_tsc_ticks_per_msec` and the readings made when it
returns. -/
def stallUsingTsc (ticksPerMsec stallUsec : BitVec 32) (k fuel : ℕ) : Option (BitVec 32 × ℕ) :=
  let calibrated :=
    if ticksPerMsec = 0 then calibrateTscTicksPerMsec tsc k fuel else some (ticksPerMsec, k)
  match calibrated with
  | none => none
  | some (ticksPerMsec, k) =>
    (stallTicks tsc (stallUsec * ticksPerMsec / 1000) k fuel).map fun n => (ticksPerMsec, n)

variable {tsc}

theorem toNat_rdtsc32 (k : ℕ) : (rdtsc32 tsc k).toNat = (tsc k).toNat % 2 ^ 32 := by
  unfold rdtsc32
  rw [BitVec.toNat_setWidth]

/-- Once the deadline is not behind the second reading, a later reading at or past it is late
enough, wherever the low half has wrapped. -/
theorem deadline_passed {a b c ticks : ℕ} (hab : a ≤ b) (hbc : b ≤ c) (ht : ticks < 2 ^ 32)
    (hb : b % 2 ^ 32 ≤ (a % 2 ^ 32 + ticks) % 2 ^ 32)
    (hc : (a % 2 ^ 32 + ticks) % 2 ^ 32 ≤ c % 2 ^ 32) : a + ticks ≤ c := by
  by_cases hwrap : a % 2 ^ 32 + ticks < 2 ^ 32
  · rw [Nat.mod_eq_of_lt hwrap] at hc
    omega
  · -- the deadline is in the next epoch, and so is the second reading
    have hnext : a / 2 ^ 32 < b / 2 ^ 32 := by omega
    omega

/-- What the first loop has found when it ends. -/
theorem run_deadline {ticks : BitVec 32} {k fuel : ℕ} {s : Clock}
    (h : run late (deadlineStep tsc ticks) fuel 0 (.initial k) = .next s) :
    ∃ j, k ≤ j ∧ s = ⟨rdtsc32 tsc (j + 1), rdtsc32 tsc j + ticks, j + 2⟩ ∧ ¬ late 0 s := by
  have hbody : ∀ i s, late i s →
      (s = .initial k ∨
        ∃ j, k ≤ j ∧ s = ⟨rdtsc32 tsc (j + 1), rdtsc32 tsc j + ticks, j + 2⟩) →
      (deadlineStep tsc ticks i s).All (fun s => s = .initial k ∨
        ∃ j, k ≤ j ∧ s = ⟨rdtsc32 tsc (j + 1), rdtsc32 tsc j + ticks, j + 2⟩)
        (fun _ => False) (fun _ => False) := by
    rintro _ s _ (rfl | ⟨j, hj, rfl⟩)
    · exact .inr ⟨k, le_rfl, rfl⟩
    · exact .inr ⟨j + 2, by omega, rfl⟩
  have hrun : (run late (deadlineStep tsc ticks) fuel 0 (.initial k)).All _ _ _ :=
    run_all _ _ _ hbody (.inl rfl)
  rw [h] at hrun
  obtain ⟨_, _, hs, hlate⟩ := hrun
  rcases hs with rfl | ⟨j, hj, rfl⟩
  · exact absurd (show (0#32 : BitVec 32) < 1#32 by decide) hlate
  · exact ⟨j, hj, rfl, hlate⟩

theorem run_wait {fuel : ℕ} {s t : Clock}
    (hlast : s.startTsc = rdtsc32 tsc (s.next - 1))
    (h : run early (waitStep tsc) fuel 0 s = .next t) :
    s.next ≤ t.next ∧ t.endTsc = s.endTsc ∧ t.startTsc = rdtsc32 tsc (t.next - 1) ∧
      ¬ early 0 t := by
  have hbody : ∀ i u, early i u →
      (s.next ≤ u.next ∧ u.endTsc = s.endTsc ∧ u.startTsc = rdtsc32 tsc (u.next - 1)) →
      (waitStep tsc i u).All (fun u => s.next ≤ u.next ∧ u.endTsc = s.endTsc ∧
        u.startTsc = rdtsc32 tsc (u.next - 1)) (fun _ => False) (fun _ => False) := by
    rintro _ u _ ⟨h1, h2, _⟩
    exact ⟨Nat.le_succ_of_le h1, h2, rfl⟩
  have hrun : (run early (waitStep tsc) fuel 0 s).All _ _ _ :=
    run_all _ _ _ hbody ⟨le_rfl, rfl, hlast⟩
  rw [h] at hrun
  obtain ⟨_, _, ⟨h1, h2, h3⟩, hearly⟩ := hrun
  exact ⟨h1, h2, h3, hearly⟩

/-- The ticks that were asked for have passed when the two loops end. -/
theorem stallTicks_elapsed (hmono : Monotone fun i => (tsc i).toNat) {ticks : BitVec 32}
    {k fuel n : ℕ} (h : stallTicks tsc ticks k fuel = some n) :
    (tsc k).toNat + ticks.toNat ≤ (tsc (n - 1)).toNat := by
  unfold stallTicks at h
  split at h
  next s hfirst =>
    split at h
    next t ht =>
      obtain ⟨j, hj, rfl, hlate⟩ := run_deadline hfirst
      obtain ⟨hle, hend, hstart, hearly⟩ := run_wait rfl ht
      cases h
      dsimp only at hle hend
      unfold late at hlate
      unfold early at hearly
      rw [hend, hstart] at hearly
      simp only [gt_iff_lt, BitVec.lt_def, not_lt, BitVec.toNat_add, toNat_rdtsc32] at hlate hearly
      have h1 : (tsc k).toNat ≤ (tsc j).toNat := hmono hj
      have h2 : (tsc j).toNat ≤ (tsc (j + 1)).toNat := hmono (Nat.le_succ j)
      have h3 : (tsc (j + 1)).toNat ≤ (tsc (t.next - 1)).toNat := hmono (by omega)
      have h4 := deadline_passed h2 h3 ticks.isLt hlate hearly
      omega
    next => cases h
  next => cases h

theorem le_calibrate {k fuel n : ℕ} {ticksPerMsec : BitVec 32}
    (h : calibrateTscTicksPerMsec tsc k fuel = some (ticksPerMsec, n)) : k ≤ n := by
  have hrun : (run late (calibrateStep tsc) fuel 0 (.initial k)).All _ _ _ :=
    run_keeps (fun s => k ≤ s.next) (fun _ _ hs => Nat.le_add_right_of_le hs) le_rfl
  unfold calibrateTscTicksPerMsec at h
  split at h
  next s hs =>
    rw [hs] at hrun
    cases h
    exact hrun
  next => cases h

theorem stallUsingTsc_elapsed (hmono : Monotone fun i => (tsc i).toNat)
    {ticksPerMsec ticksPerMsec' stallUsec : BitVec 32} {k fuel n : ℕ}
    (h : stallUsingTsc tsc ticksPerMsec stallUsec k fuel = some (ticksPerMsec', n)) :
    (tsc k).toNat + (stallUsec * ticksPerMsec' / 1000).toNat ≤ (tsc (n - 1)).toNat := by
  unfold stallUsingTsc at h
  dsimp only at h
  split at h
  next => cases h
  next t k' hcal =>
    have hk : k ≤ k' := by
      split at hcal
      · exact le_calibrate hcal
      · cases hcal
        exact le_rfl
    obtain ⟨m, hm, he⟩ := Option.map_eq_some_iff.mp h
    cases he
    have h1 : (tsc k).toNat ≤ (tsc k').toNat := hmono hk
    have h2 := stallTicks_elapsed hmono hm
    omega

/-- The ticks that the code computes fall short as soon as the product does not fit. -/
theorem toNat_ticks (stallUsec ticksPerMsec : BitVec 32) :
    (stallUsec * ticksPerMsec / 1000).toNat =
      stallUsec.toNat * ticksPerMsec.toNat % 2 ^ 32 / 1000 := by
  rw [BitVec.toNat_udiv, BitVec.toNat_mul]
  rfl

/-- A counter that stands still for two readings and then reaches the deadline. -/
def steppingTsc (ticks : BitVec 32) (k : ℕ) : BitVec 64 := if k < 2 then 0 else ticks.setWidth 64

theorem monotone_steppingTsc (ticks : BitVec 32) :
    Monotone fun i => (steppingTsc ticks i).toNat := by
  intro i j hij
  unfold steppingTsc
  dsimp only
  split
  · exact Nat.zero_le _
  · rw [if_neg (by omega)]

theorem rdtsc32_steppingTsc (ticks : BitVec 32) (k : ℕ) :
    rdtsc32 (steppingTsc ticks) k = if k < 2 then 0 else ticks := by
  apply BitVec.eq_of_toNat_eq
  rw [toNat_rdtsc32]
  unfold steppingTsc
  split
  · rfl
  · rw [BitVec.toNat_setWidth]
    omega

theorem stallTicks_steppingTsc (ticks : BitVec 32) :
    ∃ n, stallTicks (steppingTsc ticks) ticks 0 1 = some n ∧
      (steppingTsc ticks (n - 1)).toNat = ticks.toNat := by
  have h0 : rdtsc32 (steppingTsc ticks) 0 = 0 := rdtsc32_steppingTsc ticks 0
  have h1 : rdtsc32 (steppingTsc ticks) 1 = 0 := rdtsc32_steppingTsc ticks 1
  have h2 : rdtsc32 (steppingTsc ticks) 2 = ticks := rdtsc32_steppingTsc ticks 2
  have hfirst : run late (deadlineStep (steppingTsc ticks) ticks) 1 0 (.initial 0) =
      .next ⟨0, ticks, 2⟩ := by
    have hnot : ¬ late 1 ⟨0, 0 + ticks, 2⟩ := by
      unfold late
      rw [gt_iff_lt, BitVec.lt_def]
      exact Nat.not_lt_zero _
    unfold run
    rw [if_pos (show late 0 (.initial 0) from by decide)]
    simp only [deadlineStep, Clock.initial, h0, h1]
    unfold run
    rw [if_neg hnot, show (0 : BitVec 32) + ticks = ticks from BitVec.zero_add ticks]
  have hsecond : run early (waitStep (steppingTsc ticks)) 1 0 ⟨0, ticks, 2⟩ =
      .next (if ticks = 0 then ⟨0, ticks, 2⟩ else ⟨ticks, ticks, 3⟩) := by
    unfold run
    by_cases hz : ticks = 0
    · subst hz
      rfl
    · have hearly : early 0 ⟨0, ticks, 2⟩ := by
        unfold early
        rw [BitVec.lt_def]
        exact Nat.pos_of_ne_zero fun h => hz (BitVec.eq_of_toNat_eq h)
      have hnot : ¬ early 1 ⟨ticks, ticks, 3⟩ := by
        unfold early
        exact BitVec.lt_irrefl ticks
      rw [if_pos hearly, if_neg hz]
      simp only [waitStep, h2]
      unfold run
      rw [if_neg hnot]
  unfold stallTicks
  rw [hfirst]
  dsimp only
  rw [hsecond]
  refine ⟨_, rfl, ?_⟩
  by_cases hz : ticks = 0
  · subst hz
    rfl
  · rw [if_neg hz]
    unfold steppingTsc
    rw [if_neg (show ¬ 3 - 1 < 2 by decide), BitVec.toNat_setWidth]
    omega

/-- Every stall that returns has waited long enough if and only if the product of the two
factors fits into 32 bits. -/
theorem stall_elapsed_iff (stallUsec ticksPerMsec : BitVec 32) :
    (∀ tsc : ℕ → BitVec 64, Monotone (fun i => (tsc i).toNat) →
      ∀ ticksPerMsec₀ k fuel n,
        stallUsingTsc tsc ticksPerMsec₀ stallUsec k fuel = some (ticksPerMsec, n) →
        (tsc k).toNat + stallUsec.toNat * ticksPerMsec.toNat / 1000 ≤ (tsc (n - 1)).toNat) ↔
      stallUsec.toNat * ticksPerMsec.toNat < 2 ^ 32 := by
  constructor
  · intro h
    by_contra hbig
    have hne : ticksPerMsec ≠ 0 := by
      rintro rfl
      exact hbig (show stallUsec.toNat * 0 < 2 ^ 32 by omega)
    obtain ⟨n, hn, hlast⟩ := stallTicks_steppingTsc (stallUsec * ticksPerMsec / 1000)
    have hrun : stallUsingTsc (steppingTsc (stallUsec * ticksPerMsec / 1000)) ticksPerMsec
        stallUsec 0 1 = some (ticksPerMsec, n) := by
      unfold stallUsingTsc
      dsimp only
      rw [if_neg hne]
      dsimp only
      rw [hn]
      rfl
    have hel := h _ (monotone_steppingTsc _) _ _ _ _ hrun
    rw [hlast, toNat_ticks] at hel
    omega
  · intro hfit tsc hmono ticksPerMsec₀ k fuel n hn
    have hel := stallUsingTsc_elapsed hmono hn
    rwa [toNat_ticks, Nat.mod_eq_of_lt hfit] at hel

/-- The 200 ms after a SIPI with 2000000 ticks a millisecond: 568041 ticks instead of
400000000. -/
theorem stall_too_short :
    Monotone (fun i => (steppingTsc 568041 i).toNat) ∧
      stallUsingTsc (steppingTsc 568041) 2000000 200000 0 1 = some (2000000, 3) ∧
      (200000 * 2000000) / 1000 < 2 ^ 32 ∧
      ¬ (steppingTsc 568041 0).toNat + 200000 * 2000000 / 1000 ≤ (steppingTsc 568041 2).toNat := by
  refine ⟨monotone_steppingTsc _, ?_, ?_, ?_⟩
  · decide
  · decide
  · decide

end stall

end IkgtLoader.StartAp
