import IkgtLoader.Flat.Loop

/-! Loops that are to end within a number of rounds, and those whose counter is a signed word that
wraps, against an unsigned bound that is read again in every round. -/
namespace Loop

variable {σ : Type*} {w n i : ℕ} {bound : σ → ℕ} {body : ℕ → σ → Outcome σ} {s t : σ}

/-- The counter in round `i`. -/
def counter (w i : ℕ) : ℤ := (BitVec.ofNat w i).toInt

def BelowBound (w : ℕ) (bound : σ → ℕ) (i : ℕ) (s : σ) : Prop := counter w i < (bound s : ℤ)

instance (w : ℕ) (bound : σ → ℕ) (i : ℕ) (s : σ) : Decidable (BelowBound w bound i s) :=
  inferInstanceAs (Decidable (_ < _))

theorem counter_of_lt (h : i < 2 ^ (w - 1)) : counter w i = i := by
  have hdouble : 2 * i < 2 ^ w := by
    rcases Nat.eq_zero_or_pos w with rfl | hw
    · have hzero : i = 0 := Nat.lt_one_iff.mp h
      simp [hzero]
    · have hpow := Nat.two_pow_pred_mul_two hw
      omega
  have hnat : (BitVec.ofNat w i).toNat = i := by
    rw [BitVec.toNat_ofNat]
    exact Nat.mod_eq_of_lt (by omega)
  unfold counter
  rw [BitVec.toInt_eq_toNat_of_lt (by rwa [hnat]), hnat]

theorem counter_lt_of_half_le (h : 2 ^ (w - 1) ≤ n) : counter w i < (n : ℤ) := by
  have hlt : counter w i < 2 ^ (w - 1) := BitVec.toInt_lt
  have hle : ((2 ^ (w - 1) : ℕ) : ℤ) ≤ n := Int.ofNat_le.mpr h
  push_cast at hle
  omega

theorem counter_neg (h : 2 ^ (w - 1) ≤ i) (hi : i < 2 ^ w) : counter w i < 0 := by
  have hw : 0 < w := by
    rcases Nat.eq_zero_or_pos w with rfl | hw
    · simp at h hi
      omega
    · exact hw
  have hpow := Nat.two_pow_pred_mul_two hw
  have hnat : (BitVec.ofNat w i).toNat = i := by
    rw [BitVec.toNat_ofNat]
    exact Nat.mod_eq_of_lt hi
  unfold counter
  rw [BitVec.toInt_eq_toNat_cond, hnat, if_neg (by omega)]
  omega

theorem belowBound_iff (h : i < 2 ^ (w - 1)) : BelowBound w bound i s ↔ i < bound s := by
  unfold BelowBound
  rw [counter_of_lt h]
  omega

theorem belowBound_of_half_le (h : 2 ^ (w - 1) ≤ i) (hi : i < 2 ^ w) : BelowBound w bound i s := by
  have hneg := counter_neg h hi
  unfold BelowBound
  omega

section bounded
variable {cond : ℕ → σ → Prop} [∀ i s, Decidable (cond i s)] {ok : ℕ → Prop} {m : ℕ}

/-- From round `i` on the loop ends within its first `n` rounds, and the rounds it comes to are `ok`. -/
structure EndsFrom (cond : ℕ → σ → Prop) [∀ i s, Decidable (cond i s)] (body : ℕ → σ → Outcome σ)
    (ok : ℕ → Prop) (n i : ℕ) (s : σ) : Prop where
  ends : ∀ t, run cond body (n - i) i s ≠ .spent t
  visits : ∀ fuel, Admits cond body (fun j _ => ok j) fuel i s

/-- The state before the round that is `k` rounds after `i`, if these all go on. -/
def stateFrom (body : ℕ → σ → Outcome σ) : ℕ → σ → ℕ → Option σ
  | _, s, 0 => some s
  | i, s, k + 1 =>
    match body i s with
    | .next t => stateFrom body (i + 1) t k
    | _ => none

/-- In one of the rounds from `i` to `m` the loop is left: by its condition, or out of a round
before `m`. -/
def LeavesFrom (cond : ℕ → σ → Prop) (body : ℕ → σ → Outcome σ) (m i : ℕ) (s : σ) : Prop :=
  ∃ k, i + k ≤ m ∧ ∃ t, stateFrom body i s k = some t ∧
    (¬ cond (i + k) t ∨ i + k < m ∧ ∀ u, body (i + k) t ≠ .next u)

theorem EndsFrom.of_cond (h : ¬ cond i s) : EndsFrom cond body ok n i s := by
  constructor
  · intro t ht
    cases hk : n - i <;> rw [hk] at ht <;> unfold run at ht <;> rw [if_neg h] at ht <;> cases ht
  · intro fuel
    cases fuel with
    | zero => trivial
    | succ fuel => exact fun hc => absurd hc h

theorem endsFrom_last : EndsFrom cond body ok n n s ↔ ¬ cond n s := by
  refine ⟨fun h hc => ?_, .of_cond⟩
  have hrun : run cond body (n - n) n s = .spent s := by
    rw [Nat.sub_self]
    exact if_pos hc
  exact h.ends s hrun

theorem run_round (hn : i < n) (hc : cond i s) : run cond body (n - i) i s =
    match body i s with
    | .next t => run cond body (n - (i + 1)) (i + 1) t
    | o => o := by
  rw [show n - i = n - (i + 1) + 1 by omega]
  exact if_pos hc

/-- A round that leaves the loop ends it well. -/
theorem EndsFrom.of_leave (hn : i < n) (hc : cond i s) (hok : ok i)
    (hspent : ∀ t, body i s ≠ .spent t) (hquit : ∀ t, body i s ≠ .next t) :
    EndsFrom cond body ok n i s := by
  constructor
  · intro t ht
    rw [run_round hn hc] at ht
    cases he : body i s with
    | next u => exact hquit u he
    | quit u => rw [he] at ht; cases ht
    | spent u => exact hspent u he
  · intro fuel
    cases fuel with
    | zero => trivial
    | succ fuel => exact fun _ => ⟨hok, fun t ht => absurd ht (hquit t)⟩

/-- A round that goes on leaves it to the rounds after it. -/
theorem endsFrom_next (hn : i < n) (hc : cond i s) (hok : ok i) (ht : body i s = .next t) :
    EndsFrom cond body ok n i s ↔ EndsFrom cond body ok n (i + 1) t := by
  have hrun : run cond body (n - i) i s = _ := run_round hn hc
  rw [ht] at hrun
  constructor
  · intro h
    exact ⟨fun u hu => h.ends u (hrun.trans hu), fun fuel => (h.visits (fuel + 1) hc).2 t ht⟩
  · intro h
    refine ⟨fun u hu => h.ends u (hrun.symm.trans hu), fun fuel => ?_⟩
    cases fuel with
    | zero => trivial
    | succ fuel =>
      refine fun _ => ⟨hok, fun u hu => ?_⟩
      cases ht.symm.trans hu
      exact h.visits fuel

omit [∀ i s, Decidable (cond i s)] in
theorem LeavesFrom.now (hm : i ≤ m) (h : ¬ cond i s ∨ i < m ∧ ∀ t, body i s ≠ .next t) :
    LeavesFrom cond body m i s :=
  ⟨0, hm, s, rfl, h⟩

omit [∀ i s, Decidable (cond i s)] in
theorem leavesFrom_next (hc : cond i s) (ht : body i s = .next t) :
    LeavesFrom cond body m i s ↔ LeavesFrom cond body m (i + 1) t := by
  have hstep : ∀ k, stateFrom body i s (k + 1) = stateFrom body (i + 1) t k := fun k => by
    simp only [stateFrom, ht]
  constructor
  · rintro ⟨k, hk, u, hu, hleft⟩
    cases k with
    | zero =>
      cases hu
      rcases hleft with hnot | ⟨_, hquit⟩
      · exact absurd hc hnot
      · exact absurd ht (hquit t)
    | succ k =>
      rw [hstep] at hu
      rw [show i + (k + 1) = i + 1 + k by omega] at hk hleft
      exact ⟨k, hk, u, hu, hleft⟩
  · rintro ⟨k, hk, u, hu, hleft⟩
    rw [← hstep] at hu
    rw [show i + 1 + k = i + (k + 1) by omega] at hk hleft
    exact ⟨k + 1, hk, u, hu, hleft⟩

/-- A loop whose rounds below `m` are `ok` and that must not come to the round `m`, because there
are no more rounds or because that one is not, ends well exactly if it is left before. -/
theorem endsFrom_iff (hspent : ∀ i s t, body i s ≠ .spent t) (hok : ∀ j < m, ok j) (hmn : m ≤ n)
    (hlast : m < n → (∀ s, cond m s) ∧ ¬ ok m) (hi : i ≤ m) :
    EndsFrom cond body ok n i s ↔ LeavesFrom cond body m i s := by
  induction hd : m - i generalizing i s with
  | zero =>
    obtain rfl : i = m := by omega
    have hleave : LeavesFrom cond body i i s ↔ ¬ cond i s := by
      refine ⟨?_, fun h => .now le_rfl (.inl h)⟩
      rintro ⟨k, hk, t, ht, hleft⟩
      obtain rfl : k = 0 := by omega
      cases ht
      exact hleft.resolve_right fun h => Nat.lt_irrefl i h.1
    rw [hleave]
    rcases Nat.lt_or_eq_of_le hmn with hlt | rfl
    · obtain ⟨hc, hnot⟩ := hlast hlt
      exact iff_of_false (fun h => hnot (h.visits 1 (hc s)).1) fun h => h (hc s)
    · exact endsFrom_last
  | succ d ih =>
    have him : i < m := by omega
    by_cases hc : cond i s
    · cases he : body i s with
      | next t =>
        rw [endsFrom_next (by omega) hc (hok i him) he, leavesFrom_next hc he]
        exact ih him (by omega)
      | quit t =>
        have hquit : ∀ t, body i s ≠ .next t := fun t ht => by rw [he] at ht; cases ht
        exact iff_of_true (.of_leave (by omega) hc (hok i him) (hspent i s) hquit)
          (.now hi (.inr ⟨him, hquit⟩))
      | spent t => exact absurd he (hspent i s t)
    · exact iff_of_true (.of_cond hc) (.now hi (.inl hc))

omit [∀ i s, Decidable (cond i s)] in
/-- It is so left if its condition fails in the round `m` at the latest. -/
theorem LeavesFrom.of_cond (hspent : ∀ i s t, body i s ≠ .spent t) (hi : i ≤ m)
    (hlast : ∀ k t, i + k = m → stateFrom body i s k = some t → ¬ cond m t) :
    LeavesFrom cond body m i s := by
  induction hd : m - i generalizing i s with
  | zero =>
    obtain rfl : i = m := by omega
    exact .now hi (.inl (hlast 0 s rfl rfl))
  | succ d ih =>
    by_cases hc : cond i s
    · cases he : body i s with
      | next t =>
        rw [leavesFrom_next hc he]
        refine ih (by omega) (fun k u hk hu => hlast (k + 1) u (by omega) ?_) (by omega)
        simp only [stateFrom, he]
        exact hu
      | quit t =>
        exact .now hi (.inr ⟨by omega, fun u hu => by rw [he] at hu; cases hu⟩)
      | spent t => exact absurd he (hspent i s t)
    · exact .now hi (.inl hc)

end bounded

end Loop
