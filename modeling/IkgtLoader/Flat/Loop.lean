import Mathlib.Algebra.Group.Nat.Defs
import Mathlib.Data.Nat.Basic

/-! Counted loops with an early exit. The fuel bounds the number of rounds; a loop that
still wants to go on when it is spent says so. -/
namespace Loop

variable {σ : Type*}

/-- How a round ends: with the next one, or with a `goto` out of the loop. -/
inductive Outcome (σ : Type*)
  | next (s : σ)
  | quit (s : σ)
  | spent (s : σ)

namespace Outcome

/-- The state in which the loop was left. -/
def state : Outcome σ → σ
  | .next s => s
  | .quit s => s
  | .spent s => s

/-- What holds of the state, by the way the loop was left. -/
def All (next quit spent : σ → Prop) : Outcome σ → Prop
  | .next s => next s
  | .quit s => quit s
  | .spent s => spent s

instance {next quit spent : σ → Prop} [DecidablePred next] [DecidablePred quit]
    [DecidablePred spent] : (o : Outcome σ) → Decidable (o.All next quit spent)
  | .next s => inferInstanceAs (Decidable (next s))
  | .quit s => inferInstanceAs (Decidable (quit s))
  | .spent s => inferInstanceAs (Decidable (spent s))

theorem All.mono {p q r p' q' r' : σ → Prop} {o : Outcome σ} (h : o.All p q r)
    (hp : ∀ s, p s → p' s) (hq : ∀ s, q s → q' s) (hr : ∀ s, r s → r' s) : o.All p' q' r' := by
  cases o with
  | next s => exact hp s h
  | quit s => exact hq s h
  | spent s => exact hr s h

def map {τ : Type*} (f : σ → τ) : Outcome σ → Outcome τ
  | .next s => .next (f s)
  | .quit s => .quit (f s)
  | .spent s => .spent (f s)

@[simp] theorem all_map {τ : Type*} {f : σ → τ} {o : Outcome σ} {p q r : τ → Prop} :
    (o.map f).All p q r ↔ o.All (fun s => p (f s)) (fun s => q (f s)) (fun s => r (f s)) := by
  cases o <;> rfl

end Outcome

/-- `for (; cond; ++i) body`. -/
def run (cond : ℕ → σ → Prop) [∀ i s, Decidable (cond i s)] (body : ℕ → σ → Outcome σ) :
    ℕ → ℕ → σ → Outcome σ
  | 0, i, s => if cond i s then .spent s else .next s
  | fuel + 1, i, s =>
    if cond i s then
      match body i s with
      | .next t => run cond body fuel (i + 1) t
      | o => o
    else .next s

variable {cond : ℕ → σ → Prop} [∀ i s, Decidable (cond i s)] {body : ℕ → σ → Outcome σ}

/-- The rule for a loop with an index: `I` at the index before every round. -/
theorem run_all (I : ℕ → σ → Prop) (Q R : σ → Prop)
    (hbody : ∀ i s, cond i s → I i s → (body i s).All (I (i + 1)) Q R) {fuel i : ℕ} {s : σ}
    (h : I i s) :
    (run cond body fuel i s).All (fun t => ∃ j, i ≤ j ∧ I j t ∧ ¬ cond j t) Q
      (fun t => R t ∨ ∃ j, j = i + fuel ∧ I j t ∧ cond j t) := by
  induction fuel generalizing i s with
  | zero =>
    unfold run
    split
    next hc => exact .inr ⟨i, rfl, h, hc⟩
    next hc => exact ⟨i, le_rfl, h, hc⟩
  | succ fuel ih =>
    unfold run
    split
    next hc =>
      have hb := hbody i s hc h
      cases he : body i s with
      | next t =>
        rw [he] at hb
        refine (ih hb).mono ?_ (fun _ hq => hq) ?_
        · rintro u ⟨j, hj, hI, hn⟩
          exact ⟨j, by omega, hI, hn⟩
        · rintro u (hr | ⟨j, rfl, hI, hn⟩)
          · exact .inl hr
          · exact .inr ⟨_, by omega, hI, hn⟩
      | quit t => rwa [he] at hb
      | spent t => rw [he] at hb; exact .inl hb
    next hc => exact ⟨i, le_rfl, h, hc⟩

/-- What every round keeps holds however the loop is left. -/
theorem run_keeps (P : σ → Prop) (hbody : ∀ i s, P s → (body i s).All P P P) {fuel i : ℕ} {s : σ}
    (h : P s) : (run cond body fuel i s).All P P P := by
  refine (run_all (fun _ => P) P P (fun i s _ hp => hbody i s hp) h).mono ?_ (fun _ hq => hq) ?_
  · rintro t ⟨_, _, hp, _⟩
    exact hp
  · rintro t (hr | ⟨_, _, hp, _⟩)
    · exact hr
    · exact hp

/-- What every round that is begun keeps holds of the state at the end. -/
theorem run_state (P : σ → Prop) (hbody : ∀ i s, cond i s → P s → (body i s).All P P P)
    {fuel i : ℕ} {s : σ} (h : P s) : P (run cond body fuel i s).state := by
  have hall : (run cond body fuel i s).All _ _ _ := run_all (fun _ => P) P P hbody h
  cases he : run cond body fuel i s with
  | next t =>
    rw [he] at hall
    obtain ⟨_, _, hp, _⟩ := hall
    exact hp
  | quit t =>
    rw [he] at hall
    exact hall
  | spent t =>
    rw [he] at hall
    rcases hall with hp | ⟨_, _, hp, _⟩
    · exact hp
    · exact hp

/-- A loop of `n` rounds that never leaves early. -/
theorem run_count (I : ℕ → σ → Prop) {n : ℕ} (hcond : ∀ i s, I i s → (cond i s ↔ i < n))
    (hbody : ∀ i s, i < n → I i s → ∃ t, body i s = .next t ∧ I (i + 1) t) {fuel i : ℕ} {s : σ}
    (hi : i ≤ n) (hf : n ≤ i + fuel) (h : I i s) :
    ∃ t, run cond body fuel i s = .next t ∧ I n t := by
  induction fuel generalizing i s with
  | zero =>
    have he : i = n := by omega
    subst he
    exact ⟨s, if_neg (fun hc => absurd ((hcond i s h).mp hc) (lt_irrefl i)), h⟩
  | succ fuel ih =>
    by_cases hc : cond i s
    · obtain ⟨t, ht, hI⟩ := hbody i s ((hcond i s h).mp hc) h
      obtain ⟨u, hu, hJ⟩ := ih ((hcond i s h).mp hc) (by omega) hI
      exact ⟨u, by unfold run; rw [if_pos hc, ht]; exact hu, hJ⟩
    · have he : i = n := by
        have := (hcond i s h).not.mp hc
        omega
      subst he
      exact ⟨s, by unfold run; rw [if_neg hc], h⟩

/-- A loop whose rounds all go on and are all allowed, as far as the fuel reaches. -/
theorem run_spent (hbody : ∀ i s, ∃ t, body i s = .next t) {fuel i : ℕ} {s : σ}
    (hcond : ∀ j s, i ≤ j → j ≤ i + fuel → cond j s) : ∃ t, run cond body fuel i s = .spent t := by
  induction fuel generalizing i s with
  | zero => exact ⟨s, if_pos (hcond i s le_rfl le_rfl)⟩
  | succ fuel ih =>
    obtain ⟨t, ht⟩ := hbody i s
    obtain ⟨u, hu⟩ := ih (i := i + 1) (s := t) fun j s h1 h2 => hcond j s (by omega) (by omega)
    refine ⟨u, ?_⟩
    unfold run
    rw [if_pos (hcond i s le_rfl (by omega)), ht]
    exact hu

/-- Every round is begun in a state that allows it. -/
def Admits (cond : ℕ → σ → Prop) (body : ℕ → σ → Outcome σ) (ok : ℕ → σ → Prop) :
    ℕ → ℕ → σ → Prop
  | 0, _, _ => True
  | fuel + 1, i, s => cond i s → ok i s ∧ ∀ t, body i s = .next t → Admits cond body ok fuel (i + 1) t

omit [∀ i s, Decidable (cond i s)] in
/-- An invariant that allows every round. -/
theorem admits_of_invariant {ok : ℕ → σ → Prop} (I : ℕ → σ → Prop) {fuel i : ℕ} {s : σ} (h : I i s)
    (hok : ∀ i s, I i s → cond i s → ok i s)
    (hbody : ∀ i s t, I i s → cond i s → body i s = .next t → I (i + 1) t) :
    Admits cond body ok fuel i s := by
  induction fuel generalizing i s with
  | zero => trivial
  | succ fuel ih =>
    intro hc
    exact ⟨hok i s h hc, fun t ht => ih (hbody i s t h hc ht)⟩

omit [∀ i s, Decidable (cond i s)] in
/-- A loop that counts to `n` admits what its rounds admit. -/
theorem admits_count_iff {n : ℕ} {ok : ℕ → Prop} (hbody : ∀ i s, ∃ t, body i s = .next t) {fuel i : ℕ}
    {s : σ} : Admits (fun i _ => i < n) body (fun i _ => ok i) fuel i s ↔
      ∀ j, i ≤ j → j < i + fuel → j < n → ok j := by
  induction fuel generalizing i s with
  | zero => exact iff_of_true trivial fun j h1 h2 => absurd h2 (by omega)
  | succ fuel ih =>
    obtain ⟨t, ht⟩ := hbody i s
    unfold Admits
    constructor
    · intro h j hij hj hn
      obtain ⟨hi, hrest⟩ := h (by omega)
      rcases Nat.lt_or_eq_of_le hij with hlt | rfl
      · exact ih.mp (hrest t ht) j hlt (by omega) hn
      · exact hi
    · intro h hi
      refine ⟨h i le_rfl (by omega) hi, fun u _ => ih.mpr fun j hij hj hn => ?_⟩
      exact h j (by omega) (by omega) hn

/-- A loop that goes to its end admits what its rounds need to go on. -/
theorem admits_of_next {ok : ℕ → σ → Prop} (hok : ∀ i s t, body i s = .next t → ok i s) {fuel i : ℕ}
    {s t : σ} (h : run cond body fuel i s = .next t) : Admits cond body ok fuel i s := by
  induction fuel generalizing i s with
  | zero => trivial
  | succ fuel ih =>
    intro hc
    unfold run at h
    rw [if_pos hc] at h
    cases he : body i s with
    | next u =>
      rw [he] at h
      exact ⟨hok i s u he, fun v hv => by cases hv; exact ih h⟩
    | quit u => rw [he] at h; cases h
    | spent u => rw [he] at h; cases h

/-- What the rounds of a loop that goes to its end admit alike, the loop does. -/
theorem admits_congr_of_next {ok ok' : ℕ → σ → Prop}
    (hok : ∀ i s t, body i s = .next t → (ok i s ↔ ok' i s)) {fuel i : ℕ} {s t : σ}
    (h : run cond body fuel i s = .next t) :
    Admits cond body ok fuel i s ↔ Admits cond body ok' fuel i s := by
  induction fuel generalizing i s with
  | zero => rfl
  | succ fuel ih =>
    refine forall_congr' fun hc => ?_
    unfold run at h
    rw [if_pos hc] at h
    cases he : body i s with
    | next u =>
      rw [he] at h
      refine and_congr (hok i s u he) (forall_congr' fun v => forall_congr' fun hv => ?_)
      cases hv
      exact ih h
    | quit u => rw [he] at h; cases h
    | spent u => rw [he] at h; cases h

/-- The state before each round that is begun, and the one after the last, are `P`. -/
def Throughout (cond : ℕ → σ → Prop) (body : ℕ → σ → Outcome σ) (P : σ → Prop) : ℕ → ℕ → σ → Prop
  | 0, _, s => P s
  | fuel + 1, i, s =>
    P s ∧ (cond i s → ∀ t, body i s = .next t → Throughout cond body P fuel (i + 1) t)

omit [∀ i s, Decidable (cond i s)] in
/-- If the rounds keep `P` exactly in the states that allow them, it holds throughout exactly if they
are all begun in such states. -/
theorem throughout_iff {P : σ → Prop} {ok : ℕ → σ → Prop}
    (hbody : ∀ i s, P s → ∃ t, body i s = .next t ∧ (P t ↔ ok i s)) {fuel i : ℕ} {s : σ} :
    Throughout cond body P fuel i s ↔ P s ∧ Admits cond body ok fuel i s := by
  induction fuel generalizing i s with
  | zero => exact (and_iff_left trivial).symm
  | succ fuel ih =>
    refine and_congr_right fun hs => forall_congr' fun _ => ?_
    obtain ⟨t, ht, hok⟩ := hbody i s hs
    constructor
    · intro h
      have hrest := ih.mp (h t ht)
      refine ⟨hok.mp hrest.1, fun u hu => ?_⟩
      cases ht.symm.trans hu
      exact hrest.2
    · rintro ⟨h, hrest⟩ u hu
      cases ht.symm.trans hu
      exact ih.mpr ⟨hok.mpr h, hrest t ht⟩

/-- Then it holds at the end. -/
theorem Throughout.run {P : σ → Prop} {fuel i : ℕ} {s t : σ} (h : Throughout cond body P fuel i s)
    (hrun : run cond body fuel i s = .next t) : P t := by
  induction fuel generalizing i s with
  | zero =>
    unfold Loop.run at hrun
    split at hrun
    · cases hrun
    · cases hrun
      exact h
  | succ fuel ih =>
    unfold Loop.run at hrun
    split at hrun
    next hc =>
      cases he : body i s with
      | next u =>
        rw [he] at hrun
        exact ih (h.2 hc u he) hrun
      | quit u => rw [he] at hrun; cases hrun
      | spent u => rw [he] at hrun; cases hrun
    next => cases hrun; exact h.1

omit [∀ i s, Decidable (cond i s)] in
theorem throughout_of_invariant {P : σ → Prop} (I : ℕ → σ → Prop) {fuel i : ℕ} {s : σ} (h : I i s)
    (hP : ∀ i s, I i s → P s)
    (hbody : ∀ i s t, I i s → cond i s → body i s = .next t → I (i + 1) t) :
    Throughout cond body P fuel i s := by
  induction fuel generalizing i s with
  | zero => exact hP i s h
  | succ fuel ih => exact ⟨hP i s h, fun hc t ht => ih (hbody i s t h hc ht)⟩

/-- The rule for a loop whose rounds are all begun in states that allow them. -/
theorem run_all_of_admits {ok : ℕ → σ → Prop} (I : ℕ → σ → Prop) (Q : σ → Prop)
    (hbody : ∀ i s, cond i s → ok i s → I i s → (body i s).All (I (i + 1)) Q fun _ => False)
    {fuel i : ℕ} {s : σ} (hadm : Admits cond body ok fuel i s) (h : I i s) :
    (run cond body fuel i s).All (fun t => ∃ j, I j t ∧ ¬ cond j t) Q
      fun t => I (i + fuel) t ∧ cond (i + fuel) t := by
  induction fuel generalizing i s with
  | zero =>
    unfold run
    split
    next hc => exact ⟨h, hc⟩
    next hc => exact ⟨i, h, hc⟩
  | succ fuel ih =>
    unfold run
    split
    next hc =>
      obtain ⟨hok, hrest⟩ := hadm hc
      have hb := hbody i s hc hok h
      cases he : body i s with
      | next t =>
        rw [he] at hb
        refine (ih (hrest t he) hb).mono (fun _ hu => hu) (fun _ hq => hq) fun u hu => ?_
        rwa [show i + (fuel + 1) = i + 1 + fuel by omega]
      | quit t => rwa [he] at hb
      | spent t => rw [he] at hb; exact hb.elim
    next hc => exact ⟨i, h, hc⟩

/-- If a round keeps `P` exactly in the states that allow it, so does the loop. -/
theorem run_iff (P : σ → Prop) (ok : ℕ → σ → Prop)
    (hbody : ∀ i s, (body i s).All P P P ↔ P s ∧ ok i s) {fuel i : ℕ} {s : σ} :
    (run cond body fuel i s).All P P P ↔ P s ∧ Admits cond body ok fuel i s := by
  induction fuel generalizing i s with
  | zero =>
    unfold run Admits
    split <;> exact (and_iff_left trivial).symm
  | succ fuel ih =>
    have hb := hbody i s
    unfold run Admits
    split
    next hc =>
      cases he : body i s with
      | next t =>
        rw [he] at hb
        constructor
        · intro h
          obtain ⟨hp, hr⟩ := ih.mp h
          obtain ⟨hs, hok⟩ := hb.mp hp
          exact ⟨hs, fun _ => ⟨hok, fun u hu => by cases hu; exact hr⟩⟩
        · intro h
          obtain ⟨hok, hr⟩ := h.2 hc
          exact ih.mpr ⟨hb.mpr ⟨h.1, hok⟩, hr t rfl⟩
      | quit t =>
        rw [he] at hb
        refine hb.trans (and_congr_right fun _ => ?_)
        exact ⟨fun hok _ => ⟨hok, fun u hu => by cases hu⟩, fun h => (h hc).1⟩
      | spent t =>
        rw [he] at hb
        refine hb.trans (and_congr_right fun _ => ?_)
        exact ⟨fun hok _ => ⟨hok, fun u hu => by cases hu⟩, fun h => (h hc).1⟩
    next hc => exact ⟨fun hs => ⟨hs, fun h => absurd h hc⟩, fun h => h.1⟩

/-- Two loops that are left in the same way, in related states. -/
def Outcome.Rel {τ : Type*} (R : σ → τ → Prop) : Outcome σ → Outcome τ → Prop
  | .next s, .next t => R s t
  | .quit s, .quit t => R s t
  | .spent s, .spent t => R s t
  | _, _ => False

/-- The rule for two loops in lockstep. -/
theorem run_rel {τ : Type*} {cond' : ℕ → τ → Prop} [∀ i t, Decidable (cond' i t)]
    {body' : ℕ → τ → Outcome τ} (R : σ → τ → Prop)
    (hcond : ∀ i s t, R s t → (cond i s ↔ cond' i t))
    (hbody : ∀ i s t, cond i s → R s t → (body i s).Rel R (body' i t)) {fuel i : ℕ} {s : σ} {t : τ}
    (h : R s t) : (run cond body fuel i s).Rel R (run cond' body' fuel i t) := by
  induction fuel generalizing i s t with
  | zero =>
    have hiff := hcond i s t h
    unfold run
    by_cases hc : cond i s
    · rw [if_pos hc, if_pos (hiff.mp hc)]
      exact h
    · rw [if_neg hc, if_neg (hiff.not.mp hc)]
      exact h
  | succ fuel ih =>
    have hiff := hcond i s t h
    unfold run
    by_cases hc : cond i s
    · rw [if_pos hc, if_pos (hiff.mp hc)]
      have hb := hbody i s t hc h
      cases hs : body i s <;> cases ht : body' i t <;> rw [hs, ht] at hb
      all_goals first | exact ih hb | exact hb | exact hb.elim
    · rw [if_neg hc, if_neg (hiff.not.mp hc)]
      exact h

/-- The states in which two such loops end. -/
theorem Outcome.Rel.state {τ : Type*} {R : σ → τ → Prop} {o : Outcome σ} {o' : Outcome τ}
    (h : o.Rel R o') : R o.state o'.state := by
  cases o <;> cases o'
  all_goals first | exact h | exact h.elim

end Loop
