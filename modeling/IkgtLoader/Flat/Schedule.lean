import Mathlib.Data.List.Basic

/-! Runs of a deterministic step function along a list of actions. An interleaving of
several parties is a list of their names. -/
namespace Schedule

variable {σ α : Type*}

def run (step : σ → α → σ) (s : σ) (sched : List α) : σ := sched.foldl step s

/-- Every action of the run is taken in a state that allows it. -/
def Admits (step : σ → α → σ) (allowed : σ → α → Prop) : σ → List α → Prop
  | _, [] => True
  | s, a :: rest => allowed s a ∧ Admits step allowed (step s a) rest

variable {step : σ → α → σ} {allowed : σ → α → Prop}

instance decidableAdmits [∀ s a, Decidable (allowed s a)] :
    (s : σ) → (sched : List α) → Decidable (Admits step allowed s sched)
  | _, [] => isTrue trivial
  | s, a :: rest =>
    have := decidableAdmits (step s a) rest
    inferInstanceAs (Decidable (allowed s a ∧ Admits step allowed (step s a) rest))

@[simp] theorem run_nil (s : σ) : run step s [] = s := rfl

@[simp] theorem run_cons (s : σ) (a : α) (rest : List α) :
    run step s (a :: rest) = run step (step s a) rest := rfl

theorem run_append (s : σ) (p q : List α) : run step s (p ++ q) = run step (run step s p) q :=
  List.foldl_append

theorem admits_append {s : σ} {p q : List α} :
    Admits step allowed s (p ++ q) ↔
      Admits step allowed s p ∧ Admits step allowed (run step s p) q := by
  induction p generalizing s with
  | nil => simp [Admits]
  | cons a rest ih => simp [Admits, ih, and_assoc]

/-- What every allowed action preserves holds along the whole run. -/
theorem run_invariant (inv : σ → Prop)
    (hstep : ∀ s a, inv s → allowed s a → inv (step s a)) {s : σ} {sched : List α}
    (hs : inv s) (h : Admits step allowed s sched) : inv (run step s sched) := by
  induction sched generalizing s with
  | nil => exact hs
  | cons a rest ih => exact ih (hstep s a hs h.1) h.2

theorem admits_of_forall (h : ∀ s a, allowed s a) (s : σ) (sched : List α) :
    Admits step allowed s sched := by
  induction sched generalizing s with
  | nil => trivial
  | cons a rest ih => exact ⟨h s a, ih _⟩

/-- Two runs over the same actions whose states stay related admit the same actions. -/
theorem admits_iff_of_rel {τ : Type*} {step' : τ → α → τ} {allowed' : τ → α → Prop}
    (R : σ → τ → Prop) (hstep : ∀ s t a, R s t → R (step s a) (step' t a))
    (hallowed : ∀ s t a, R s t → (allowed s a ↔ allowed' t a)) {s : σ} {t : τ} (h : R s t)
    (sched : List α) : Admits step allowed s sched ↔ Admits step' allowed' t sched := by
  induction sched generalizing s t with
  | nil => exact Iff.rfl
  | cons a rest ih => exact and_congr (hallowed s t a h) (ih (hstep s t a h))

/-- Some admitted run leads from one state to the other. -/
def Reach (step : σ → α → σ) (allowed : σ → α → Prop) (s t : σ) : Prop :=
  ∃ sched, Admits step allowed s sched ∧ run step s sched = t

theorem Reach.refl (s : σ) : Reach step allowed s s := ⟨[], trivial, rfl⟩

theorem Reach.single {s : σ} {a : α} (h : allowed s a) : Reach step allowed s (step s a) :=
  ⟨[a], ⟨h, trivial⟩, rfl⟩

theorem Reach.trans {s t u : σ} (h : Reach step allowed s t) (h' : Reach step allowed t u) :
    Reach step allowed s u := by
  obtain ⟨p, hp, rfl⟩ := h
  obtain ⟨q, hq, rfl⟩ := h'
  exact ⟨p ++ q, admits_append.mpr ⟨hp, hq⟩, run_append s p q⟩

theorem Reach.tail {s t : σ} {a : α} (h : Reach step allowed s t) (ha : allowed t a) :
    Reach step allowed s (step t a) := h.trans (.single ha)

end Schedule
