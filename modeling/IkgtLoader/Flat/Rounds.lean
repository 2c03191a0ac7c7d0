import IkgtLoader.Flat.Schedule
import Mathlib.Data.List.Flatten
import Mathlib.Data.Set.Defs

/-! Runs that come to an end: schedules that give every action a turn in each round, and a
measure that every step which is not idle brings down. -/
namespace Schedule

variable {σ α : Type*}

/-- Each of the actions has a turn, in any order and any number of times. -/
def Round (actions : Set α) (r : List α) : Prop := ∀ a ∈ actions, a ∈ r

/-- What brings a run to its end: a step is idle or brings the measure down, and as long as
the end is not reached some action is not idle. -/
structure Settles (step : σ → α → σ) (allowed : σ → α → Prop) (actions : Set α)
    (inv done : σ → Prop) (measure : σ → ℕ) : Prop where
  keep : ∀ s a, inv s → allowed s a → inv (step s a)
  descend : ∀ s a, inv s → step s a = s ∨ measure (step s a) < measure s
  moves : ∀ s, inv s → ¬ done s → ∃ a ∈ actions, step s a ≠ s
  stays : ∀ s a, inv s → allowed s a → done s → done (step s a)

namespace Settles
variable {step : σ → α → σ} {allowed : σ → α → Prop} {actions : Set α} {inv done : σ → Prop}
  {measure : σ → ℕ}

theorem keep_run (h : Settles step allowed actions inv done measure) {s : σ} {l : List α}
    (hs : inv s) (hl : Admits step allowed s l) : inv (run step s l) :=
  run_invariant inv h.keep hs hl

theorem stays_run (h : Settles step allowed actions inv done measure) {s : σ} {l : List α}
    (hs : inv s) (hd : done s) (hl : Admits step allowed s l) : done (run step s l) := by
  induction l generalizing s with
  | nil => exact hd
  | cons a rest ih => exact ih (h.keep s a hs hl.1) (h.stays s a hs hl.1 hd) hl.2

theorem run_le (h : Settles step allowed actions inv done measure) {s : σ} {l : List α}
    (hs : inv s) (hl : Admits step allowed s l) : measure (run step s l) ≤ measure s := by
  induction l generalizing s with
  | nil => exact Nat.le_refl _
  | cons a rest ih =>
    have hrest := ih (h.keep s a hs hl.1) hl.2
    rw [run_cons]
    rcases h.descend s a hs with he | hlt
    · rw [he] at hrest ⊢
      exact hrest
    · omega

/-- A stretch of the run in which the measure stays is idle throughout. -/
theorem idle_or_lt (h : Settles step allowed actions inv done measure) {s : σ} {l : List α}
    (hs : inv s) (hl : Admits step allowed s l) :
    (∀ a ∈ l, step s a = s) ∨ measure (run step s l) < measure s := by
  induction l generalizing s with
  | nil => exact .inl fun a ha => by cases ha
  | cons a rest ih =>
    rcases h.descend s a hs with he | hlt
    · have hrest := hl.2
      rw [he] at hrest
      rcases ih hs hrest with hidle | hlt
      · left
        intro b hb
        rcases List.mem_cons.mp hb with rfl | hb
        · exact he
        · exact hidle b hb
      · right
        rwa [run_cons, he]
    · right
      have hle := h.run_le (h.keep s a hs hl.1) hl.2
      rw [run_cons]
      omega

/-- One round reaches the end or brings the measure down. -/
theorem run_round (h : Settles step allowed actions inv done measure) {s : σ} {r : List α}
    (hs : inv s) (hr : Round actions r) (hl : Admits step allowed s r) :
    done s ∨ measure (run step s r) < measure s := by
  by_cases hd : done s
  · exact .inl hd
  · obtain ⟨a, ha, hmove⟩ := h.moves s hs hd
    rcases h.idle_or_lt hs hl with hidle | hlt
    · exact absurd (hidle a (hr a ha)) hmove
    · exact .inr hlt

/-- More rounds than the measure allows reach the end. -/
theorem done_of_rounds (h : Settles step allowed actions inv done measure) {s : σ}
    {rounds : List (List α)} (hs : inv s) (hr : ∀ r ∈ rounds, Round actions r)
    (hn : measure s < rounds.length) (hl : Admits step allowed s rounds.flatten) :
    done (run step s rounds.flatten) := by
  induction rounds generalizing s with
  | nil => cases hn
  | cons r rest ih =>
    rw [List.flatten_cons] at hl ⊢
    obtain ⟨hl₁, hl₂⟩ := admits_append.mp hl
    have hs' := h.keep_run hs hl₁
    rw [run_append]
    rcases h.run_round hs (hr r (by simp)) hl₁ with hd | hlt
    · exact h.stays_run hs' (h.stays_run hs hd hl₁) hl₂
    · refine ih hs' (fun q hq => hr q (List.mem_cons_of_mem _ hq)) ?_ hl₂
      rw [List.length_cons] at hn
      omega

end Settles

end Schedule
