import IkgtLoader.Flat.Loop
import IkgtLoader.Flat.Span

/-! A search at a fixed stride up to an address that is still looked at. In a modular address space
it need not end. -/
namespace Flat
open Loop

variable {w : ℕ} {start stop step : BitVec w} {p : BitVec w → Prop}

/-- The address that is looked at after `k` steps. -/
def probe (start step : BitVec w) (k : ℕ) : BitVec w := start + BitVec.ofNat w k * step

@[simp] theorem probe_zero (start step : BitVec w) : probe start step 0 = start := by
  simp [probe]

theorem probe_succ (start step : BitVec w) (k : ℕ) :
    probe start step (k + 1) = probe start step k + step := by
  unfold probe
  rw [BitVec.ofNat_add, BitVec.add_mul, BitVec.one_mul, BitVec.add_assoc]

/-- `for (a = start; a <= stop; a += step)`, left at the first hit. -/
def strideSearch (start stop step : BitVec w) (p : BitVec w → Prop) [DecidablePred p] (fuel : ℕ) :
    Outcome (BitVec w) :=
  run (fun _ a => a ≤ stop) (fun _ a => if p a then .quit a else .next (a + step)) fuel 0 start

/-- The search comes to step `k` and finds its first hit there. -/
structure FoundAt (start stop step : BitVec w) (p : BitVec w → Prop) (k : ℕ) : Prop where
  probed : ∀ j ≤ k, probe start step j ≤ stop
  hit : p (probe start step k)
  first : ∀ j < k, ¬ p (probe start step j)

theorem FoundAt.unique {i j : ℕ} (hi : FoundAt start stop step p i)
    (hj : FoundAt start stop step p j) : i = j := by
  rcases Nat.lt_trichotomy i j with h | h | h
  · exact absurd hi.hit (hj.first i h)
  · exact h
  · exact absurd hj.hit (hi.first j h)

/-- Some step passes the end or hits. -/
def SearchEnds (start stop step : BitVec w) (p : BitVec w → Prop) : Prop :=
  ∃ k, stop < probe start step k ∨ p (probe start step k)

section search
variable [DecidablePred p] {fuel : ℕ}

/-- How the search ends: behind the end without a hit, at the first hit, or not yet. -/
theorem strideSearch_spec : (strideSearch start stop step p fuel).All
    (fun _ => ∃ k, (∀ j < k, ¬ p (probe start step j)) ∧ stop < probe start step k)
    (fun a => ∃ k, FoundAt start stop step p k ∧ a = probe start step k)
    (fun _ => ∀ j < fuel, probe start step j ≤ stop ∧ ¬ p (probe start step j)) := by
  let I : ℕ → BitVec w → Prop := fun i a =>
    a = probe start step i ∧ ∀ j < i, probe start step j ≤ stop ∧ ¬ p (probe start step j)
  have hbody : ∀ i a, a ≤ stop → I i a → (if p a then Outcome.quit a else .next (a + step)).All
      (I (i + 1)) (fun a => ∃ k, FoundAt start stop step p k ∧ a = probe start step k)
      fun _ => False := by
    rintro i a hle ⟨rfl, hbefore⟩
    split
    next hit =>
      refine ⟨i, ⟨fun j hj => ?_, hit, fun j hj => (hbefore j hj).2⟩, rfl⟩
      rcases Nat.lt_or_eq_of_le hj with hlt | rfl
      · exact (hbefore j hlt).1
      · exact hle
    next hmiss =>
      refine ⟨(probe_succ start step i).symm, fun j hj => ?_⟩
      rcases Nat.lt_succ_iff_lt_or_eq.mp hj with hlt | rfl
      · exact hbefore j hlt
      · exact ⟨hle, hmiss⟩
  have h0 : I 0 start := ⟨(probe_zero start step).symm, fun j hj => absurd hj (Nat.not_lt_zero j)⟩
  refine (run_all I _ _ hbody h0).mono ?_ (fun _ h => h) ?_
  · rintro _ ⟨k, _, ⟨rfl, hbefore⟩, hout⟩
    exact ⟨k, fun j hj => (hbefore j hj).2, BitVec.not_le.mp hout⟩
  · rintro _ (h | ⟨k, rfl, ⟨rfl, hbefore⟩, _⟩)
    · exact h.elim
    · rwa [Nat.zero_add] at hbefore

/-- A search that ends does so with enough fuel. -/
theorem strideSearch_ends {k : ℕ} (h : stop < probe start step k ∨ p (probe start step k))
    (hk : k < fuel) (a : BitVec w) : strideSearch start stop step p fuel ≠ .spent a := by
  intro he
  have hspec : (strideSearch start stop step p fuel).All _ _ _ := strideSearch_spec
  rw [he] at hspec
  obtain ⟨hle, hmiss⟩ := hspec k hk
  rcases h with h | h
  · exact BitVec.not_le.mpr h hle
  · exact hmiss h

/-- One that does not end never comes to a result. -/
theorem strideSearch_spent (h : ¬ SearchEnds start stop step p) :
    ∃ a, strideSearch start stop step p fuel = .spent a := by
  have hspec : (strideSearch start stop step p fuel).All _ _ _ := strideSearch_spec
  cases he : strideSearch start stop step p fuel with
  | next a =>
    rw [he] at hspec
    obtain ⟨k, _, hout⟩ := hspec
    exact absurd ⟨k, .inl hout⟩ h
  | quit a =>
    rw [he] at hspec
    obtain ⟨k, hk, _⟩ := hspec
    exact absurd ⟨k, .inr hk.hit⟩ h
  | spent a => exact ⟨a, rfl⟩

end search
end Flat
