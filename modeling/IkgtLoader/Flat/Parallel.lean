import Mathlib.Data.List.Count
import Mathlib.Logic.Function.Basic
import Mathlib.Logic.Relation

/-! Parties that take turns on a shared memory. What each of them comes to is proved apart, among
steps of the others that it tolerates, and then holds in every interleaving. -/
namespace Parallel

variable {M C ι : Type*}

/-- The next `n` steps of a party lead to a state in `Q`, whatever happens to the memory before each of
them in accordance with `R`, and what they do to the memory is in accordance with `G`. -/
def Leads (step : M → C → Option (M × C)) (R G : M → M → Prop) : ℕ → (M → C → Prop) → M → C → Prop
  | 0, Q, m, c => Q m c
  | n + 1, Q, m, c => ∀ m', R m m' → ∃ m'' c', step m' c = some (m'', c') ∧ G m' m'' ∧
      Leads step R G n Q m'' c'

/-- One party has its turn. -/
def turn [DecidableEq ι] (step : M → C → Option (M × C)) (s : M × (ι → C)) (i : ι) :
    Option (M × (ι → C)) :=
  (step s.1 (s.2 i)).map fun r => (r.1, Function.update s.2 i r.2)

/-- Nothing if a party has no step in its turn. -/
def run [DecidableEq ι] (step : M → C → Option (M × C)) : M × (ι → C) → List ι → Option (M × (ι → C))
  | s, [] => some s
  | s, i :: rest =>
    match turn step s i with
    | none => none
    | some s' => run step s' rest

/-- Every party tolerates what the others do. -/
structure Compatible (R G : ι → M → M → Prop) : Prop where
  refl : ∀ i m, R i m m
  trans : ∀ i m m' m'', R i m m' → R i m' m'' → R i m m''
  others : ∀ i j, i ≠ j → ∀ m m', G j m m' → R i m m'

variable {step : M → C → Option (M × C)}

theorem Leads.rely {R G : M → M → Prop} {Q : M → C → Prop} {n : ℕ} {m m' : M} {c : C}
    (htrans : ∀ m m' m'', R m m' → R m' m'' → R m m'') (hstable : ∀ m m' c, R m m' → Q m c → Q m' c)
    (hm : R m m') (h : Leads step R G n Q m c) : Leads step R G n Q m' c := by
  cases n with
  | zero => exact hstable m m' c hm h
  | succ n => exact fun m'' hr => h m'' (htrans m m' m'' hm hr)

theorem Leads.mono {R G : M → M → Prop} {P Q : M → C → Prop} {n : ℕ} {m : M} {c : C}
    (h : Leads step R G n P m c) (hpq : ∀ m' c', P m' c' → Q m' c') : Leads step R G n Q m c := by
  induction n generalizing m c with
  | zero => exact hpq m c h
  | succ n ih =>
    intro m' hr
    obtain ⟨m'', c', hstep, hg, hrest⟩ := h m' hr
    exact ⟨m'', c', hstep, hg, ih hrest⟩

/-- In every interleaving that gives no party more turns than it needs each party has its steps, and
is as far as its turns have brought it. The memory has changed by steps of the parties. -/
theorem run_leads [DecidableEq ι] [BEq ι] [LawfulBEq ι] {R G : ι → M → M → Prop} {Q : ι → M → C → Prop}
    (hc : Compatible R G) (hstable : ∀ i m m' c, R i m m' → Q i m c → Q i m' c) {k : ι → ℕ}
    {m : M} {c : ι → C} (h : ∀ i, Leads step (R i) (G i) (k i) (Q i) m (c i)) {l : List ι}
    (hl : ∀ i, l.count i ≤ k i) : ∃ m' c', run step (m, c) l = some (m', c') ∧
      (∀ i, Leads step (R i) (G i) (k i - l.count i) (Q i) m' (c' i)) ∧
      Relation.ReflTransGen (fun m m' => ∃ i, G i m m') m m' := by
  induction l generalizing m c k with
  | nil => exact ⟨m, c, rfl, h, .refl⟩
  | cons i rest ih =>
    obtain ⟨n, hn⟩ : ∃ n, k i = n + 1 := by
      have hi := hl i
      rw [List.count_cons_self] at hi
      exact ⟨k i - 1, by omega⟩
    have hi := h i
    rw [hn] at hi
    obtain ⟨m₁, d, hstep, hg, hrest⟩ := hi m (hc.refl i m)
    have hturn : turn step (m, c) i = some (m₁, Function.update c i d) := by
      unfold turn
      rw [hstep]
      rfl
    -- the party has one turn less, and the others tolerate its step
    have hleads : ∀ j, Leads step (R j) (G j) (Function.update k i n j) (Q j) m₁
        (Function.update c i d j) := fun j => by
      rcases eq_or_ne j i with rfl | hne
      · rwa [Function.update_self, Function.update_self]
      · rw [Function.update_of_ne hne, Function.update_of_ne hne]
        exact (h j).rely (hc.trans j) (hstable j) (hc.others j i hne m m₁ hg)
    have hcount : ∀ j, rest.count j ≤ Function.update k i n j := fun j => by
      have hj := hl j
      rcases eq_or_ne j i with rfl | hne
      · rw [List.count_cons_self, hn] at hj
        rw [Function.update_self]
        omega
      · rwa [List.count_cons_of_ne hne.symm, ← Function.update_of_ne hne n k] at hj
    obtain ⟨m', c', hrun, hend, hsteps⟩ := ih hleads hcount
    refine ⟨m', c', ?_, fun j => ?_, .head ⟨i, hg⟩ hsteps⟩
    · rw [run, hturn]
      exact hrun
    · have hj := hend j
      rcases eq_or_ne j i with rfl | hne
      · rw [Function.update_self] at hj
        rwa [List.count_cons_self, hn, Nat.add_sub_add_right]
      · rw [Function.update_of_ne hne] at hj
        rwa [List.count_cons_of_ne hne.symm]

end Parallel
