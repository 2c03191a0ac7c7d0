import Mathlib.Data.Set.Function
import IkgtLoader.Flat.Record

/-! Two memories that are equal on the addresses that are seen: which operations keep them so, as
long as they read nothing else. -/
namespace Flat.Memory

variable {w : ℕ} {m m' : Memory w} {seen : Set (BitVec w)} {a src p : BitVec w} {n : ℕ}

theorem eqOn_set (h : Set.EqOn m m' seen) (a : BitVec w) (v : BitVec 8) :
    Set.EqOn (m.set a v) (m'.set a v) seen := by
  intro x hx
  unfold set
  split
  · rfl
  · exact h hx

theorem eqOn_fill (h : Set.EqOn m m' seen) (a : BitVec w) (v : BitVec 8) (n : ℕ) :
    Set.EqOn (m.fill a v n) (m'.fill a v n) seen := by
  induction n generalizing m m' a with
  | zero => exact h
  | succ n ih => exact ih (eqOn_set h a v) (a + 1)

theorem eqOn_store (h : Set.EqOn m m' seen) (a : BitVec w) (n v : ℕ) :
    Set.EqOn (m.store a n v) (m'.store a n v) seen := by
  induction n generalizing m m' a v with
  | zero => exact h
  | succ n ih => exact ih (eqOn_set h a _) (a + 1) (v / 256)

theorem eqOn_setField {bits : ℕ} (h : Set.EqOn m m' seen) (p : BitVec w) (o : ℕ) (v : BitVec bits) :
    Set.EqOn (m.setField p o v) (m'.setField p o v) seen :=
  eqOn_store h _ _ _

/-- A copy of bytes that are seen. -/
theorem eqOn_copy (h : Set.EqOn m m' seen) (hsrc : ∀ x, InSpan src n x → x ∈ seen) (dest : BitVec w) :
    Set.EqOn (m.copy dest src n) (m'.copy dest src n) seen := by
  induction n generalizing m m' dest src with
  | zero => exact h
  | succ n ih =>
    have hfirst : m src = m' src := h (hsrc src (inSpan_self.mpr (Nat.succ_pos n)))
    unfold copy
    rw [← hfirst]
    exact ih (eqOn_set h dest _) (fun x hx => hsrc x (inSpan_succ.mpr (.inr hx))) (dest + 1)

/-- Where the bytes go they are the same from then on. -/
theorem eqOn_copy_union (h : Set.EqOn m m' seen) (hsrc : ∀ x, InSpan src n x → x ∈ seen)
    (dest : BitVec w) :
    Set.EqOn (m.copy dest src n) (m'.copy dest src n) (seen ∪ {x | InSpan dest n x}) := by
  induction n generalizing m m' seen dest src with
  | zero =>
    rintro x (hx | hx)
    · exact h hx
    · exact absurd hx (not_inSpan_zero _ _)
  | succ n ih =>
    have hfirst : m src = m' src := h (hsrc src (inSpan_self.mpr (Nat.succ_pos n)))
    have hset : Set.EqOn (m.set dest (m src)) (m'.set dest (m' src)) (seen ∪ {dest}) := by
      rintro x (hx | rfl)
      · rw [← hfirst]
        exact eqOn_set h dest _ hx
      · rw [set_same, set_same, hfirst]
    unfold copy
    intro x hx
    apply ih hset fun y hy => .inl (hsrc y (inSpan_succ.mpr (.inr hy)))
    rcases hx with hx | hx
    · exact .inl (.inl hx)
    · rcases inSpan_succ.mp hx with rfl | hx
      · exact .inl (.inr rfl)
      · exact .inr hx

theorem same_of_eqOn (h : Set.EqOn m m' seen) (hp : ∀ x, InSpan p n x → x ∈ seen) (hn : n ≤ 2 ^ w) :
    Same m p m' p n :=
  Same.of_unchanged (fun x hx => h (hp x hx)) hn

/-- A field of a record that is seen. -/
theorem field_of_eqOn {bits o : ℕ} (h : Set.EqOn m m' seen) (hp : ∀ x, InSpan p n x → x ∈ seen)
    (ho : o + bits / 8 ≤ n) (hn : n ≤ 2 ^ w) : m.field bits p o = m'.field bits p o :=
  field_congr (same_of_eqOn h hp hn) ho

end Flat.Memory
