import IkgtLoader.PreOs.Memory
import IkgtLoader.StartAp.Procs

/-! The stacks that `xmon_loader` allocates for the application processors. -/
namespace IkgtLoader
open StartAp

/-- `((info[1] >> 16) & 0xff) - 1`, with a negative count replaced by 0. -/
def numOfAps (ebx : BitVec 32) : ℕ := ((ebx >>> 16) &&& 0xff).toNat - 1

/-- The first rounds of the loop over `i32_esp`; `none` is the return on a failed allocation. -/
def allocStacks (s : Machine) (esp : ℕ → BitVec 32) : ℕ → Option (Machine × (ℕ → BitVec 32))
  | 0 => some (s, esp)
  | i + 1 =>
    match allocStacks s esp i with
    | none => none
    | some (s', esp') =>
      let (s'', buf) := monPageAlloc s' 2
      if buf = NULL then none else some (s'', Function.update esp' i (buf + PAGE_SIZE * 2))

/-- The `init32` handed to startap. `esp` is what the slots hold before the loop. -/
def setupInit32 (s : Machine) (ebx : BitVec 32) (esp : ℕ → BitVec 32) :
    Option (Machine × Option Init32Struct) :=
  match allocStacks s esp (numOfAps ebx) with
  | none => none
  | some (s', esp') => some (s', if numOfAps ebx ≠ 0 then
      some { i32LowMemoryPage := 0x8000, i32NumOfAps := BitVec.ofNat 16 (numOfAps ebx),
             i32Pad := 0, i32Esp := esp' }
    else none)

theorem numOfAps_lt (ebx : BitVec 32) : numOfAps ebx < 256 := by
  have h : ((ebx >>> 16) &&& 0xff).toNat ≤ 255 := by
    rw [BitVec.toNat_and]
    exact Nat.and_le_right
  unfold numOfAps
  omega

/-- Where the first stack would start, over the naturals. -/
def stackBase (s : Machine) : ℕ := (s.heapCurrent.toNat + 4095) / 4096 * 4096

/-- One successful round: a block of two pages at the next page boundary. -/
theorem allocStacks_succ {s s' : Machine} {esp esp' : ℕ → BitVec 32} {i : ℕ}
    (h : allocStacks s esp (i + 1) = some (s', esp')) :
    ∃ s₁ esp₁, allocStacks s esp i = some (s₁, esp₁) ∧ alignForward s₁.heapCurrent ≠ NULL ∧
      s'.heapCurrent = alignForward s₁.heapCurrent + 8192#32 ∧
      esp' = Function.update esp₁ i (alignForward s₁.heapCurrent + 8192#32) := by
  unfold allocStacks at h
  split at h
  · cases h
  next s₁ esp₁ he =>
    refine ⟨s₁, esp₁, he, ?_⟩
    have hm : monPageAlloc s₁ 2 = reserve s₁ (alignForward s₁.heapCurrent) 8192#32 := rfl
    rw [hm] at h
    by_cases hr : s₁.heapTops < alignForward s₁.heapCurrent + 8192#32
    · rw [reserve_refused _ _ _ hr] at h
      dsimp only at h
      rw [if_pos rfl] at h
      cases h
    · rw [reserve_served _ _ _ hr] at h
      dsimp only at h
      by_cases hne : alignForward s₁.heapCurrent = NULL
      · rw [if_pos hne] at h
        cases h
      · rw [if_neg hne] at h
        obtain ⟨rfl, rfl⟩ := Prod.mk.inj (Option.some.inj h)
        exact ⟨hne, rfl, rfl⟩

theorem alignForward_ofNat {n : ℕ} (h : n % 4096 = 0) :
    alignForward (BitVec.ofNat 32 n) = BitVec.ofNat 32 n := by
  apply BitVec.eq_of_toNat_eq
  rw [toNat_alignForward, BitVec.toNat_ofNat]
  omega

/-- The stacks follow one another from `stackBase` on, modulo `2^32`. -/
theorem allocStacks_some {s s' : Machine} {esp esp' : ℕ → BitVec 32} {n : ℕ}
    (h : allocStacks s esp n = some (s', esp')) :
    (∀ i < n, esp' i = BitVec.ofNat 32 (stackBase s + 8192 * (i + 1))) ∧
      (∀ i < n, BitVec.ofNat 32 (stackBase s + 8192 * i) ≠ NULL) ∧
      alignForward s'.heapCurrent = BitVec.ofNat 32 (stackBase s + 8192 * n) := by
  induction n generalizing s' esp' with
  | zero =>
    cases h
    refine ⟨by simp, by simp, BitVec.eq_of_toNat_eq ?_⟩
    have hlt := s.heapCurrent.isLt
    rw [toNat_alignForward, BitVec.toNat_ofNat]
    unfold stackBase
    omega
  | succ n ih =>
    obtain ⟨s₁, esp₁, he, hne, hcur, rfl⟩ := allocStacks_succ h
    obtain ⟨ih1, ih2, ih3⟩ := ih he
    have hnext : BitVec.ofNat 32 (stackBase s + 8192 * n) + 8192#32 =
        BitVec.ofNat 32 (stackBase s + 8192 * (n + 1)) := by
      rw [Nat.mul_add, ← Nat.add_assoc, BitVec.ofNat_add (stackBase s + 8192 * n)]
    rw [ih3] at hne hcur ⊢
    rw [hnext] at hcur ⊢
    refine ⟨fun i hi => ?_, fun i hi => ?_, ?_⟩
    · rcases Nat.lt_succ_iff_lt_or_eq.mp hi with hi | rfl
      · rw [Function.update_of_ne (by omega)]
        exact ih1 i hi
      · rw [Function.update_self]
    · rcases Nat.lt_succ_iff_lt_or_eq.mp hi with hi | rfl
      · exact ih2 i hi
      · exact hne
    · rw [hcur]
      exact alignForward_ofNat (by unfold stackBase; omega)

end IkgtLoader
