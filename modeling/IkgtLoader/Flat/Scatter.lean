import Mathlib.Data.List.Perm.Basic
import IkgtLoader.Flat.Memory

/-! Words stored at scattered places: what a memory is after all of them, whatever their order. -/
namespace Flat

variable {w : ℕ}

/-- A word and where it is stored. -/
structure Word (w : ℕ) where
  addr : BitVec w
  value : ℕ

namespace Memory

theorem load_add (m : Memory w) (a : BitVec w) (j k : ℕ) :
    m.load a (j + k) = m.load a j + 256 ^ j * m.load (a + BitVec.ofNat w j) k := by
  induction j generalizing a with
  | zero => simp [load]
  | succ j ih =>
    rw [Nat.succ_add, load, load, ih, Nat.pow_succ', add_ofNat_succ, Nat.mul_add, Nat.mul_assoc,
      Nat.add_assoc]

/-- Every word of the list lies in `m'`, and beside them `m'` is `m`. -/
structure Scattered (n : ℕ) (words : List (Word w)) (m m' : Memory w) : Prop where
  word : ∀ e ∈ words, m'.load e.addr n = e.value % 256 ^ n
  rest : ∀ x, (∀ e ∈ words, ¬ InSpan e.addr n x) → m' x = m x

namespace Scattered
variable {n : ℕ} {words words' : List (Word w)} {m m' m₁ m₁' : Memory w}

theorem nil (n : ℕ) (m : Memory w) : Scattered n [] m m :=
  ⟨fun _ he => absurd he List.not_mem_nil, fun _ _ => rfl⟩

/-- One more word, apart from those before it. -/
theorem concat (h : Scattered n words m m₁) {e : Word w}
    (hap : ∀ f ∈ words, Apart f.addr n e.addr n) (hn : n ≤ 2 ^ w)
    (hword : m'.load e.addr n = e.value % 256 ^ n) (hrest : ∀ x, ¬ InSpan e.addr n x → m' x = m₁ x) :
    Scattered n (words ++ [e]) m m' := by
  constructor
  · intro f hf
    rcases List.mem_append.mp hf with hf | hf
    · have hsame : Same m' f.addr m₁ f.addr n :=
        Same.of_unchanged (fun x hx => hrest x (hap f hf x hx)) hn
      rw [hsame.load_eq, h.word f hf]
    · rw [List.mem_singleton.mp hf, hword]
  · intro x hx
    rw [hrest x (hx e (List.mem_append_right _ (List.mem_singleton_self e)))]
    exact h.rest x fun f hf => hx f (List.mem_append_left _ hf)

/-- The order of the words does not matter: a byte is the same in both memories, or changed in
neither. -/
theorem perm (h : Scattered n words m m₁) (h' : Scattered n words' m' m₁')
    (hp : words'.Perm words) (x : BitVec w) : m₁' x = m₁ x ∨ m₁' x = m' x ∧ m₁ x = m x := by
  by_cases hx : ∃ e ∈ words, InSpan e.addr n x
  · obtain ⟨e, he, hin⟩ := hx
    left
    have hsame : Same m₁' e.addr m₁ e.addr n := by
      apply same_of_load_eq
      rw [h'.word e (hp.mem_iff.mpr he), h.word e he]
    obtain ⟨k, hk, _, rfl⟩ := hin.exists_index
    exact hsame k hk
  · right
    have hno : ∀ e ∈ words, ¬ InSpan e.addr n x := fun e he hin => hx ⟨e, he, hin⟩
    exact ⟨h'.rest x fun e he => hno e (hp.mem_iff.mp he), h.rest x hno⟩

end Scattered

end Memory
end Flat
