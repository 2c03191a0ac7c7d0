import IkgtLoader.Flat.Bytes
import IkgtLoader.Flat.Ia32Code

/-! Runs of machine code. Between two instructions the memory may change, so a run is given the
memory each of its instructions finds; code that writes nothing then runs beside anything that
leaves its bytes alone. -/
namespace Ia32
open Flat

/-- Where the next instruction is fetched from. -/
def Cpu.pc (c : Cpu) : BitVec 32 := (c.seg .cs).base + c.eip

def Cpu.fetch (m : Memory 32) (c : Cpu) (k : ℕ) : BitVec 8 := m (c.pc + BitVec.ofNat 32 k)

/-- The instruction pointer of a 16-bit code segment stays in 16 bits. -/
def Cpu.advance (c : Cpu) (n : ℕ) : Cpu :=
  let eip := c.eip + BitVec.ofNat 32 n
  { c with eip := if (c.seg .cs).big then eip else (eip.setWidth 16).setWidth 32 }

section advance
variable (c : Cpu) (n : ℕ)

@[simp] theorem advance_reg : (c.advance n).reg = c.reg := rfl

@[simp] theorem advance_seg : (c.advance n).seg = c.seg := rfl

@[simp] theorem advance_cr0 : (c.advance n).cr0 = c.cr0 := rfl

@[simp] theorem advance_gdtr : (c.advance n).gdtr = c.gdtr := rfl

@[simp] theorem advance_interruptFlag : (c.advance n).interruptFlag = c.interruptFlag := rfl

@[simp] theorem advance_protectedMode : (c.advance n).protectedMode = c.protectedMode := rfl

@[simp] theorem advance_cpl : (c.advance n).cpl = c.cpl := rfl

end advance

def step (m : Memory 32) (c : Cpu) : Option (Cpu × Writes) :=
  match decode (c.seg .cs).big (c.fetch m) with
  | none => none
  | some (i, n) =>
    if c.eip.toNat + n ≤ (c.seg .cs).limit.toNat + 1 then exec m (c.advance n) i else none

/-- Instructions that write nothing, each in the memory it finds. -/
def silent (env : ℕ → Memory 32) : ℕ → Cpu → Option Cpu
  | 0, c => some c
  | n + 1, c =>
    match step (env 0) c with
    | some (c', []) => silent (fun t => env (t + 1)) n c'
    | _ => none

theorem silent_succ {env : ℕ → Memory 32} {c c' : Cpu} (h : step (env 0) c = some (c', [])) (n : ℕ) :
    silent env (n + 1) c = silent (fun t => env (t + 1)) n c' := by
  rw [silent, h]

theorem silent_add {env : ℕ → Memory 32} {n : ℕ} {c c' : Cpu} (h : silent env n c = some c') (k : ℕ) :
    silent env (n + k) c = silent (fun t => env (t + n)) k c' := by
  induction n generalizing env c with
  | zero =>
    cases h
    rw [Nat.zero_add]
    rfl
  | succ n ih =>
    rw [Nat.add_right_comm]
    rw [silent] at h ⊢
    split
    next c₁ hs =>
      rw [hs] at h
      rw [ih h]
      congr 1
    next hno =>
      split at h
      next c₁ hs => exact absurd hs (hno c₁)
      next => cases h

theorem step_of_code {m : Memory 32} {c : Cpu} {i : Instr} (hi : i.Encodable (c.seg .cs).big)
    (hcode : m.HasBytes c.pc (encode (c.seg .cs).big i))
    (hlim : c.eip.toNat + (encode (c.seg .cs).big i).length ≤ (c.seg .cs).limit.toNat + 1) :
    step m c = exec m (c.advance (encode (c.seg .cs).big i).length) i := by
  have hdec : decode (c.seg .cs).big (c.fetch m) =
      some (i, (encode (c.seg .cs).big i).length) := decode_encode hi hcode
  unfold step
  rw [hdec]
  exact if_pos hlim

/-- Control goes on behind the instruction. -/
def Instr.Linear : Instr → Prop
  | .jmpFar32 .. => False
  | .jmpReg32 _ => False
  | _ => True

theorem loadSeg_linear {m : Memory 32} {c c' : Cpu} {s : SegReg} {sel : BitVec 16} {w : Writes}
    (hs : s ≠ .cs) (h : c.loadSeg m s sel = some (c', w)) :
    c'.eip = c.eip ∧ c'.seg .cs = c.seg .cs := by
  unfold Cpu.loadSeg at h
  split at h
  · split at h
    · cases h
    · cases h
      exact ⟨rfl, if_neg hs.symm⟩
  · cases h
    exact ⟨rfl, if_neg hs.symm⟩

theorem exec_linear {m : Memory 32} {c c' : Cpu} {i : Instr} {w : Writes} (hi : i.Linear)
    (h : exec m c i = some (c', w)) : c'.eip = c.eip ∧ c'.seg .cs = c.seg .cs := by
  cases i with
  | movSeg s r =>
    rw [exec_movSeg] at h
    split at h
    · cases h
    next hs => exact loadSeg_linear hs h
  | lgdt16Si =>
    rw [exec_lgdt16Si] at h
    split at h
    · cases h
      exact ⟨rfl, rfl⟩
    · cases h
  | jmpFar32 sel off => exact hi.elim
  | jmpReg32 r => exact hi.elim
  | _ =>
    cases h
    exact ⟨rfl, rfl⟩

/-- The bytes of a sequence of instructions. -/
def assemble (big : Bool) (is : List Instr) : List (BitVec 8) := (is.map (encode big)).flatten

theorem assemble_cons (big : Bool) (i : Instr) (is : List Instr) :
    assemble big (i :: is) = encode big i ++ assemble big is := rfl

/-- What straight-line code does, without its fetches. -/
def execBlock (env : ℕ → Memory 32) (big : Bool) : List Instr → Cpu → Option Cpu
  | [], c => some c
  | i :: is, c =>
    match exec (env 0) (c.advance (encode big i).length) i with
    | some (c', []) => execBlock (fun t => env (t + 1)) big is c'
    | _ => none

theorem execBlock_cons {env : ℕ → Memory 32} {big : Bool} {i : Instr} {c d : Cpu}
    (h : exec (env 0) (c.advance (encode big i).length) i = some (d, [])) (is : List Instr) :
    execBlock env big (i :: is) c = execBlock (fun t => env (t + 1)) big is d := by
  rw [execBlock, h]

/-- A code segment of 16 bits ends within 64 KB. -/
def Segment.Sized (g : Segment) : Prop := g.big = false → g.limit.toNat < 2 ^ 16

theorem advance_eip {c : Cpu} {n : ℕ} (hs : (c.seg .cs).Sized)
    (hn : c.eip.toNat + n ≤ (c.seg .cs).limit.toNat) :
    (c.advance n).eip = c.eip + BitVec.ofNat 32 n := by
  unfold Cpu.advance
  dsimp only
  split
  · rfl
  next hb =>
    have hlim := hs (Bool.not_eq_true _ ▸ hb)
    apply BitVec.eq_of_toNat_eq
    rw [BitVec.toNat_setWidth_of_le (by decide), BitVec.toNat_setWidth, BitVec.toNat_add,
      BitVec.toNat_ofNat]
    omega

/-- Fetching and decoding straight-line code is running its instructions one after the other. -/
theorem silent_eq_execBlock (env : ℕ → Memory 32) (is : List Instr) (c : Cpu)
    (hcode : ∀ t, (env t).HasBytes c.pc (assemble (c.seg .cs).big is))
    (henc : ∀ i ∈ is, i.Encodable (c.seg .cs).big) (hlin : ∀ i ∈ is, i.Linear)
    (hs : (c.seg .cs).Sized)
    (hroom : c.eip.toNat + (assemble (c.seg .cs).big is).length ≤ (c.seg .cs).limit.toNat) :
    silent env is.length c = execBlock env (c.seg .cs).big is c ∧
      ∀ c', execBlock env (c.seg .cs).big is c = some c' →
        c'.eip = c.eip + BitVec.ofNat 32 (assemble (c.seg .cs).big is).length ∧
          c'.seg .cs = c.seg .cs := by
  induction is generalizing c env with
  | nil =>
    refine ⟨rfl, fun c' h => ?_⟩
    cases h
    exact ⟨(BitVec.add_zero _).symm, rfl⟩
  | cons i is ih =>
    rw [assemble_cons, List.length_append] at hroom
    have hstep := step_of_code (henc i (by simp)) (hcode 0).left (by omega)
    have heip := advance_eip hs (n := (encode (c.seg .cs).big i).length) (by omega)
    rw [List.length_cons, silent, execBlock, hstep]
    split
    next c₁ he =>
      obtain ⟨he₁, hcs⟩ := exec_linear (hlin i (by simp)) he
      have hcs : c₁.seg .cs = c.seg .cs := hcs
      rw [heip] at he₁
      have hpc : c₁.pc = c.pc + BitVec.ofNat 32 (encode (c.seg .cs).big i).length := by
        unfold Cpu.pc
        rw [he₁, hcs, BitVec.add_assoc]
      have hnat : c₁.eip.toNat = c.eip.toNat + (encode (c.seg .cs).big i).length := by
        have hlim := (c.seg .cs).limit.isLt
        rw [he₁, BitVec.toNat_add, BitVec.toNat_ofNat]
        omega
      have hih := ih (fun t => env (t + 1)) c₁ (fun t => by
          rw [hpc, hcs]
          exact (hcode (t + 1)).right)
        (fun j hj => hcs ▸ henc j (List.mem_cons_of_mem _ hj))
        (fun j hj => hlin j (List.mem_cons_of_mem _ hj)) (hcs ▸ hs) (by rw [hcs]; omega)
      rw [hcs] at hih
      refine ⟨hih.1, fun c' hc' => ?_⟩
      obtain ⟨hend, hseg⟩ := hih.2 c' hc'
      rw [hend, he₁, assemble_cons, List.length_append, add_ofNat_ofNat]
      exact ⟨rfl, hseg⟩
    next => exact ⟨rfl, fun c' hc' => by cases hc'⟩

end Ia32
