import IkgtLoader.Flat.Ia32Code
import IkgtLoader.Flat.Ia32e

/-! Machine code from protected mode on. The same bytes mean different instructions in 32-bit and in
64-bit code; what an assembler emits for an instruction does not depend on where it is run. -/
namespace Ia32e
open Flat
open Ia32 (modRm word32 mod regField rmField Reads word32_of_littleEndian)

/-- The three bits that an opcode or its second byte has for a register. -/
def Reg.low : Reg → BitVec 3
  | .rax | .r8 => 0
  | .rcx | .r9 => 1
  | .rdx | .r10 => 2
  | .rbx | .r11 => 3
  | .rsp | .r12 => 4
  | .rbp | .r13 => 5
  | .rsi | .r14 => 6
  | .rdi | .r15 => 7

/-- Whether a register needs a bit of the REX prefix. -/
def Reg.ext : Reg → Bool
  | .rax | .rcx | .rdx | .rbx | .rsp | .rbp | .rsi | .rdi => false
  | _ => true

def Reg.ofCode (ext : Bool) (n : BitVec 3) : Reg :=
  if n = 0 then if ext then .r8 else .rax
  else if n = 1 then if ext then .r9 else .rcx
  else if n = 2 then if ext then .r10 else .rdx
  else if n = 3 then if ext then .r11 else .rbx
  else if n = 4 then if ext then .r12 else .rsp
  else if n = 5 then if ext then .r13 else .rbp
  else if n = 6 then if ext then .r14 else .rsi
  else if ext then .r15 else .rdi

@[simp] theorem Reg.ofCode_low (r : Reg) : Reg.ofCode r.ext r.low = r := by
  cases r <;> rfl

theorem Reg.ofCode_low_of_not_ext {r : Reg} (h : r.ext = false) : Reg.ofCode false r.low = r := by
  rw [← h, Reg.ofCode_low]

def Alu.code : Alu → BitVec 3
  | .add => 0
  | .and => 4
  | .sub => 5

def Alu.ofCode (n : BitVec 3) : Option Alu :=
  if n = 0 then some .add else if n = 4 then some .and else if n = 5 then some .sub else none

@[simp] theorem Alu.ofCode_code (op : Alu) : Alu.ofCode op.code = some op := by
  cases op <;> rfl

def imm32 (v : BitVec 32) : List (BitVec 8) := Memory.littleEndian 4 v.toNat

/-- The bytes of a memory operand beside the register `reg`. -/
def Mem.bytes (reg : BitVec 3) : Mem → List (BitVec 8)
  | .abs a => modRm 0 reg 5 :: imm32 a
  | .ind r => [modRm 0 reg r.low]
  | .disp r d => if r = .rsp then [modRm 1 reg 4, 0x24, d] else [modRm 1 reg r.low, d]

/-- The W and B bits of the prefix. -/
def Instr.rexBits : Instr → Bool × Bool
  | .push r | .pop r | .callReg r => (false, r.ext)
  | .aluImm _ wide r _ => (wide, r.ext)
  | _ => (false, false)

def rex (w b : Bool) : List (BitVec 8) :=
  if w ∨ b then [0x40 ||| (if w then 8 else 0) ||| if b then 1 else 0] else []

def Instr.body : Instr → List (BitVec 8)
  | .cli => [0xfa]
  | .pause => [0xf3, 0x90]
  | .rdmsr => [0x0f, 0x32]
  | .wrmsr => [0x0f, 0x30]
  | .ret => [0xc3]
  | .lret => [0xcb]
  | .movImm r imm => (0xb8 ||| r.low.setWidth 8) :: imm32 imm
  | .mov dst src => [0x89, modRm 3 src.low dst.low]
  | .xor dst src => [0x31, modRm 3 src.low dst.low]
  | .add dst src => [0x01, modRm 3 src.low dst.low]
  | .aluImm op _ r imm => [0x83, modRm 3 op.code r.low, imm]
  | .andEax imm => 0x25 :: imm32 imm
  | .shl r n => [0xc1, modRm 3 4 r.low, n]
  | .shr r n => [0xc1, modRm 3 5 r.low, n]
  | .dec r => [0x48 ||| r.low.setWidth 8]
  | .bts r n => [0x0f, 0xba, modRm 3 5 r.low, n]
  | .lea r a => 0x8d :: modRm 0 r.low 5 :: imm32 a
  | .load r src => 0x8b :: src.bytes r.low
  | .loadByte r base => [0x8a, modRm 0 r.low base.low]
  | .storeByte base imm => [0xc6, modRm 0 0 base.low, imm]
  | .cmpImm a imm => 0x83 :: modRm 0 7 5 :: (imm32 a ++ [imm])
  | .jmp rel => [0xeb, rel]
  | .je rel => [0x74, rel]
  | .push r => [0x50 ||| r.low.setWidth 8]
  | .pushImm imm => 0x68 :: imm32 imm
  | .pop r => [0x58 ||| r.low.setWidth 8]
  | .call rel => 0xe8 :: imm32 rel
  | .callReg r => [0xff, modRm 3 2 r.low]
  | .movFromCr0 r => [0x0f, 0x20, modRm 3 0 r.low]
  | .movToCr0 r => [0x0f, 0x22, modRm 3 0 r.low]
  | .lgdt a => 0x0f :: 0x01 :: modRm 0 2 5 :: imm32 a
  | .lidt a => 0x0f :: 0x01 :: modRm 0 3 5 :: imm32 a

def encode (i : Instr) : List (BitVec 8) := rex i.rexBits.1 i.rexBits.2 ++ i.body

def assemble : List Instr → List (BitVec 8)
  | [] => []
  | i :: is => encode i ++ assemble is

@[simp] theorem assemble_nil : assemble [] = [] := rfl

@[simp] theorem assemble_cons (i : Instr) (is : List Instr) :
    assemble (i :: is) = encode i ++ assemble is := rfl

/-- A register with a lowest byte that needs no prefix. -/
def Reg.Byte (r : Reg) : Prop := r = .rax ∨ r = .rcx ∨ r = .rdx ∨ r = .rbx

/-- A register that an address can consist of without a byte for its scale. -/
def Reg.Base (r : Reg) : Prop := r.ext = false ∧ r ≠ .rsp ∧ r ≠ .rbp

def Mem.Encodable : Mem → Prop
  | .abs _ => True
  | .ind r => r.Base
  | .disp r _ => r.ext = false

/-- What 64-bit code is taken to use, and the registers of 32-bit code. -/
def Instr.Encodable (long : Bool) : Instr → Prop
  | .push r | .pop r | .callReg r => long = true ∨ r.ext = false
  | .aluImm _ wide r _ => long = true ∨ wide = false ∧ r.ext = false
  | .cli | .pause | .rdmsr | .wrmsr | .ret | .lret => long = false
  | .andEax _ | .cmpImm .. | .jmp _ | .je _ | .pushImm _ | .call _ | .lgdt _ | .lidt _ => long = false
  | .movImm r _ | .shl r _ | .shr r _ | .dec r | .bts r _ | .lea r _ | .movFromCr0 r | .movToCr0 r =>
    long = false ∧ r.ext = false
  | .mov dst src | .xor dst src | .add dst src => long = false ∧ dst.ext = false ∧ src.ext = false
  | .load r src => long = false ∧ r.ext = false ∧ src.Encodable
  | .loadByte r base => long = false ∧ r.Byte ∧ base.Base
  | .storeByte base _ => long = false ∧ base.Base

/-- The instructions of both kinds of code; `w` and `x` come from the prefix. -/
def decodeCommon (w x : Bool) (b : ℕ → BitVec 8) : Option (Instr × ℕ) :=
  if b 0 &&& 0xf8 = 0x50 then some (.push (Reg.ofCode x (rmField (b 0))), 1)
  else if b 0 &&& 0xf8 = 0x58 then some (.pop (Reg.ofCode x (rmField (b 0))), 1)
  else if b 0 = 0x83 ∧ mod (b 1) = 3 then
    (Alu.ofCode (regField (b 1))).map fun op =>
      (.aluImm op w (Reg.ofCode x (rmField (b 1))) (b 2), 3)
  else if b 0 = 0xff ∧ mod (b 1) = 3 ∧ regField (b 1) = 2 then
    some (.callReg (Reg.ofCode x (rmField (b 1))), 2)
  else none

/-- A memory operand, with its length. -/
def decodeMem (b : ℕ → BitVec 8) : Option (Mem × ℕ) :=
  if mod (b 0) = 0 then
    if rmField (b 0) = 5 then some (.abs (word32 b 1), 5)
    else if rmField (b 0) = 4 then none
    else some (.ind (Reg.ofCode false (rmField (b 0))), 1)
  else if mod (b 0) = 1 then
    if rmField (b 0) = 4 then if b 1 = 0x24 then some (.disp .rsp (b 2), 3) else none
    else some (.disp (Reg.ofCode false (rmField (b 0))) (b 1), 2)
  else none

/-- The instructions with two registers. -/
def decodeRegs (op : Reg → Reg → Instr) (b : ℕ → BitVec 8) : Option (Instr × ℕ) :=
  if mod (b 1) = 3 then
    some (op (Reg.ofCode false (rmField (b 1))) (Reg.ofCode false (regField (b 1))), 2)
  else none

/-- The instructions whose first byte is 0f. -/
def decodeTwoByte (b : ℕ → BitVec 8) : Option (Instr × ℕ) :=
  let r := Reg.ofCode false (rmField (b 2))
  if b 1 = 0x32 then some (.rdmsr, 2)
  else if b 1 = 0x30 then some (.wrmsr, 2)
  else if b 1 = 0xba ∧ mod (b 2) = 3 ∧ regField (b 2) = 5 then some (.bts r (b 3), 4)
  else if b 1 = 0x20 ∧ regField (b 2) = 0 then some (.movFromCr0 r, 3)
  else if b 1 = 0x22 ∧ regField (b 2) = 0 then some (.movToCr0 r, 3)
  else if b 1 = 0x01 ∧ b 2 = modRm 0 2 5 then some (.lgdt (word32 b 3), 7)
  else if b 1 = 0x01 ∧ b 2 = modRm 0 3 5 then some (.lidt (word32 b 3), 7)
  else none

def decodeShift (b : ℕ → BitVec 8) : Option (Instr × ℕ) :=
  let r := Reg.ofCode false (rmField (b 1))
  if mod (b 1) = 3 ∧ regField (b 1) = 4 then some (.shl r (b 2), 3)
  else if mod (b 1) = 3 ∧ regField (b 1) = 5 then some (.shr r (b 2), 3)
  else none

/-- 32-bit code. -/
def decode32 (b : ℕ → BitVec 8) : Option (Instr × ℕ) :=
  if b 0 = 0x0f then decodeTwoByte b
  else if b 0 &&& 0xf8 = 0xb8 then some (.movImm (Reg.ofCode false (rmField (b 0))) (word32 b 1), 5)
  else if b 0 &&& 0xf8 = 0x48 then some (.dec (Reg.ofCode false (rmField (b 0))), 1)
  else if b 0 = 0xfa then some (.cli, 1)
  else if b 0 = 0xf3 ∧ b 1 = 0x90 then some (.pause, 2)
  else if b 0 = 0xc3 then some (.ret, 1)
  else if b 0 = 0xcb then some (.lret, 1)
  else if b 0 = 0x89 then decodeRegs .mov b
  else if b 0 = 0x31 then decodeRegs .xor b
  else if b 0 = 0x01 then decodeRegs .add b
  else if b 0 = 0x25 then some (.andEax (word32 b 1), 5)
  else if b 0 = 0xc1 then decodeShift b
  else if b 0 = 0x8d ∧ mod (b 1) = 0 ∧ rmField (b 1) = 5 then
    some (.lea (Reg.ofCode false (regField (b 1))) (word32 b 2), 6)
  else if b 0 = 0x8b then
    (decodeMem fun k => b (k + 1)).map fun p =>
      (.load (Reg.ofCode false (regField (b 1))) p.1, p.2 + 1)
  else if b 0 = 0x8a ∧ mod (b 1) = 0 ∧ regField (b 1) < 4 ∧ rmField (b 1) ≠ 4 ∧ rmField (b 1) ≠ 5 then
    some (.loadByte (Reg.ofCode false (regField (b 1))) (Reg.ofCode false (rmField (b 1))), 2)
  else if b 0 = 0xc6 ∧ mod (b 1) = 0 ∧ regField (b 1) = 0 ∧ rmField (b 1) ≠ 4 ∧ rmField (b 1) ≠ 5 then
    some (.storeByte (Reg.ofCode false (rmField (b 1))) (b 2), 3)
  else if b 0 = 0x83 ∧ b 1 = modRm 0 7 5 then some (.cmpImm (word32 b 2) (b 6), 7)
  else if b 0 = 0xeb then some (.jmp (b 1), 2)
  else if b 0 = 0x74 then some (.je (b 1), 2)
  else if b 0 = 0x68 then some (.pushImm (word32 b 1), 5)
  else if b 0 = 0xe8 then some (.call (word32 b 1), 5)
  else decodeCommon false false b

/-- 64-bit code. -/
def decode64 (b : ℕ → BitVec 8) : Option (Instr × ℕ) :=
  if b 0 &&& 0xf6 = 0x40 then
    (decodeCommon ((b 0).getLsbD 3) ((b 0).getLsbD 0) fun k => b (k + 1)).map fun p => (p.1, p.2 + 1)
  else decodeCommon false false b

def decode (long : Bool) (b : ℕ → BitVec 8) : Option (Instr × ℕ) :=
  if long then decode64 b else decode32 b

theorem opcode_low (r : Reg) : (0xb8 ||| r.low.setWidth 8 : BitVec 8) &&& 0xf8 = 0xb8 ∧
    (0x48 ||| r.low.setWidth 8 : BitVec 8) &&& 0xf8 = 0x48 ∧
    (0x50 ||| r.low.setWidth 8 : BitVec 8) &&& 0xf8 = 0x50 ∧
    (0x58 ||| r.low.setWidth 8 : BitVec 8) &&& 0xf8 = 0x58 ∧
    rmField (0xb8 ||| r.low.setWidth 8) = r.low ∧ rmField (0x48 ||| r.low.setWidth 8) = r.low ∧
    rmField (0x50 ||| r.low.setWidth 8) = r.low ∧ rmField (0x58 ||| r.low.setWidth 8) = r.low := by
  cases r <;> decide

theorem word32_of_reads {b : ℕ → BitVec 8} (l l' : List (BitVec 8)) {v : BitVec 32}
    (h : Reads b (l ++ imm32 v ++ l')) : word32 b l.length = v := by
  have hb : ∀ j < 4, b (l.length + j) = (imm32 v).getD j 0 := fun j hj => by
    have hlen : (imm32 v).length = 4 := Memory.littleEndian_length 4 _
    rw [h _ (by simp [hlen]; omega), List.append_assoc, List.getD_append_right _ _ _ _ (by omega),
      Nat.add_sub_cancel_left, List.getD_append _ _ _ _ (by omega)]
  exact word32_of_littleEndian v (hb 0 (by decide)) (hb 1 (by decide)) (hb 2 (by decide)) (hb 3 (by decide))

theorem low_ne {r : Reg} (h : r.Base) : r.low ≠ 4#3 ∧ r.low ≠ 5#3 ∧ Reg.ofCode false r.low = r := by
  obtain ⟨he, h4, h5⟩ := h
  cases r <;> first | cases he; done | exact absurd rfl h4 | exact absurd rfl h5 | decide

theorem low_lt {r : Reg} (h : r.Byte) : r.low < 4#3 ∧ Reg.ofCode false r.low = r := by
  rcases h with rfl | rfl | rfl | rfl <;> decide

@[simp] theorem length_imm32 (v : BitVec 32) : (imm32 v).length = 4 :=
  Memory.littleEndian_length 4 _

theorem decodeMem_bytes {b : ℕ → BitVec 8} {reg : BitVec 3} {a : Mem} (ha : a.Encodable)
    (h : Reads b (a.bytes reg)) :
    decodeMem b = some (a, (a.bytes reg).length) ∧ regField (b 0) = reg := by
  cases a with
  | abs v =>
    have h0 : b 0 = modRm 0 reg 5 := h 0 (Nat.succ_pos _)
    have hv : word32 b 1 = v :=
      word32_of_reads [modRm 0 reg 5] [] (by simpa [Mem.bytes] using h)
    simp [decodeMem, h0, hv, Mem.bytes]
  | ind r =>
    have h0 : b 0 = modRm 0 reg r.low := h 0 (Nat.succ_pos _)
    obtain ⟨h4, h5, hr⟩ := low_ne ha
    simp [decodeMem, h0, h4, h5, hr, Mem.bytes]
  | disp r d =>
    by_cases hs : r = .rsp
    · subst hs
      have h0 : b 0 = modRm 1 reg 4 := h 0 (by decide : 0 < 3)
      have h1 : b 1 = 0x24 := h 1 (by decide : 1 < 3)
      have h2 : b 2 = d := h 2 (by decide : 2 < 3)
      simp [decodeMem, h0, h1, h2, Mem.bytes]
    · have hb : (Mem.disp r d).bytes reg = [modRm 1 reg r.low, d] := if_neg hs
      rw [hb] at h ⊢
      have h0 : b 0 = modRm 1 reg r.low := h 0 (by decide : 0 < 2)
      have h1 : b 1 = d := h 1 (by decide : 1 < 2)
      have hr := Reg.ofCode_low_of_not_ext ha
      have h4 : r.low ≠ 4#3 := by
        have he : r.ext = false := ha
        cases r <;> first | cases he; done | exact absurd rfl hs | decide
      simp [decodeMem, h0, h1, h4, hr]

theorem decodeRegs_body {op : Reg → Reg → Instr} {b : ℕ → BitVec 8} {dst src : Reg}
    (hd : dst.ext = false) (hs : src.ext = false) (h : b 1 = modRm 3 src.low dst.low) :
    decodeRegs op b = some (op dst src, 2) := by
  unfold decodeRegs
  rw [h, Ia32.mod_modRm, if_pos rfl, Ia32.rmField_modRm, Ia32.regField_modRm,
    Reg.ofCode_low_of_not_ext hd, Reg.ofCode_low_of_not_ext hs]

/-- The instructions of both kinds of code. -/
def Instr.Common : Instr → Prop
  | .push _ | .pop _ | .callReg _ | .aluImm .. => True
  | _ => False

/-- The instructions whose first byte is 0f. -/
def Instr.TwoByte : Instr → Prop
  | .rdmsr | .wrmsr | .bts .. | .movFromCr0 _ | .movToCr0 _ | .lgdt _ | .lidt _ => True
  | _ => False

theorem decodeCommon_body {i : Instr} {b : ℕ → BitVec 8} (h : Reads b i.body)
    (hi : i.Common) : decodeCommon i.rexBits.1 i.rexBits.2 b = some (i, i.body.length) := by
  cases i with
  | push r =>
    obtain ⟨-, -, hop, -, -, -, hr, -⟩ := opcode_low r
    have h0 : b 0 = 0x50 ||| r.low.setWidth 8 := h 0 (Nat.succ_pos _)
    rw [decodeCommon, h0, if_pos hop, hr, Instr.rexBits, Reg.ofCode_low]
    rfl
  | pop r =>
    obtain ⟨-, -, -, hop, -, -, -, hr⟩ := opcode_low r
    have h0 : b 0 = 0x58 ||| r.low.setWidth 8 := h 0 (Nat.succ_pos _)
    rw [decodeCommon, h0, hop, if_neg (by decide), if_pos rfl, hr, Instr.rexBits, Reg.ofCode_low]
    rfl
  | aluImm op wide r imm =>
    have h0 : b 0 = 0x83 := h 0 (by decide : 0 < 3)
    have h1 : b 1 = modRm 3 op.code r.low := h 1 (by decide : 1 < 3)
    have h2 : b 2 = imm := h 2 (by decide : 2 < 3)
    simp [decodeCommon, h0, h1, h2, Instr.rexBits, Instr.body]
  | callReg r =>
    have h0 : b 0 = 0xff := h 0 (by decide : 0 < 2)
    have h1 : b 1 = modRm 3 2 r.low := h 1 (by decide : 1 < 2)
    simp [decodeCommon, h0, h1, Instr.rexBits, Instr.body]
  | _ => exact hi.elim

/-- An opcode that holds a register is none of the others. -/
theorem decode32_opcode {b : ℕ → BitVec 8} (h : b 0 &&& 0xf8 = 0x50 ∨ b 0 &&& 0xf8 = 0x58) :
    decode32 b = decodeCommon false false b := by
  have hne : ∀ v : BitVec 8, v &&& 0xf8 ≠ 0x50 ∧ v &&& 0xf8 ≠ 0x58 → b 0 ≠ v := fun v hv he => by
    rw [he] at h
    exact h.elim hv.1 hv.2
  have hb8 : b 0 &&& 0xf8 ≠ 0xb8 := by rcases h with h | h <;> rw [h] <;> decide
  have h48 : b 0 &&& 0xf8 ≠ 0x48 := by rcases h with h | h <;> rw [h] <;> decide
  unfold decode32
  rw [if_neg (hne _ (by decide)), if_neg hb8, if_neg h48]
  iterate 18 rw [if_neg (by first | exact hne _ (by decide) | exact fun hh => hne _ (by decide) hh.1)]

theorem decodeTwoByte_body {i : Instr} {b : ℕ → BitVec 8} (hi : i.Encodable false)
    (h : Reads b i.body) (ht : i.TwoByte) :
    b 0 = 0x0f ∧ decodeTwoByte b = some (i, i.body.length) := by
  cases i with
  | rdmsr =>
    have h1 : b 1 = 0x32 := h 1 (by decide : 1 < 2)
    exact ⟨h 0 (Nat.succ_pos _), by simp [decodeTwoByte, h1, Instr.body]⟩
  | wrmsr =>
    have h1 : b 1 = 0x30 := h 1 (by decide : 1 < 2)
    exact ⟨h 0 (Nat.succ_pos _), by simp [decodeTwoByte, h1, Instr.body]⟩
  | bts r n =>
    have h1 : b 1 = 0xba := h 1 (by decide : 1 < 4)
    have h2 : b 2 = modRm 3 5 r.low := h 2 (by decide : 2 < 4)
    have h3 : b 3 = n := h 3 (by decide : 3 < 4)
    refine ⟨h 0 (Nat.succ_pos _), ?_⟩
    simp [decodeTwoByte, h1, h2, h3, Instr.body, Reg.ofCode_low_of_not_ext hi.2]
  | movFromCr0 r =>
    have h1 : b 1 = 0x20 := h 1 (by decide : 1 < 3)
    have h2 : b 2 = modRm 3 0 r.low := h 2 (by decide : 2 < 3)
    refine ⟨h 0 (Nat.succ_pos _), ?_⟩
    simp [decodeTwoByte, h1, h2, Instr.body, Reg.ofCode_low_of_not_ext hi.2]
  | movToCr0 r =>
    have h1 : b 1 = 0x22 := h 1 (by decide : 1 < 3)
    have h2 : b 2 = modRm 3 0 r.low := h 2 (by decide : 2 < 3)
    refine ⟨h 0 (Nat.succ_pos _), ?_⟩
    simp [decodeTwoByte, h1, h2, Instr.body, Reg.ofCode_low_of_not_ext hi.2]
  | lgdt a =>
    have h1 : b 1 = 0x01 := h 1 (by decide : 1 < 7)
    have h2 : b 2 = modRm 0 2 5 := h 2 (by decide : 2 < 7)
    have hv : word32 b 3 = a :=
      word32_of_reads [0x0f, 0x01, modRm 0 2 5] [] (by simpa [Instr.body] using h)
    exact ⟨h 0 (Nat.succ_pos _), by simp [decodeTwoByte, h1, h2, hv, Instr.body]⟩
  | lidt a =>
    have h1 : b 1 = 0x01 := h 1 (by decide : 1 < 7)
    have h2 : b 2 = modRm 0 3 5 := h 2 (by decide : 2 < 7)
    have hne : ¬ modRm 0#2 3#3 5#3 = modRm 0#2 2#3 5#3 := by decide
    have hv : word32 b 3 = a :=
      word32_of_reads [0x0f, 0x01, modRm 0 3 5] [] (by simpa [Instr.body] using h)
    exact ⟨h 0 (Nat.succ_pos _), by simp [decodeTwoByte, h1, h2, hv, hne, Instr.body]⟩
  | _ => exact ht.elim

theorem decode32_body {i : Instr} {b : ℕ → BitVec 8} (hi : i.Encodable false)
    (h : Reads b i.body) : decode32 b = some (i, i.body.length) := by
  cases i with
  | rdmsr | wrmsr | bts r n | movFromCr0 r | movToCr0 r | lgdt a | lidt a =>
    obtain ⟨h0, hdec⟩ := decodeTwoByte_body hi h trivial
    rw [decode32, if_pos h0, hdec]
  | cli | ret | lret =>
    have h0 := h 0 (Nat.succ_pos _)
    simp [decode32, h0, Instr.body]
  | pause | jmp rel | je rel =>
    have h0 := h 0 (Nat.succ_pos _)
    have h1 := h 1 (by decide : 1 < 2)
    simp [decode32, h0, h1, Instr.body]
  | movImm r imm =>
    have h0 : b 0 = 0xb8 ||| r.low.setWidth 8 := h 0 (Nat.succ_pos _)
    obtain ⟨hop, -, -, -, hr, -⟩ := opcode_low r
    have hv : word32 b 1 = imm :=
      word32_of_reads [0xb8 ||| r.low.setWidth 8] [] (by simpa [Instr.body] using h)
    have hne : b 0 ≠ 0x0f := fun he => by
      rw [← h0, he] at hop
      exact absurd hop (by decide)
    rw [decode32, if_neg hne, h0, if_pos hop, hr, hv, Reg.ofCode_low_of_not_ext hi.2]
    simp [Instr.body]
  | mov dst src | xor dst src | add dst src =>
    have h0 := h 0 (Nat.succ_pos _)
    have h1 := h 1 (by decide : 1 < 2)
    simp [decode32, h0, decodeRegs_body hi.2.1 hi.2.2 h1, Instr.body]
  | aluImm op wide r imm =>
    have h0 : b 0 = 0x83 := h 0 (by decide : 0 < 3)
    have h1 : b 1 = modRm 3 op.code r.low := h 1 (by decide : 1 < 3)
    have hb : ¬ modRm 3#2 op.code r.low = modRm 0#2 7#3 5#3 := by cases op <;> cases r <;> decide
    obtain ⟨hw, hr⟩ := hi.resolve_left (by decide)
    have hc := decodeCommon_body h trivial
    rw [Instr.rexBits, hw, hr] at hc
    simp [decode32, h0, h1, hb, hc, hw]
  | andEax imm | pushImm imm | call imm =>
    have h0 := h 0 (Nat.succ_pos _)
    have hv : word32 b 1 = imm :=
      word32_of_reads [_] [] (by simpa [Instr.body] using h)
    simp [decode32, h0, hv, Instr.body]
  | shl r n | shr r n =>
    have h0 := h 0 (Nat.succ_pos _)
    have h1 := h 1 (by decide : 1 < 3)
    have h2 := h 2 (by decide : 2 < 3)
    simp [decode32, decodeShift, h0, h1, h2, Instr.body, Reg.ofCode_low_of_not_ext hi.2]
  | dec r =>
    have h0 : b 0 = 0x48 ||| r.low.setWidth 8 := h 0 (Nat.succ_pos _)
    obtain ⟨-, hop, -, -, -, hr, -⟩ := opcode_low r
    have hne : b 0 ≠ 0x0f := fun he => by
      rw [← h0, he] at hop
      exact absurd hop (by decide)
    rw [decode32, if_neg hne, h0, hop, if_neg (by decide), if_pos rfl, hr,
      Reg.ofCode_low_of_not_ext hi.2]
    rfl
  | lea r a =>
    have h0 := h 0 (Nat.succ_pos _)
    have h1 := h 1 (by decide : 1 < 6)
    have hv : word32 b 2 = a :=
      word32_of_reads [_, _] [] (by simpa [Instr.body] using h)
    simp [decode32, h0, h1, hv, Instr.body, Reg.ofCode_low_of_not_ext hi.2]
  | load r src =>
    have h0 := h 0 (Nat.succ_pos _)
    have hm : Reads (fun k => b (k + 1)) (src.bytes r.low) :=
      fun k hk => h (k + 1) (Nat.succ_lt_succ hk)
    obtain ⟨hdec, hreg⟩ := decodeMem_bytes hi.2.2 hm
    rw [Nat.zero_add] at hreg
    simp [decode32, h0, hdec, hreg, Instr.body, Reg.ofCode_low_of_not_ext hi.2.1]
  | loadByte r base =>
    have h0 := h 0 (Nat.succ_pos _)
    have h1 := h 1 (by decide : 1 < 2)
    obtain ⟨hlt, hr⟩ := low_lt hi.2.1
    obtain ⟨h4, h5, hb⟩ := low_ne hi.2.2
    simp [decode32, h0, h1, hlt, h4, h5, hr, hb, Instr.body]
  | storeByte base imm =>
    have h0 := h 0 (Nat.succ_pos _)
    have h1 := h 1 (by decide : 1 < 3)
    have h2 := h 2 (by decide : 2 < 3)
    obtain ⟨h4, h5, hb⟩ := low_ne hi.2
    simp [decode32, h0, h1, h2, h4, h5, hb, Instr.body]
  | cmpImm a imm =>
    have h0 := h 0 (Nat.succ_pos _)
    have h1 := h 1 (by decide : 1 < 7)
    have h6 := h 6 (by decide : 6 < 7)
    have hv : word32 b 2 = a :=
      word32_of_reads [_, _] [imm] (by simpa [Instr.body] using h)
    simp [Instr.body, imm32, Memory.littleEndian] at h6
    simp [decode32, h0, h1, h6, hv, Instr.body]
  | push r =>
    have h0 : b 0 = 0x50 ||| r.low.setWidth 8 := h 0 (Nat.succ_pos _)
    obtain ⟨-, -, hop, -⟩ := opcode_low r
    have hc := decodeCommon_body h trivial
    rw [Instr.rexBits, hi.resolve_left (by decide)] at hc
    rw [decode32_opcode (.inl (h0 ▸ hop)), hc]
  | pop r =>
    have h0 : b 0 = 0x58 ||| r.low.setWidth 8 := h 0 (Nat.succ_pos _)
    obtain ⟨-, -, -, hop, -⟩ := opcode_low r
    have hc := decodeCommon_body h trivial
    rw [Instr.rexBits, hi.resolve_left (by decide)] at hc
    rw [decode32_opcode (.inr (h0 ▸ hop)), hc]
  | callReg r =>
    have h0 : b 0 = 0xff := h 0 (by decide : 0 < 2)
    have hc := decodeCommon_body h trivial
    rw [Instr.rexBits, hi.resolve_left (by decide)] at hc
    simp [decode32, h0, hc]

theorem rexBits_of_encodable {i : Instr} (hi : i.Encodable false) : i.rexBits = (false, false) := by
  cases i with
  | push r | pop r | callReg r => exact congrArg (Prod.mk false) (hi.resolve_left (by decide))
  | aluImm op wide r imm =>
    obtain ⟨hw, hr⟩ := hi.resolve_left (by decide)
    rw [Instr.rexBits, hw, hr]
  | _ => rfl

theorem common_of_encodable {i : Instr} (hi : i.Encodable true) : i.Common := by
  cases i with
  | push r | pop r | callReg r | aluImm op wide r imm => trivial
  | cli | pause | rdmsr | wrmsr | ret | lret => cases hi
  | andEax imm | cmpImm a imm | jmp rel | je rel | pushImm imm | call rel | lgdt a | lidt a => cases hi
  | movImm r imm | shl r n | shr r n | dec r | bts r n | lea r a | movFromCr0 r | movToCr0 r =>
    cases hi.1
  | mov dst src | xor dst src | add dst src | load r src | loadByte r base | storeByte base imm =>
    cases hi.1

/-- No instruction of both kinds starts with what a prefix is. -/
theorem common_ne_rex {i : Instr} (hi : i.Common) : i.body.getD 0 0 &&& 0xf6 ≠ 0x40 := by
  cases i with
  | push r | pop r => clear hi; cases r <;> decide
  | aluImm op wide r imm | callReg r =>
    simp only [Instr.body, List.getD_cons_zero]
    decide
  | _ => exact hi.elim

theorem rex_eq {w x : Bool} (h : w = true ∨ x = true) : ∃ v, rex w x = [v] ∧
    v &&& 0xf6 = 0x40 ∧ v.getLsbD 3 = w ∧ v.getLsbD 0 = x := by
  refine ⟨_, if_pos h, ?_⟩
  revert w x
  decide

/-- What is decoded is what was encoded, in each of the two kinds of code. -/
theorem decode_encode {long : Bool} {i : Instr} {b : ℕ → BitVec 8} (hi : i.Encodable long)
    (h : Reads b (encode i)) : decode long b = some (i, (encode i).length) := by
  cases long with
  | false =>
    have henc : encode i = i.body := by
      rw [encode, rexBits_of_encodable hi]
      rfl
    rw [henc] at h ⊢
    exact decode32_body hi h
  | true =>
    have hcommon := common_of_encodable hi
    have hpos : 0 < i.body.length := by cases i <;> exact Nat.succ_pos _
    have hdec := fun b hb => decodeCommon_body (i := i) (b := b) hb hcommon
    unfold encode at h ⊢
    rw [decode, if_pos rfl, decode64]
    obtain ⟨⟨w, x⟩, hbits⟩ : ∃ p, i.rexBits = p := ⟨_, rfl⟩
    rw [hbits] at h hdec ⊢
    by_cases hp : w = true ∨ x = true
    · obtain ⟨pre, hpre, hfix, hw, hx⟩ := rex_eq hp
      have hbody : Reads (fun k => b (k + 1)) i.body := fun k hk => by
        change b (k + 1) = _
        rw [h (k + 1) (by rw [hpre, List.length_append, List.length_singleton]; omega), hpre]
        rfl
      have h0 : b 0 = pre := by
        rw [h 0 (by rw [hpre]; exact Nat.succ_pos _), hpre]
        rfl
      rw [h0, if_pos hfix, hw, hx, hdec _ hbody, hpre]
      rfl
    · have hnone : rex w x = [] := if_neg hp
      have hw : w = false ∧ x = false := by simpa using hp
      rw [hnone, List.nil_append] at h ⊢
      have h0 : b 0 &&& 0xf6 ≠ 0x40 := by
        rw [h 0 hpos]
        exact common_ne_rex hcommon
      rw [hw.1, hw.2] at hdec
      rw [if_neg h0, hdec b h]

end Ia32e
