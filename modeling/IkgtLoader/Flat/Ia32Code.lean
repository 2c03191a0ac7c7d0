import IkgtLoader.Flat.Ia32

/-! Machine code for the processor: how the instructions are encoded and decoded, the fetch of the
next one, and runs of straight-line code whose surroundings may change while it runs. -/
namespace Ia32
open Flat

def Reg.code : Reg → BitVec 3
  | .eax => 0
  | .ecx => 1
  | .edx => 2
  | .ebx => 3
  | .esp => 4
  | .ebp => 5
  | .esi => 6
  | .edi => 7

def SegReg.code : SegReg → BitVec 3
  | .es => 0
  | .cs => 1
  | .ss => 2
  | .ds => 3
  | .fs => 4
  | .gs => 5

def Reg.ofCode (n : BitVec 3) : Reg :=
  if n = 0 then .eax else if n = 1 then .ecx else if n = 2 then .edx else if n = 3 then .ebx
  else if n = 4 then .esp else if n = 5 then .ebp else if n = 6 then .esi else .edi

def SegReg.ofCode (n : BitVec 3) : Option SegReg :=
  if n = 0 then some .es else if n = 1 then some .cs else if n = 2 then some .ss
  else if n = 3 then some .ds else if n = 4 then some .fs else if n = 5 then some .gs else none

/-- The byte behind an opcode that names two operands. -/
def modRm (mod : BitVec 2) (reg rm : BitVec 3) : BitVec 8 := mod ++ reg ++ rm

/-- The operand size of an instruction whose bytes leave it open: wide is 32 bits. -/
def Instr.wide? : Instr → Option Bool
  | .movImm16 .. | .movSeg .. | .lea16 .. | .lgdt16Si => some false
  | .movImm32 .. | .jmpFar32 .. | .jmpReg32 _ => some true
  | .cli | .orAl _ | .movFromCr0 _ | .movToCr0 _ => none

def Instr.body : Instr → List (BitVec 8)
  | .cli => [0xfa]
  | .orAl imm => [0x0c, imm]
  | .movImm16 r imm => (0xb8 ||| r.code.setWidth 8) :: Memory.littleEndian 2 imm.toNat
  | .movImm32 r imm => (0xb8 ||| r.code.setWidth 8) :: Memory.littleEndian 4 imm.toNat
  | .movSeg s r => [0x8e, modRm 3 s.code r.code]
  | .movFromCr0 r => [0x0f, 0x20, modRm 3 0 r.code]
  | .movToCr0 r => [0x0f, 0x22, modRm 3 0 r.code]
  | .lea16 r disp => 0x8d :: modRm 0 r.code 6 :: Memory.littleEndian 2 disp.toNat
  | .lgdt16Si => [0x0f, 0x01, modRm 0 2 4]
  | .jmpFar32 sel off =>
    0xea :: (Memory.littleEndian 4 off.toNat ++ Memory.littleEndian 2 sel.toNat)
  | .jmpReg32 r => [0xff, modRm 3 4 r.code]

/-- The operand-size prefix stands where the size is not the default of the code segment. -/
def sizePrefix (big : Bool) (i : Instr) : List (BitVec 8) :=
  if i.wide? = some (!big) then [0x66] else []

/-- The bytes of an instruction in a code segment of the given default size. -/
def encode (big : Bool) (i : Instr) : List (BitVec 8) := sizePrefix big i ++ i.body

/-- An instruction without a form in 16-bit addressing has none in a 32-bit code segment. -/
def Instr.Encodable (big : Bool) : Instr → Prop
  | .lea16 .. => big = false
  | .lgdt16Si => big = false
  | _ => True

instance (big : Bool) (i : Instr) : Decidable (i.Encodable big) := by
  cases i <;> unfold Instr.Encodable <;> infer_instance

def word16 (b : ℕ → BitVec 8) (k : ℕ) : BitVec 16 := b (k + 1) ++ b k

def word32 (b : ℕ → BitVec 8) (k : ℕ) : BitVec 32 := word16 b (k + 2) ++ word16 b k

/-- The operands of a `modRm` byte. -/
def mod (b : BitVec 8) : BitVec 2 := b.extractLsb' 6 2

def regField (b : BitVec 8) : BitVec 3 := b.extractLsb' 3 3

def rmField (b : BitVec 8) : BitVec 3 := b.extractLsb' 0 3

/-- An instruction behind its prefix, with its length. -/
def decodeOp (big wide : Bool) (b : ℕ → BitVec 8) : Option (Instr × ℕ) :=
  if b 0 = 0xfa then some (.cli, 1)
  else if b 0 = 0x0c then some (.orAl (b 1), 2)
  else if b 0 &&& 0xf8 = 0xb8 then
    let r := Reg.ofCode (rmField (b 0))
    if wide then some (.movImm32 r (word32 b 1), 5) else some (.movImm16 r (word16 b 1), 3)
  else if b 0 = 0x8e then
    if mod (b 1) = 3 then
      (SegReg.ofCode (regField (b 1))).map fun s => (.movSeg s (Reg.ofCode (rmField (b 1))), 2)
    else none
  else if b 0 = 0x0f then
    if b 1 = 0x20 ∧ regField (b 2) = 0 then some (.movFromCr0 (Reg.ofCode (rmField (b 2))), 3)
    else if b 1 = 0x22 ∧ regField (b 2) = 0 then some (.movToCr0 (Reg.ofCode (rmField (b 2))), 3)
    else if b 1 = 0x01 ∧ b 2 = modRm 0 2 4 ∧ big = false ∧ wide = false then some (.lgdt16Si, 3)
    else none
  else if b 0 = 0x8d ∧ mod (b 1) = 0 ∧ rmField (b 1) = 6 ∧ big = false ∧ wide = false then
    some (.lea16 (Reg.ofCode (regField (b 1))) (word16 b 2), 4)
  else if b 0 = 0xea ∧ wide = true then some (.jmpFar32 (word16 b 5) (word32 b 1), 7)
  else if b 0 = 0xff ∧ mod (b 1) = 3 ∧ regField (b 1) = 4 ∧ wide = true then
    some (.jmpReg32 (Reg.ofCode (rmField (b 1))), 2)
  else none

def decode (big : Bool) (b : ℕ → BitVec 8) : Option (Instr × ℕ) :=
  if b 0 = 0x66 then (decodeOp big (!big) fun k => b (k + 1)).map fun p => (p.1, p.2 + 1)
  else decodeOp big big b

theorem word16_of_littleEndian {b : ℕ → BitVec 8} {k : ℕ} (v : BitVec 16)
    (h0 : b k = BitVec.ofNat 8 v.toNat) (h1 : b (k + 1) = BitVec.ofNat 8 (v.toNat / 256)) :
    word16 b k = v := by
  apply BitVec.eq_of_toNat_eq
  have hv := v.isLt
  rw [word16, toNat_append_add, h0, h1, BitVec.toNat_ofNat, BitVec.toNat_ofNat]
  omega

theorem word32_of_littleEndian {b : ℕ → BitVec 8} {k : ℕ} (v : BitVec 32)
    (h0 : b k = BitVec.ofNat 8 v.toNat) (h1 : b (k + 1) = BitVec.ofNat 8 (v.toNat / 256))
    (h2 : b (k + 2) = BitVec.ofNat 8 (v.toNat / 256 / 256))
    (h3 : b (k + 3) = BitVec.ofNat 8 (v.toNat / 256 / 256 / 256)) : word32 b k = v := by
  apply BitVec.eq_of_toNat_eq
  have hv := v.isLt
  rw [word32, toNat_append_add, word16, word16, toNat_append_add, toNat_append_add, h0, h1, h2, h3,
    BitVec.toNat_ofNat, BitVec.toNat_ofNat, BitVec.toNat_ofNat, BitVec.toNat_ofNat]
  omega

/-- The bytes a decoder sees start with those of the list. -/
def Reads (b : ℕ → BitVec 8) (l : List (BitVec 8)) : Prop := ∀ k < l.length, b k = l.getD k 0

theorem Reg.ofCode_code (r : Reg) : Reg.ofCode r.code = r := by
  cases r <;> rfl

theorem SegReg.ofCode_code (s : SegReg) : SegReg.ofCode s.code = some s := by
  cases s <;> rfl

@[simp] theorem mod_modRm (a : BitVec 2) (r m : BitVec 3) : mod (modRm a r m) = a := by
  revert a r m
  decide

@[simp] theorem regField_modRm (a : BitVec 2) (r m : BitVec 3) : regField (modRm a r m) = r := by
  revert a r m
  decide

@[simp] theorem rmField_modRm (a : BitVec 2) (r m : BitVec 3) : rmField (modRm a r m) = m := by
  revert a r m
  decide

theorem opcode_fields (r : Reg) : (0xb8 ||| r.code.setWidth 8 : BitVec 8) &&& 0xf8 = 0xb8 ∧
    rmField (0xb8 ||| r.code.setWidth 8) = r.code ∧
    (0xb8 ||| r.code.setWidth 8 : BitVec 8) ≠ 0xfa ∧
    (0xb8 ||| r.code.setWidth 8 : BitVec 8) ≠ 0x0c ∧
    (0xb8 ||| r.code.setWidth 8 : BitVec 8) ≠ 0x66 := by
  cases r <;> decide

theorem decodeOp_body {big wide : Bool} {i : Instr} {b : ℕ → BitVec 8} (hi : i.Encodable big)
    (hw : ∀ w, i.wide? = some w → wide = w) (h : Reads b i.body) :
    decodeOp big wide b = some (i, i.body.length) := by
  cases i with
  | cli =>
    have h0 : b 0 = 0xfa := h 0 (by decide)
    rw [decodeOp, if_pos h0]
    rfl
  | orAl imm =>
    have h0 : b 0 = 0x0c := h 0 (by decide : 0 < 2)
    have h1 : b 1 = imm := h 1 (by decide : 1 < 2)
    simp [decodeOp, h0, h1, Instr.body]
  | movImm16 r imm =>
    obtain ⟨hop, hr, hcli, hor, _⟩ := opcode_fields r
    have h0 : b 0 = 0xb8 ||| r.code.setWidth 8 := h 0 (by decide : 0 < 3)
    have hv : word16 b 1 = imm := word16_of_littleEndian imm (h 1 (by decide : 1 < 3))
      (h 2 (by decide : 2 < 3))
    rw [decodeOp, h0, if_neg hcli, if_neg hor, if_pos hop, hr, Reg.ofCode_code, hv, hw false rfl]
    rfl
  | movImm32 r imm =>
    obtain ⟨hop, hr, hcli, hor, _⟩ := opcode_fields r
    have h0 : b 0 = 0xb8 ||| r.code.setWidth 8 := h 0 (by decide : 0 < 5)
    have hv : word32 b 1 = imm := word32_of_littleEndian imm (h 1 (by decide : 1 < 5))
      (h 2 (by decide : 2 < 5)) (h 3 (by decide : 3 < 5)) (h 4 (by decide : 4 < 5))
    rw [decodeOp, h0, if_neg hcli, if_neg hor, if_pos hop, hr, Reg.ofCode_code, hv, hw true rfl]
    rfl
  | movSeg s r =>
    have h0 : b 0 = 0x8e := h 0 (by decide : 0 < 2)
    have h1 : b 1 = modRm 3 s.code r.code := h 1 (by decide : 1 < 2)
    simp [decodeOp, h0, h1, Reg.ofCode_code, SegReg.ofCode_code, Instr.body]
  | movFromCr0 r =>
    have h0 : b 0 = 0x0f := h 0 (by decide : 0 < 3)
    have h1 : b 1 = 0x20 := h 1 (by decide : 1 < 3)
    have h2 : b 2 = modRm 3 0 r.code := h 2 (by decide : 2 < 3)
    simp [decodeOp, h0, h1, h2, Reg.ofCode_code, Instr.body]
  | movToCr0 r =>
    have h0 : b 0 = 0x0f := h 0 (by decide : 0 < 3)
    have h1 : b 1 = 0x22 := h 1 (by decide : 1 < 3)
    have h2 : b 2 = modRm 3 0 r.code := h 2 (by decide : 2 < 3)
    simp [decodeOp, h0, h1, h2, Reg.ofCode_code, Instr.body]
  | lea16 r disp =>
    have h0 : b 0 = 0x8d := h 0 (by decide : 0 < 4)
    have h1 : b 1 = modRm 0 r.code 6 := h 1 (by decide : 1 < 4)
    have hv : word16 b 2 = disp := word16_of_littleEndian disp (h 2 (by decide : 2 < 4))
      (h 3 (by decide : 3 < 4))
    have hbig : big = false := hi
    simp [decodeOp, h0, h1, hv, hbig, hw false rfl, Reg.ofCode_code, Instr.body,
      Memory.littleEndian]
  | lgdt16Si =>
    have h0 : b 0 = 0x0f := h 0 (by decide : 0 < 3)
    have h1 : b 1 = 0x01 := h 1 (by decide : 1 < 3)
    have h2 : b 2 = modRm 0 2 4 := h 2 (by decide : 2 < 3)
    have hbig : big = false := hi
    simp [decodeOp, h0, h1, h2, hbig, hw false rfl, Instr.body]
  | jmpFar32 sel off =>
    have h0 : b 0 = 0xea := h 0 (by decide : 0 < 7)
    have hoff : word32 b 1 = off := word32_of_littleEndian off (h 1 (by decide : 1 < 7))
      (h 2 (by decide : 2 < 7)) (h 3 (by decide : 3 < 7)) (h 4 (by decide : 4 < 7))
    have hsel : word16 b 5 = sel := word16_of_littleEndian sel (h 5 (by decide : 5 < 7))
      (h 6 (by decide : 6 < 7))
    simp [decodeOp, h0, hoff, hsel, hw true rfl, Instr.body, Memory.littleEndian]
  | jmpReg32 r =>
    have h0 : b 0 = 0xff := h 0 (by decide : 0 < 2)
    have h1 : b 1 = modRm 3 4 r.code := h 1 (by decide : 1 < 2)
    simp [decodeOp, h0, h1, hw true rfl, Reg.ofCode_code, Instr.body]

/-- No instruction starts with what the prefix is. -/
theorem body_ne_prefix (i : Instr) : 0 < i.body.length ∧ i.body.getD 0 0 ≠ 0x66 := by
  cases i with
  | movImm16 r imm => exact ⟨Nat.succ_pos _, (opcode_fields r).2.2.2.2⟩
  | movImm32 r imm => exact ⟨Nat.succ_pos _, (opcode_fields r).2.2.2.2⟩
  | _ => exact ⟨Nat.succ_pos _, by simp [Instr.body]⟩

theorem decode_encode {big : Bool} {i : Instr} {b : ℕ → BitVec 8} (hi : i.Encodable big)
    (h : Reads b (encode big i)) : decode big b = some (i, (encode big i).length) := by
  unfold encode at h ⊢
  by_cases hp : i.wide? = some (!big)
  · have hpre : sizePrefix big i = [0x66] := if_pos hp
    rw [hpre] at h ⊢
    have h0 : b 0 = 0x66 := h 0 (Nat.succ_pos _)
    have hbody : Reads (fun k => b (k + 1)) i.body := fun k hk => h (k + 1) (Nat.succ_lt_succ hk)
    have hw : ∀ w, i.wide? = some w → (!big) = w := fun w hw => Option.some.inj (hp.symm.trans hw)
    rw [decode, if_pos h0, decodeOp_body hi hw hbody]
    rfl
  · have hpre : sizePrefix big i = [] := if_neg hp
    rw [hpre, List.nil_append] at h ⊢
    obtain ⟨hpos, hne⟩ := body_ne_prefix i
    have h0 : b 0 ≠ 0x66 := by
      rw [h 0 hpos]
      exact hne
    have hw : ∀ w, i.wide? = some w → big = w := by
      intro w hw
      cases big <;> cases w <;> first | rfl | exact absurd hw hp
    rw [decode, if_neg h0, decodeOp_body hi hw h]

end Ia32
