import IkgtLoader.Flat.Align
import IkgtLoader.Flat.Ia32eRun

/-! `x32_init64.c` and `start_64bit_mode`: how a processor leaves the 32-bit mode. -/
namespace IkgtLoader.StartAp
open Flat Ia32e

/-- `init64_struct_t`. -/
structure Init64Struct where
  i64Cs : BitVec 16
  i64Gdtr : Ia32.TableReg
  i64Efer : BitVec 64
  i64Cr3 : BitVec 32

def PSE_BIT : BitVec 32 := 0x10

def PAE_BIT : BitVec 32 := 0x20

/-- `x32_init64_start` up to its call of `start_64bit_mode`. -/
def x32Init64Start (c : Cpu) (d : Init64Struct) : Option Cpu :=
  let c := { c with gdtr := d.i64Gdtr }
  let c := { c with cr3 := d.i64Cr3 }
  let c := { c with cr4 := c.cr4 ||| (PAE_BIT ||| PSE_BIT) }
  c.writeMsr IA32_MSR_EFER d.i64Efer

/-- `start_64bit_mode`, up to its `lret`. -/
def start64bitMode (START64 : BitVec 32) : List Instr :=
  [.load .rbx (.disp .rsp 0x04),
    .load .rbp (.disp .rsp 0x08),
    .load .rcx (.disp .rsp 0x0c),
    .load .rdx (.disp .rsp 0x10),
    .load .rdi (.disp .rsp 0x14),
    .load .rsi (.disp .rsp 0x18),
    .xor .rax .rax,
    .aluImm .and false .rsp (~~~7),
    .push .rax,
    .push .rsi,
    .push .rax,
    .push .rdi,
    .push .rax,
    .push .rdx,
    .push .rax,
    .push .rcx,
    .cli,
    .push .rbp,
    .pushImm START64,
    .movImm .rcx 0xc0000080,
    .rdmsr,
    .bts .rax 8,
    .wrmsr,
    .movFromCr0 .rax,
    .bts .rax 31,
    .movToCr0 .rax,
    .lret]

/-- What stands behind the label `START64`: instructions of 32 bits, as they are assembled, and
single bytes. -/
def start64Text : List (BitVec 8) :=
  encode (.pop .rcx) ++ encode (.pop .rdx) ++ [0x41] ++ [0x58] ++ [0x41] ++ [0x59] ++ [0x48] ++
    encode (.aluImm .sub false .rsp 0x18) ++ encode (.callReg .rbx)

/-- What it is in 64-bit mode. -/
def start64 : List Instr :=
  [.pop .rcx, .pop .rdx, .pop .r8, .pop .r9, .aluImm .sub true .rsp 0x18, .callReg .rbx]

theorem start64Text_eq : start64Text = assemble start64 := by decide

def start64Offset : ℕ := (assemble (start64bitMode 0)).length

/-- The text of `start_64bit_mode` at an address. -/
def start64bitModeText (address : BitVec 32) : List (BitVec 8) :=
  assemble (start64bitMode (address + BitVec.ofNat 32 start64Offset)) ++ start64Text

/-- The operands above the return address, with their registers. -/
def argumentLoads : List (Reg × BitVec 8) :=
  [(.rbx, 0x04), (.rbp, 0x08), (.rcx, 0x0c), (.rdx, 0x10), (.rdi, 0x14), (.rsi, 0x18)]

/-- The pushes of four words of 64 bits. -/
def argumentPushes : List Reg := [.rax, .rsi, .rax, .rdi, .rax, .rdx, .rax, .rcx]

/-- The text of `start_64bit_mode` block by block. -/
theorem start64bitModeText_eq (address : BitVec 32) : start64bitModeText address =
    assemble (argumentLoads.map fun q => .load q.1 (.disp .rsp q.2)) ++
      (assemble [.xor .rax .rax, .aluImm .and false .rsp (~~~7)] ++
        (assemble (argumentPushes.map .push) ++ (encode .cli ++ (encode (.push .rbp) ++
          (encode (.pushImm (address + BitVec.ofNat 32 start64Offset)) ++
            (assemble [.movImm .rcx 0xc0000080, .rdmsr, .bts .rax 8] ++ (encode .wrmsr ++
              (assemble [.movFromCr0 .rax, .bts .rax 31] ++ (encode (.movToCr0 .rax) ++
                (encode .lret ++ start64Text)))))))))) := by
  simp [start64bitModeText, start64bitMode, argumentLoads, argumentPushes]

theorem length_start64bitMode (START64 : BitVec 32) :
    (assemble (start64bitMode START64)).length = start64Offset := by
  simp [start64Offset, start64bitMode, encode, Instr.rexBits, Instr.body]

/-- A descriptor of 64-bit code for the highest privilege. -/
structure LongCode (d : Ia32.Descriptor) : Prop where
  present : d.present = true
  codeOrData : d.codeOrData = true
  executable : d.executable = true
  dpl : d.dpl = 0
  long : longBit d = true
  big : d.big = false

/-- A processor in protected mode without paging, after `x32_init64_start` has set its registers. -/
structure Prepared (c : Cpu) : Prop where
  protectedMode : c.cr0.getLsbD 0 = true
  noPaging : c.paging = false
  cs : c.cs.big = true ∧ c.cs.base = 0 ∧ c.cs.limit = 0xffffffff ∧ c.cs.long = false
  ss : c.ss.usable = true ∧ c.ss.base = 0 ∧ c.ss.limit = 0xffffffff
  cpl : c.cpl = 0
  pae : c.pae = true
  efer : c.efer &&& ~~~0xd01#64 = 0

namespace Prepared
variable {c c' : Cpu}

theorem of_regsOnly (h : Prepared c) (hc : RegsOnly c c') : Prepared c' := by
  rw [hc]
  exact ⟨h.protectedMode, h.noPaging, h.cs, h.ss, h.cpl, h.pae, h.efer⟩

theorem masked (h : Prepared c) : Prepared { c with interruptFlag := false } :=
  ⟨h.protectedMode, h.noPaging, h.cs, h.ss, h.cpl, h.pae, h.efer⟩

theorem long (h : Prepared c) : c.long = false := by
  unfold Cpu.long Cpu.longActive
  rw [h.noPaging, Bool.and_false, Bool.false_and]

theorem flatData (h : Prepared c) : c.FlatData c.ss := .inr h.ss

end Prepared

theorem toNat_and_eight (x : BitVec 32) : (x &&& 0xfffffff8#32).toNat = x.toNat / 8 * 8 :=
  toNat_and_allOnes_shiftLeft x 3

/-- The accumulator is cleared and the stack pointer is aligned. -/
theorem align_block (c : Cpu) :
    ∃ c', runQuiet [.xor .rax .rax, .aluImm .and false .rsp (~~~7)] c = some c' ∧ c'.reg .rax = 0 ∧
      c'.reg .rsp = (c.reg32 .rsp &&& 0xfffffff8#32).setWidth 64 ∧
      ∀ r, r ≠ .rax → r ≠ .rsp → c'.reg r = c.reg r := by
  refine ⟨_, rfl, ?_, ?_, fun r h₁ h₂ => ?_⟩
  · simp [Cpu.setReg32, setReg_reg]
  · simp [Cpu.setReg32, setReg_reg, Cpu.reg32, Alu.eval]
  · simp [Cpu.setReg32, setReg_reg, h₁, h₂]

section run
variable {K : Memory 32 → Prop} {lo : BitVec 32} {n k d : ℕ} {G : BitVec 32 → Prop}
  {Q : Memory 32 → Cpu → Prop} {m : Memory 32} {c : Cpu} {p : BitVec 32} {l : List (BitVec 8)}
  {address segment arg1 arg2 arg3 arg4 : BitVec 32}

/-- The operands are pushed below the next multiple of eight. -/
theorem arguments_pushed (hp : Private K lo (68 + d) G) (hd : d < 8) (halign : lo.toNat % 8 = 0)
    (hc : Prepared c)
    (hx : Executes K c p (assemble (argumentLoads.map fun q => .load q.1 (.disp .rsp q.2)) ++
      (assemble [.xor .rax .rax, .aluImm .and false .rsp (~~~7)] ++
        (assemble (argumentPushes.map .push) ++ l)))) (hm : K m)
    (hrsp : c.reg .rsp = (lo + BitVec.ofNat 32 (40 + d)).setWidth 64)
    (hargs : OnStack m lo (44 + d) [address, segment, arg1, arg2, arg3, arg4])
    (hrest : ∀ m' c' p', K m' → OnStack m' lo 8 [arg1, 0, arg2, 0, arg3, 0, arg4, 0] →
      Executes K c' p' l → RegsOnly c c' → c'.reg .rsp = (lo + BitVec.ofNat 32 8).setWidth 64 →
      c'.reg .rbx = address.setWidth 64 → c'.reg .rbp = segment.setWidth 64 →
        Reaches (Rely K lo (68 + d)) (Keeps K G) k Q m' c') :
    Reaches (Rely K lo (68 + d)) (Keeps K G) (6 + (2 + (8 + k))) Q m c := by
  have hfits := hp.fits
  have hds : ∀ q ∈ argumentLoads, q.1 ≠ .rsp ∧ q.1.ext = false ∧ q.2.toNat ≤ 24 := by decide
  have hoff : ∀ i (hi : i < argumentLoads.length), argumentLoads[i].2.toNat = 4 + 4 * i := by decide
  have hrs : ∀ r ∈ argumentPushes, r ≠ .rsp ∧ r.ext = false := by decide
  refine Reaches.loads hp argumentLoads hx (fun q hq => ?_) (by decide) hc.long hc.flatData hm
    hrsp fun m₁ c₁ hm₁ hr₁ hx₁ hregs₁ hval₁ hother₁ => ?_
  · obtain ⟨hne, hext, hle⟩ := hds q hq
    exact ⟨hne, hext, by omega, by omega⟩
  have hval : ∀ i (hi : i < argumentLoads.length), c₁.reg argumentLoads[i].1 =
      ([address, segment, arg1, arg2, arg3, arg4].getD i 0).setWidth 64 := fun i hi => by
    rw [hval₁ _ (List.getElem_mem hi), ← hargs i hi, hoff i hi]
    congr 2
    omega
  have hc₁ := hc.of_regsOnly hregs₁
  have hsp₁ : c₁.reg .rsp = (lo + BitVec.ofNat 32 (40 + d)).setWidth 64 :=
    (hother₁ .rsp (by decide)).trans hrsp
  obtain ⟨c₂, hrun, hrax, hrsp₂, hother⟩ := align_block c₁
  have haligned : c₁.reg32 .rsp &&& 0xfffffff8#32 = lo + BitVec.ofNat 32 40 := by
    apply BitVec.eq_of_toNat_eq
    rw [toNat_and_eight, Cpu.reg32, hsp₁, cut_zeroExtend, BitVec.toNat_add, BitVec.toNat_add,
      BitVec.toNat_ofNat, BitVec.toNat_ofNat]
    omega
  rw [haligned] at hrsp₂
  refine Reaches.quiet hx₁ (fun i hi => ?_) hrun hm₁ fun m₂ hm₂ hr₂ hx₂ hregs₂ => ?_
  · have hquiet : ∀ i ∈ [Instr.xor .rax .rax, .aluImm .and false .rsp (~~~7)],
        i.Quiet ∧ i.Encodable false := by simp [Instr.Quiet, Instr.Encodable, Reg.ext]
    rw [hc₁.long]
    exact hquiet i hi
  have hc₂ := hc₁.of_regsOnly hregs₂
  have hvals : (argumentPushes.map c₂.reg32).reverse ++ [] = [arg1, 0, arg2, 0, arg3, 0, arg4, 0] := by
    have hreg : ∀ r, r ≠ .rax → r ≠ .rsp → c₂.reg32 r = (c₁.reg r).setWidth 32 := fun r h₁ h₂ =>
      congrArg (BitVec.setWidth 32) (hother r h₁ h₂)
    have h0 : c₂.reg32 .rax = 0 := congrArg (BitVec.setWidth 32) hrax
    have h1 : c₂.reg32 .rcx = arg1 := (hreg .rcx (by decide) (by decide)).trans
      ((congrArg _ (hval 2 (by decide))).trans (cut_zeroExtend arg1))
    have h2 : c₂.reg32 .rdx = arg2 := (hreg .rdx (by decide) (by decide)).trans
      ((congrArg _ (hval 3 (by decide))).trans (cut_zeroExtend arg2))
    have h3 : c₂.reg32 .rdi = arg3 := (hreg .rdi (by decide) (by decide)).trans
      ((congrArg _ (hval 4 (by decide))).trans (cut_zeroExtend arg3))
    have h4 : c₂.reg32 .rsi = arg4 := (hreg .rsi (by decide) (by decide)).trans
      ((congrArg _ (hval 5 (by decide))).trans (cut_zeroExtend arg4))
    simp [argumentPushes, h0, h1, h2, h3, h4]
  have hnone : OnStack m₂ lo 40 [] := fun i hi => absurd hi (Nat.not_lt_zero i)
  refine Reaches.pushes hp argumentPushes hx₂ hrs hc₂.long hc₂.flatData hm₂ hrsp₂ (by decide)
    (by rw [List.length_nil]; omega) hnone
    fun m₃ c₃ hm₃ hst₃ hx₃ hregs₃ hrsp₃ hother₃ => ?_
  rw [hvals] at hst₃
  refine hrest m₃ c₃ _ hm₃ hst₃ hx₃ (hregs₁.trans (hregs₂.trans hregs₃)) hrsp₃ ?_ ?_
  · rw [hother₃ .rbx (by decide), hother .rbx (by decide) (by decide)]
    exact hval 0 (by decide)
  · rw [hother₃ .rbp (by decide), hother .rbp (by decide) (by decide)]
    exact hval 1 (by decide)

end run

theorem append_or (e : BitVec 64) :
    e.extractLsb' 32 32 ++ (e.setWidth 32 ||| 1#32 <<< 8) = e ||| 0x100 := by
  have h : (0x100 : BitVec 64) = (0 : BitVec 32) ++ (0x100 : BitVec 32) := by decide
  rw [h]
  apply BitVec.eq_of_getLsbD_eq
  intro i hi
  rw [BitVec.getLsbD_or, BitVec.getLsbD_append, BitVec.getLsbD_append]
  split
  next hlow =>
    rw [BitVec.getLsbD_or, BitVec.getLsbD_setWidth, decide_eq_true hlow, Bool.true_and]
    rfl
  next hhigh =>
    rw [BitVec.getLsbD_extractLsb', decide_eq_true (by omega), Bool.true_and, Nat.add_sub_cancel' (by omega)]
    simp

/-- EFER with LME is read into the registers from which it is written back. -/
theorem efer_block {c : Cpu} (hc : Prepared c) :
    ∃ c', runQuiet [.movImm .rcx 0xc0000080, .rdmsr, .bts .rax 8] c = some c' ∧
      c'.reg32 .rcx = IA32_MSR_EFER ∧ c'.reg32 .rdx ++ c'.reg32 .rax = c.efer ||| 0x100 ∧
      ∀ r, r ≠ .rax → r ≠ .rcx → r ≠ .rdx → c'.reg r = c.reg r := by
  let c₁ := (c.advance (encode (.movImm .rcx 0xc0000080)).length).setReg32 .rcx 0xc0000080
  let c₂ := ((c₁.advance (encode .rdmsr).length).setReg32 .rax (c.efer.setWidth 32)).setReg32 .rdx
    (c.efer.extractLsb' 32 32)
  have hactive : c.longActive = false := by
    unfold Cpu.longActive
    rw [hc.noPaging, Bool.and_false]
  have hread : (c₁.advance (encode .rdmsr).length).readMsr IA32_MSR_EFER = some c.efer := by
    have h : (c₁.advance (encode .rdmsr).length).longActive = false := hactive
    unfold Cpu.readMsr
    rw [if_pos rfl, h]
    rfl
  have hcx : (c₁.advance (encode .rdmsr).length).reg32 .rcx = IA32_MSR_EFER := by
    simp [c₁, Cpu.reg32, Cpu.setReg32, IA32_MSR_EFER]
  have h₂ : exec (fun _ => 0) (c₁.advance (encode .rdmsr).length) .rdmsr = some (c₂, []) := by
    have h : (c₁.advance (encode .rdmsr).length).cpl = 0 := hc.cpl
    rw [exec_of_cpl h, perform, hcx, hread]
    rfl
  let c₃ := (c₂.advance (encode (.bts .rax 8)).length).setReg32 .rax
    ((c₂.advance (encode (.bts .rax 8)).length).reg32 .rax ||| 1#32 <<< 8)
  have hax : c₃.reg32 .rax = c.efer.setWidth 32 ||| 1#32 <<< 8 := by
    simp [c₃, c₂, Cpu.reg32, Cpu.setReg32, setReg_reg]
  have hdx : c₃.reg32 .rdx = c.efer.extractLsb' 32 32 := by
    simp [c₃, c₂, Cpu.reg32, Cpu.setReg32, setReg_reg]
  refine ⟨c₃, ?_, ?_, ?_, fun r h₁ h₂ h₃ => ?_⟩
  · rw [runQuiet_cons (d := c₁) rfl, runQuiet_cons h₂]
    rfl
  · simp [c₃, c₂, c₁, Cpu.reg32, Cpu.setReg32, setReg_reg, IA32_MSR_EFER]
  · rw [hax, hdx]
    exact append_or c.efer
  · simp [c₃, c₂, c₁, Cpu.setReg32, setReg_reg, h₁, h₂, h₃]

/-- LME is set. -/
theorem exec_wrmsr {c : Cpu} (hc : Prepared c) (m : Memory 32) {e : BitVec 64}
    (he : e &&& ~~~0xd01#64 = 0) (hcx : c.reg32 .rcx = IA32_MSR_EFER)
    (hv : c.reg32 .rdx ++ c.reg32 .rax = e ||| 0x100) :
    exec m c .wrmsr = some ({ c with efer := (e ||| 0x100) &&& ~~~0x400#64 }, []) := by
  have hmask : (e ||| 0x100) &&& ~~~0xd01#64 = 0 := by
    rw [BitVec.and_or_distrib_right, he]
    decide
  have hwrite : c.writeMsr IA32_MSR_EFER (e ||| 0x100) =
      some { c with efer := (e ||| 0x100) &&& ~~~0x400#64 } := by
    unfold Cpu.writeMsr
    rw [if_pos rfl, if_pos ⟨hmask, fun hp => by rw [hc.noPaging] at hp; cases hp⟩]
  rw [exec_of_cpl hc.cpl, perform, hcx, hv, hwrite]
  rfl

/-- CR0 with PG is made. -/
theorem cr0_block {c : Cpu} (hc : c.cpl = 0) :
    ∃ c', runQuiet [.movFromCr0 .rax, .bts .rax 31] c = some c' ∧
      c'.reg32 .rax = c.cr0 ||| 0x80000000 ∧ ∀ r, r ≠ .rax → c'.reg r = c.reg r := by
  let c₁ := (c.advance (encode (.movFromCr0 .rax)).length).setReg32 .rax c.cr0
  let c₂ := (c₁.advance (encode (.bts .rax 31)).length).setReg32 .rax
    ((c₁.advance (encode (.bts .rax 31)).length).reg32 .rax ||| 1#32 <<< 31)
  have h₁ : exec (fun _ => 0) (c.advance (encode (.movFromCr0 .rax)).length) (.movFromCr0 .rax) =
      some (c₁, []) := by
    have h : (c.advance (encode (.movFromCr0 .rax)).length).cpl = 0 := hc
    rw [exec_of_cpl h]
    rfl
  refine ⟨c₂, ?_, ?_, fun r hr => ?_⟩
  · rw [runQuiet_cons h₁]
    rfl
  · simp [c₂, c₁, Cpu.reg32, Cpu.setReg32]
  · simp [c₂, c₁, Cpu.setReg32, setReg_reg, hr]

/-- Paging is turned on, and IA-32e mode with it. -/
theorem exec_movToCr0 {c : Cpu} (hcpl : c.cpl = 0) (hpe : c.cr0.getLsbD 0 = true)
    (hlme : c.longEnabled = true) (hpae : c.pae = true) (hcs : c.cs.long = false) (m : Memory 32)
    (hax : c.reg32 .rax = c.cr0 ||| 0x80000000) :
    exec m c (.movToCr0 .rax) = some ({ c with cr0 := c.cr0 ||| 0x80000000 }, []) := by
  have hmay : c.mayWriteCr0 (c.cr0 ||| 0x80000000) := by
    have h31 : (c.cr0 ||| 0x80000000).getLsbD 31 = true := by
      rw [BitVec.getLsbD_or, show (0x80000000 : BitVec 32).getLsbD 31 = true by decide, Bool.or_true]
    have h0 : (c.cr0 ||| 0x80000000).getLsbD 0 = true := by
      rw [BitVec.getLsbD_or, hpe, Bool.true_or]
    unfold Cpu.mayWriteCr0
    rw [if_pos h31]
    exact ⟨h0, hlme, hpae, .inr hcs⟩
  rw [exec_of_cpl hcpl, perform, hax, if_pos hmay]

/-- In IA-32e mode, but still in the 32-bit code segment. -/
structure Switched (c c' : Cpu) : Prop where
  longActive : c'.longActive = true
  cs : c'.cs = c.cs
  ss : c'.ss = c.ss
  gdtr : c'.gdtr = c.gdtr
  cr3 : c'.cr3 = c.cr3
  interruptFlag : c'.interruptFlag = c.interruptFlag
  regs : ∀ r, r ≠ .rax → r ≠ .rcx → r ≠ .rdx → c'.reg r = c.reg r

section switch
variable {K : Memory 32 → Prop} {lo : BitVec 32} {n k : ℕ} {G : BitVec 32 → Prop}
  {Q : Memory 32 → Cpu → Prop} {m : Memory 32} {c : Cpu} {p : BitVec 32} {l : List (BitVec 8)}

theorem mode_switched (hc : Prepared c) (hid : ∀ m, K m → Identity m c.cr3)
    (hx : Executes K c p (assemble [.movImm .rcx 0xc0000080, .rdmsr, .bts .rax 8] ++ (encode .wrmsr ++
      (assemble [.movFromCr0 .rax, .bts .rax 31] ++ (encode (.movToCr0 .rax) ++ l))))) (hm : K m)
    (hrest : ∀ m' c' p', K m' → Rely K lo n m m' → Executes K c' p' l → Switched c c' →
      Reaches (Rely K lo n) (Keeps K G) k Q m' c') :
    Reaches (Rely K lo n) (Keeps K G) (3 + (2 + (k + 1) + 1)) Q m c := by
  obtain ⟨c₁, hrun₁, hcx, hv, hother₁⟩ := efer_block hc
  refine Reaches.quiet hx (fun i hi => ?_) hrun₁ hm fun m₁ hm₁ hr₁ hx₁ hregs₁ => ?_
  · have hquiet : ∀ i ∈ [Instr.movImm .rcx 0xc0000080, .rdmsr, .bts .rax 8],
        i.Quiet ∧ i.Encodable false := by simp [Instr.Quiet, Instr.Encodable, Reg.ext]
    rw [hc.long]
    exact hquiet i hi
  have hc₁ := hc.of_regsOnly hregs₁
  -- LME
  let c₂ : Cpu := { c₁.advance (encode .wrmsr).length with efer := (c.efer ||| 0x100) &&& ~~~0x400#64 }
  have hlme : c₂.longEnabled = true := by
    change ((c.efer ||| 0x100) &&& ~~~0x400#64).getLsbD 8 = true
    rw [BitVec.getLsbD_and, BitVec.getLsbD_or, show (0x100 : BitVec 64).getLsbD 8 = true by decide,
      Bool.or_true]
    decide
  have hlong₂ : c₂.long = false := by
    have hp : c₂.paging = false := hc₁.noPaging
    unfold Cpu.long Cpu.longActive
    rw [hp, Bool.and_false, Bool.false_and]
  refine Reaches.silent (d := c₂) hx₁ hc₁.long hm₁ (fun m' _ =>
    exec_wrmsr (hc₁.of_regsOnly (RegsOnly.advance c₁ _)) m' hc.efer hcx hv) fun m₂ hm₂ hr₂ => ?_
  have hx₂ := hx₁.next_of (d := c₂) rfl (.inr ⟨hc₁.cs.1, hc₁.cs.2.1, hc₁.cs.2.2.1⟩)
    fun m _ hp => by
      rw [show c₂.paging = false from hc₁.noPaging] at hp
      cases hp
  -- PG
  obtain ⟨c₃, hrun₃, hax, hother₃⟩ := cr0_block (c := c₂) hc₁.cpl
  refine Reaches.quiet hx₂ (fun i hi => ?_) hrun₃ hm₂ fun m₃ hm₃ hr₃ hx₃ hregs₃ => ?_
  · have hquiet : ∀ i ∈ [Instr.movFromCr0 .rax, .bts .rax 31], i.Quiet ∧ i.Encodable false := by
      simp [Instr.Quiet, Instr.Encodable, Reg.ext]
    rw [hlong₂]
    exact hquiet i hi
  let c₄ : Cpu := { c₃.advance (encode (.movToCr0 .rax)).length with cr0 := c₃.cr0 ||| 0x80000000 }
  have hpaging : c₄.paging = true := by
    change (c₃.cr0 ||| 0x80000000).getLsbD 31 = true
    rw [BitVec.getLsbD_or, show (0x80000000 : BitVec 32).getLsbD 31 = true by decide, Bool.or_true]
  have hlme₄ : c₄.longEnabled = true := hregs₃.longEnabled.trans hlme
  have hcs₄ : c₄.cs = c.cs := hregs₃.cs.trans hregs₁.cs
  have hcr3₄ : c₄.cr3 = c.cr3 := hregs₃.cr3.trans hregs₁.cr3
  refine Reaches.silent (d := c₄) hx₃ ⟨hregs₃.long.trans hlong₂, rfl⟩ hm₃ (fun m' _ => ?_) fun m₄ hm₄ hr₄ => ?_
  · refine exec_movToCr0 (c := c₃.advance _) (hregs₃.cpl.trans hc₁.cpl) ?_ hlme₄
      (hregs₃.pae.trans hc₁.pae) ?_ m' ?_
    · change c₃.cr0.getLsbD 0 = true
      rw [hregs₃.cr0]
      exact hc₁.protectedMode
    · change c₃.cs.long = false
      rw [hregs₃.cs]
      exact hc₁.cs.2.2.2
    · exact hax.trans (congrArg (· ||| 0x80000000) hregs₃.cr0.symm)
  have hx₄ := hx₃.next_of (d := c₄) rfl (.inr (by rw [hcs₄]; exact ⟨hc.cs.1, hc.cs.2.1, hc.cs.2.2.1⟩))
    fun m hm _ => ⟨hlme₄, by rw [hcr3₄]; exact hid m hm⟩
  refine hrest m₄ c₄ _ hm₄ (hr₁.trans (hr₂.trans (hr₃.trans hr₄))) hx₄ {
    longActive := by
      unfold Cpu.longActive
      rw [hlme₄, hpaging]
      rfl
    cs := hcs₄
    ss := hregs₃.ss.trans hregs₁.ss
    gdtr := hregs₃.gdtr.trans hregs₁.gdtr
    cr3 := hcr3₄
    interruptFlag := hregs₃.interruptFlag.trans hregs₁.interruptFlag
    regs := fun r h₁ h₂ h₃ => (hother₃ r h₁).trans (hother₁ r h₁ h₂ h₃) }

end switch

/-- A selector of the global table, for the highest privilege. -/
structure Selects (t : Ia32.TableReg) (sel : BitVec 16) : Prop where
  notNull : Ia32.Selector.null sel = false
  rpl : Ia32.Selector.rpl sel = 0
  global : Ia32.Selector.local? sel = false
  inside : 8 * Ia32.Selector.index sel + 7 ≤ t.limit.toNat
  room : t.base.toNat + 8 * Ia32.Selector.index sel + 8 ≤ 2 ^ 32

/-- The byte of a descriptor that is marked when the descriptor is loaded. -/
def markOf (t : Ia32.TableReg) (sel : BitVec 16) : BitVec 32 :=
  t.base + BitVec.ofNat 32 (8 * Ia32.Selector.index sel + 5)

def mark (m : Memory 32) (a : BitVec 32) : Memory 32 := Store.apply m ⟨a, 1, (m a ||| 1).toNat⟩

/-- The far return to 64-bit code. -/
theorem returnFar_long {m : Memory 32} {c : Cpu} {sel : BitVec 16} (hsees : c.Sees m)
    (hactive : c.longActive = true) (hcpl : c.cpl = 0) (hsel : Selects c.gdtr sel)
    (hd : LongCode (m.field 64 c.gdtr.base (8 * Ia32.Selector.index sel))) (off : BitVec 32) :
    ∃ w, c.returnFar m sel off = some ({ c with
        cs := CodeSegment.ofDescriptor sel (m.field 64 c.gdtr.base (8 * Ia32.Selector.index sel))
        rip := off.setWidth 64 }, w) ∧
      (applyAll m w = m ∨ applyAll m w = mark m (markOf c.gdtr sel)) := by
  obtain ⟨d, hdeq⟩ : ∃ d, m.field 64 c.gdtr.base (8 * Ia32.Selector.index sel) = d := ⟨_, rfl⟩
  obtain ⟨i, hi⟩ : ∃ i, Ia32.Selector.index sel = i := ⟨_, rfl⟩
  have hroom := hsel.room
  have hinside := hsel.inside
  rw [hi] at hroom hinside hdeq hd
  rw [hdeq] at hd
  have hbase : (c.gdtr.base + BitVec.ofNat 32 (8 * i)).toNat = c.gdtr.base.toNat + 8 * i := by
    rw [BitVec.toNat_add, BitVec.toNat_ofNat]
    omega
  have hdesc : c.descriptorAt m sel =
      some ((c.gdtr.base + BitVec.ofNat 32 (8 * i)).setWidth 64, d) := by
    unfold Cpu.descriptorAt
    rw [hi, if_pos ⟨hsel.global, hinside⟩]
    dsimp only
    rw [access_of_sees hsees _ (by omega), Option.map_some, field_at, hdeq]
  have hmay : mayReturn c.longActive sel d = true := by
    unfold mayReturn
    rw [hsel.rpl, hd.present, hd.codeOrData, hd.executable, hd.dpl, hd.big]
    simp
  have hjump : ({ c with cs := CodeSegment.ofDescriptor sel d } : Cpu).jump (off.setWidth 64) =
      some { c with cs := CodeSegment.ofDescriptor sel d, rip := off.setWidth 64 } := by
    have hlong : ({ c with cs := CodeSegment.ofDescriptor sel d } : Cpu).long = true := by
      change (c.longActive && longBit d) = true
      rw [hactive, hd.long]
      rfl
    unfold Cpu.jump
    rw [if_pos hlong, if_pos (canonical_of_lt (by rw [toNat_zeroExtend]; exact off.isLt))]
  have hmark : ∃ w, c.markAccessed m ((c.gdtr.base + BitVec.ofNat 32 (8 * i)).setWidth 64) d = some w ∧
      (applyAll m w = m ∨ applyAll m w = mark m (markOf c.gdtr sel)) := by
    unfold Cpu.markAccessed
    by_cases ha : Ia32.Descriptor.accessed d = true
    · exact ⟨[], if_pos ha, .inl rfl⟩
    · have hadd : (c.gdtr.base + BitVec.ofNat 32 (8 * i)).setWidth 64 + 5 =
          (markOf c.gdtr sel).setWidth 64 := by
        unfold markOf
        rw [hi, ← add_ofNat_ofNat]
        exact zeroExtend_add _ (k := 5) (by omega)
      have hfit : (markOf c.gdtr sel).toNat + 1 ≤ 2 ^ 32 := (markOf c.gdtr sel).isLt
      rw [if_neg ha, hadd, access_of_sees hsees _ hfit]
      exact ⟨_, rfl, .inr rfl⟩
  obtain ⟨w, hw, hmem⟩ := hmark
  refine ⟨w, ?_, hmem⟩
  unfold Cpu.returnFar
  rw [if_neg (by rw [hsel.notNull, hsel.rpl, hcpl]; simp), hdesc]
  dsimp only
  rw [if_pos hmay, hw]
  dsimp only
  rw [hjump, hi, hdeq]
  rfl

/-- A processor that has been called in 64-bit mode, with the arguments in registers. -/
structure Entered (lo address arg1 arg2 arg3 arg4 returnAddress : BitVec 32) (m : Memory 32)
    (c : Cpu) : Prop where
  long : c.long = true
  rip : c.rip = address.setWidth 64
  rcx : c.reg .rcx = arg1.setWidth 64
  rdx : c.reg .rdx = arg2.setWidth 64
  r8 : c.reg .r8 = arg3.setWidth 64
  r9 : c.reg .r9 = arg4.setWidth 64
  rsp : c.reg .rsp = (lo + BitVec.ofNat 32 8).setWidth 64
  returnAddress : m.field 64 lo 8 = returnAddress.setWidth 64

section enter
variable {K : Memory 32 → Prop} {lo : BitVec 32} {n k d : ℕ} {G : BitVec 32 → Prop}
  {Q : Memory 32 → Cpu → Prop} {m : Memory 32} {c : Cpu} {p : BitVec 32} {l : List (BitVec 8)}
  {address segment arg1 arg2 arg3 arg4 : BitVec 32} {vs : List (BitVec 32)}

theorem cut_signExtend (v : BitVec 32) : (v.signExtend 64).setWidth 32 = v := by
  apply BitVec.eq_of_getLsbD_eq
  intro i hi
  rw [BitVec.getLsbD_setWidth, BitVec.getLsbD_signExtend]
  simp [hi]
  omega

/-- Interrupts are masked, and the target of the far return is pushed. -/
theorem target_pushed (hp : Private K lo n G) (hc : Prepared c) {off : BitVec 32}
    (hx : Executes K c p (encode .cli ++ (encode (.push .rbp) ++ (encode (.pushImm off) ++ l))))
    (hm : K m) (hrsp : c.reg .rsp = (lo + BitVec.ofNat 32 8).setWidth 64)
    (hrbp : c.reg .rbp = segment.setWidth 64) (hst : OnStack m lo 8 vs) (hvs : 8 + 4 * vs.length ≤ n)
    (hrest : ∀ m' c' p', K m' → OnStack m' lo 0 (off :: segment :: vs) → Executes K c' p' l →
      RegsOnly { c with interruptFlag := false } c' → c'.reg .rsp = (lo + BitVec.ofNat 32 0).setWidth 64 →
      (∀ r, r ≠ .rsp → c'.reg r = c.reg r) → Reaches (Rely K lo n) (Keeps K G) k Q m' c') :
    Reaches (Rely K lo n) (Keeps K G) (k + 1 + 1 + 1) Q m c := by
  have hfits := hp.fits
  let c₁ : Cpu := { c.advance (encode .cli).length with interruptFlag := false }
  have hc₁ : Prepared c₁ := (hc.of_regsOnly (RegsOnly.advance c _)).masked
  have hx₁ := hx.next_of (d := c₁) rfl (.inr ⟨hc.cs.1, hc.cs.2.1, hc.cs.2.2.1⟩) hx.sees
  refine Reaches.silent (d := c₁) hx hc.long hm (fun m' _ => ?_) fun m₁ hm₁ hr₁ => ?_
  · have hcpl : (c.advance (encode .cli).length).cpl = 0 := hc.cpl
    rw [exec_of_cpl hcpl]
    rfl
  refine Reaches.pushing (v := c.reg .rbp) hp hx₁ (.inr rfl) hc₁.long hc₁.flatData (fun _ => rfl) hm₁ hrsp
    (by decide) hvs (hst.rely hr₁ (by omega) hvs) fun m₂ c₂ hm₂ hst₂ hx₂ hregs₂ hrsp₂ hother₂ => ?_
  have hc₂ := hc₁.of_regsOnly hregs₂
  rw [hrbp, cut_zeroExtend] at hst₂
  refine Reaches.pushing (v := off.signExtend 64) hp hx₂ hc₂.long hc₂.long hc₂.flatData (fun _ => rfl) hm₂
    hrsp₂ (by decide) (by rw [List.length_cons]; omega) hst₂
    fun m₃ c₃ hm₃ hst₃ hx₃ hregs₃ hrsp₃ hother₃ => ?_
  rw [cut_signExtend] at hst₃
  refine hrest m₃ c₃ _ hm₃ hst₃ hx₃ ?_ hrsp₃ fun r hr => ?_
  · exact (RegsOnly.advance { c with interruptFlag := false } _).trans (hregs₂.trans hregs₃)
  · rw [hother₃ r hr, hother₂ r hr]
    rfl

/-- Two words, the upper one zero, are one word of 64 bits. -/
theorem field_of_words {o : ℕ} {v : BitVec 32} (hlow : m.field 32 lo o = v)
    (hhigh : m.field 32 lo (o + 4) = 0) : m.field 64 lo o = v.setWidth 64 := by
  have hv := v.isLt
  apply BitVec.eq_of_toNat_eq
  rw [Memory.field_halves, toNat_append_add, hlow, hhigh, toNat_zeroExtend]
  simp

/-- Room for the callee is made. -/
theorem shadow_block (c : Cpu) : ∃ c', runQuiet [.aluImm .sub true .rsp 0x18] c = some c' ∧
    c'.reg .rsp = c.reg .rsp - 0x18 ∧ ∀ r, r ≠ .rsp → c'.reg r = c.reg r := by
  refine ⟨_, rfl, ?_, fun r hr => ?_⟩
  · simp [Alu.eval]
  · simp [setReg_reg, hr]

theorem start64Text_blocks : start64Text = assemble ([Reg.rcx, .rdx, .r8, .r9].map .pop) ++
    (assemble [.aluImm .sub true .rsp 0x18] ++ (encode (.callReg .rbx) ++ [])) := by decide

/-- In 64-bit mode the arguments are popped, and the function is called. -/
theorem function_called (hp : Private K lo (68 + d) G) (hlong : c.long = true)
    (hx : Executes K c p start64Text) (hm : K m)
    (hrsp : c.reg .rsp = (lo + BitVec.ofNat 32 8).setWidth 64)
    (hrbx : c.reg .rbx = address.setWidth 64)
    (hst : OnStack m lo 8 [arg1, 0, arg2, 0, arg3, 0, arg4, 0]) :
    Reaches (Rely K lo (68 + d)) (Keeps K G) (4 + (1 + 1)) (fun m' c' => K m' ∧ RegsOnly c c' ∧
      Entered lo address arg1 arg2 arg3 arg4 (p + BitVec.ofNat 32 start64Text.length) m' c') m c := by
  have hfits := hp.fits
  have hroom := hx.room
  rw [start64Text_blocks] at hx
  refine Reaches.pops hp [.rcx, .rdx, .r8, .r9] hx (by decide) (by decide) hlong hm hrsp (by simp; omega)
    fun m₁ c₁ hm₁ hr₁ hx₁ hregs₁ hrsp₁ hval₁ hother₁ => ?_
  have hlong₁ := hregs₁.long.trans hlong
  have h0 : m.field 64 lo 8 = arg1.setWidth 64 :=
    field_of_words (hst 0 (by decide : 0 < 8)) (hst 1 (by decide : 1 < 8))
  have h1 : m.field 64 lo 16 = arg2.setWidth 64 :=
    field_of_words (hst 2 (by decide : 2 < 8)) (hst 3 (by decide : 3 < 8))
  have h2 : m.field 64 lo 24 = arg3.setWidth 64 :=
    field_of_words (hst 4 (by decide : 4 < 8)) (hst 5 (by decide : 5 < 8))
  have h3 : m.field 64 lo 32 = arg4.setWidth 64 :=
    field_of_words (hst 6 (by decide : 6 < 8)) (hst 7 (by decide : 7 < 8))
  obtain ⟨c₂, hrun, hsub, hother₂⟩ := shadow_block c₁
  have hrsp₂ : c₂.reg .rsp = (lo + BitVec.ofNat 32 16).setWidth 64 := by
    apply BitVec.eq_of_toNat_eq
    rw [hsub, hrsp₁, BitVec.toNat_sub, toNat_zeroExtend, toNat_zeroExtend, BitVec.toNat_add, BitVec.toNat_add,
      BitVec.toNat_ofNat, BitVec.toNat_ofNat]
    simp
    omega
  refine Reaches.quiet hx₁ (fun i hi => ?_) hrun hm₁ fun m₂ hm₂ hr₂ hx₂ hregs₂ => ?_
  · rw [List.mem_singleton.mp hi]
    exact ⟨trivial, .inl hlong₁⟩
  have hlong₂ := hregs₂.long.trans hlong₁
  intro m₃ hr₃
  have hm₃ := hr₃.2 hm₂
  let e := c₂.advance (encode (.callReg .rbx)).length
  let c₃ : Cpu := { e.setReg .rsp ((lo + BitVec.ofNat 32 8).setWidth 64) with rip := address.setWidth 64 }
  have hrip : e.rip = (p + BitVec.ofNat 32 start64Text.length).setWidth 64 := by
    rw [hx₂.advance_rip, add_ofNat_ofNat, add_ofNat_ofNat]
    rfl
  have hrbx₂ : e.reg .rbx = address.setWidth 64 :=
    (hother₂ .rbx (by decide)).trans ((hother₁ .rbx (by decide) (by decide)).trans hrbx)
  have hexec : exec m₃ e (.callReg .rbx) = some (c₃, [⟨lo + BitVec.ofNat 32 8, 8, e.rip.toNat⟩]) :=
    exec_callReg_of_long (c := e) (hx₂.sees m₃ hm₃) hlong₂ hrsp₂ (by decide) (by omega) hrbx₂
  have hkeeps := hp.apply m₃ (o := 8) (b := 8) (by omega) e.rip.toNat
  refine ⟨_, c₃, act_of_step ((hx₂.step (.inl hlong₂) hm₃).trans hexec), hkeeps, hkeeps.2 hm₃, ?_, ?_⟩
  · exact hregs₁.trans (hregs₂.trans rfl)
  · have hreg : ∀ r, r ≠ .rsp → c₃.reg r = c₁.reg r := fun r hr =>
      (if_neg hr).trans (hother₂ r hr)
    exact {
      long := hlong₂
      rip := rfl
      rcx := (hreg .rcx (by decide)).trans ((hval₁ 0 (by decide)).trans h0)
      rdx := (hreg .rdx (by decide)).trans ((hval₁ 1 (by decide)).trans h1)
      r8 := (hreg .r8 (by decide)).trans ((hval₁ 2 (by decide)).trans h2)
      r9 := (hreg .r9 (by decide)).trans ((hval₁ 3 (by decide)).trans h3)
      rsp := setReg_reg_self e .rsp _
      returnAddress := by
        rw [← hrip]
        exact Memory.field_setField m₃ lo 8 e.rip rfl (by decide) }

/-- The processor is in 64-bit mode, at an offset that was on the stack. -/
structure Returned (lo off : BitVec 32) (sel : BitVec 16) (c c' : Cpu) : Prop where
  long : c'.long = true
  rip : c'.rip = off.setWidth 64
  rsp : c'.reg .rsp = (lo + BitVec.ofNat 32 8).setWidth 64
  regs : ∀ r, r ≠ .rsp → c'.reg r = c.reg r
  selector : c'.cs.selector = sel
  gdtr : c'.gdtr = c.gdtr
  cr3 : c'.cr3 = c.cr3
  interruptFlag : c'.interruptFlag = c.interruptFlag
  sees : ∀ m, c.Sees m → c'.Sees m

theorem far_returned (hx : Executes K c p (encode .lret ++ l)) (hm : K m) (hlong : c.long = false)
    (hactive : c.longActive = true) (hcpl : c.cpl = 0) (hss : c.FlatData c.ss)
    (hrsp : c.reg .rsp = (lo + BitVec.ofNat 32 0).setWidth 64) (hfits : lo.toNat + 8 ≤ 2 ^ 32)
    {off : BitVec 32} {sel : BitVec 16} (hst : OnStack m lo 0 (off :: sel.setWidth 32 :: vs))
    (hsel : Selects c.gdtr sel)
    (hdesc : LongCode (m.field 64 c.gdtr.base (8 * Ia32.Selector.index sel))) :
    ∃ c' w, step m c = some (c', w) ∧
      (applyAll m w = m ∨ applyAll m w = mark m (markOf c.gdtr sel)) ∧ Returned lo off sel c c' := by
  let e := c.advance (encode .lret).length
  let f := (e.setReg .rsp ((lo + BitVec.ofNat 32 4).setWidth 64)).setReg .rsp
    ((lo + BitVec.ofNat 32 8).setWidth 64)
  have hsees : f.Sees m := hx.sees m hm
  obtain ⟨w, hret, hw⟩ := returnFar_long (c := f) hsees hactive hcpl hsel hdesc off
  have hoff : m.field 32 lo 0 = off := hst 0 (Nat.succ_pos _)
  have hseg : m.field 32 lo (0 + 4) = sel.setWidth 32 := hst 1 (Nat.succ_lt_succ (Nat.succ_pos _))
  have hexec := exec_lret_of_flat (c := e) hsees hss hlong hrsp (by omega) hoff hseg
  rw [BitVec.setWidth_setWidth_of_le sel (by decide), BitVec.setWidth_eq] at hexec
  refine ⟨_, w, (hx.step hlong hm).trans (hexec.trans hret), hw, ?_⟩
  exact {
    long := by
      unfold Cpu.long
      rw [Bool.and_eq_true]
      exact ⟨hactive, hdesc.long⟩
    rip := rfl
    rsp := setReg_reg_self (e.setReg .rsp ((lo + BitVec.ofNat 32 4).setWidth 64)) .rsp _
    regs := fun r hr => (if_neg hr).trans (if_neg hr)
    selector := rfl
    gdtr := rfl
    cr3 := rfl
    interruptFlag := rfl
    sees := fun m h => h }

theorem mark_of_ne (m : Memory 32) {a x : BitVec 32} (h : x ≠ a) : mark m a x = m x := by
  refine Memory.store_of_not_inSpan _ _ fun hin => h ?_
  have hzero : (x - a).toNat = 0 := Nat.lt_one_iff.mp hin
  have hsub : x - a = 0 := BitVec.eq_of_toNat_eq hzero
  rw [← BitVec.sub_add_cancel x a, hsub]
  exact BitVec.zero_add a

theorem length_start64bitModeText (p : BitVec 32) : (start64bitModeText p).length = 80 := by
  unfold start64bitModeText
  rw [List.length_append, length_start64bitMode]
  decide

/-- `start_64bit_mode`, among other processors that keep `K` and leave the stack of this one alone. -/
theorem start64bitMode_enters (hp : Private K lo (68 + d) G) (hd : d < 8) (halign : lo.toNat % 8 = 0)
    (hc : Prepared c) (hid : ∀ m, K m → Identity m c.cr3) {sel : BitVec 16} (hsel : Selects c.gdtr sel)
    (hdesc : ∀ m, K m → LongCode (m.field 64 c.gdtr.base (8 * Ia32.Selector.index sel)))
    (hmark : ∀ m, K m → K (mark m (markOf c.gdtr sel))) (hallowed : G (markOf c.gdtr sel))
    (hout : ¬ InSpan lo (68 + d) (markOf c.gdtr sel))
    (hcode : ∀ m, K m → m.HasBytes p (start64bitModeText p)) (hroom : p.toNat + 80 < 2 ^ 32)
    (hrip : c.rip = p.setWidth 64) (hm : K m)
    (hrsp : c.reg .rsp = (lo + BitVec.ofNat 32 (40 + d)).setWidth 64)
    (hargs : OnStack m lo (44 + d) [address, sel.setWidth 32, arg1, arg2, arg3, arg4]) :
    Reaches (Rely K lo (68 + d)) (Keeps K G) 33 (fun m' c' => K m' ∧
      Entered lo address arg1 arg2 arg3 arg4 (p + BitVec.ofNat 32 80) m' c' ∧ c'.cs.selector = sel ∧
      c'.interruptFlag = false ∧ c'.cr3 = c.cr3 ∧ c'.gdtr = c.gdtr) m c := by
  have hfits := hp.fits
  have hx : Executes K c p (start64bitModeText p) := {
    flat := .inr ⟨hc.cs.1, hc.cs.2.1, hc.cs.2.2.1⟩
    rip := hrip
    room := by rwa [length_start64bitModeText]
    code := hcode
    sees := fun m _ hpaging => by rw [hc.noPaging] at hpaging; cases hpaging }
  rw [start64bitModeText_eq] at hx
  have hsteps : 33 = 6 + (2 + (8 + ((3 + (2 + ((4 + (1 + 1) + 1) + 1) + 1)) + 1 + 1 + 1))) := rfl
  rw [hsteps]
  refine arguments_pushed hp hd halign hc hx hm hrsp hargs
    fun m₁ c₁ p₁ hm₁ hst₁ hx₁ hregs₁ hrsp₁ hrbx₁ hrbp₁ => ?_
  have hc₁ := hc.of_regsOnly hregs₁
  refine target_pushed (k := 3 + (2 + (4 + (1 + 1) + 1 + 1) + 1)) hp hc₁ hx₁ hm₁ hrsp₁ hrbp₁ hst₁ (by simp; omega)
    fun m₂ c₂ p₂ hm₂ hst₂ hx₂ hregs₂ hrsp₂ hother₂ => ?_
  have hc₂ := hc₁.masked.of_regsOnly hregs₂
  have hcr3₂ : c₂.cr3 = c.cr3 := hregs₂.cr3.trans hregs₁.cr3
  refine mode_switched (k := 4 + (1 + 1) + 1) hc₂ (fun m hm => by rw [hcr3₂]; exact hid m hm) hx₂ hm₂
    fun m₃ c₃ p₃ hm₃ hr₃ hx₃ hsw => ?_
  have hlong₃ : c₃.long = false := by
    unfold Cpu.long
    rw [hsw.cs, hc₂.cs.2.2.2, Bool.and_false]
  -- the far return, in whatever memory it finds
  intro m₄ hr₄
  have hm₄ := hr₄.2 hm₃
  have hst₄ := (hst₂.rely hr₃ (by omega) (by simp; omega)).rely hr₄ (by omega) (by simp; omega)
  have hsp₃ : c₃.reg .rsp = (lo + BitVec.ofNat 32 0).setWidth 64 :=
    (hsw.regs .rsp (by decide) (by decide) (by decide)).trans hrsp₂
  have hgdtr₃ : c₃.gdtr = c.gdtr := hsw.gdtr.trans (hregs₂.gdtr.trans hregs₁.gdtr)
  have hcpl₃ : c₃.cpl = 0 := by
    have hcs : c₃.cpl = c₂.cpl := congrArg (fun s : CodeSegment => Ia32.Selector.rpl s.selector) hsw.cs
    exact hcs.trans hc₂.cpl
  obtain ⟨c₄, w, hstep, hw, hret⟩ := far_returned hx₃ hm₄ hlong₃ hsw.longActive hcpl₃
    (.inr (by rw [hsw.ss]; exact hc₂.ss)) hsp₃ (by omega) hst₄ (by rwa [hgdtr₃])
    (by rw [hgdtr₃]; exact hdesc m₄ hm₄)
  rw [hgdtr₃] at hw
  have hwrite : (∀ x, x ≠ markOf c.gdtr sel → applyAll m₄ w x = m₄ x) ∧ K (applyAll m₄ w) := by
    rcases hw with hw | hw
    · rw [hw]
      exact ⟨fun _ _ => rfl, hm₄⟩
    · rw [hw]
      exact ⟨fun x hx => mark_of_ne m₄ hx, hmark m₄ hm₄⟩
  have hrely : Rely K lo (68 + d) m₄ (applyAll m₄ w) :=
    ⟨fun x hx => hwrite.1 x fun he => hout (he ▸ hx), fun _ => hwrite.2⟩
  refine ⟨applyAll m₄ w, c₄, act_of_step hstep, ⟨fun x hx => hwrite.1 x fun he => hx (he ▸ hallowed), fun _ => hwrite.2⟩, ?_⟩
  -- 64-bit mode
  have hx₄ : Executes K c₄ (p + BitVec.ofNat 32 start64Offset) start64Text := {
    flat := .inl hret.long
    rip := hret.rip
    room := by
      have hlen : start64Offset = 68 ∧ start64Text.length = 12 := by decide
      rw [hlen.1, hlen.2, BitVec.toNat_add, BitVec.toNat_ofNat]
      omega
    code := fun m hm => by
      have h := (hcode m hm).right
      rwa [length_start64bitMode] at h
    sees := fun m hm => hret.sees m (hx₃.sees m hm) }
  have hst₅ := (hst₄.rely hrely (by omega) (by simp; omega)).tail.tail
  have hrbx₄ : c₄.reg .rbx = address.setWidth 64 := by
    rw [hret.regs .rbx (by decide), hsw.regs .rbx (by decide) (by decide) (by decide),
      hother₂ .rbx (by decide)]
    exact hrbx₁
  refine Parallel.Leads.mono (function_called hp hret.long hx₄ hwrite.2 hret.rsp hrbx₄ hst₅)
    fun m' c' h => ?_
  obtain ⟨hm', hregs, hent⟩ := h
  refine ⟨hm', ?_, ?_, ?_, ?_, ?_⟩
  · have hend : p + BitVec.ofNat 32 start64Offset + BitVec.ofNat 32 start64Text.length =
        p + BitVec.ofNat 32 80 := add_ofNat_ofNat _ _ _
    rwa [hend] at hent
  · rw [hregs.cs, hret.selector]
  · rw [hregs.interruptFlag, hret.interruptFlag, hsw.interruptFlag, hregs₂.interruptFlag]
  · rw [hregs.cr3, hret.cr3, hsw.cr3, hcr3₂]
  · rw [hregs.gdtr, hret.gdtr, hgdtr₃]

end enter

end IkgtLoader.StartAp
