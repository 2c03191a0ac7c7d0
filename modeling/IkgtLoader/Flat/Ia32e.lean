import IkgtLoader.Flat.Ia32
import IkgtLoader.Flat.PageWalk

/-! A part of the processor from protected mode on: 32-bit code with and without paging, and 64-bit
mode. An instruction gives the new state and what it stores, or nothing when it faults or leaves
this part. -/
namespace Ia32e
open Flat

inductive Reg
  | rax
  | rcx
  | rdx
  | rbx
  | rsp
  | rbp
  | rsi
  | rdi
  | r8
  | r9
  | r10
  | r11
  | r12
  | r13
  | r14
  | r15
  deriving DecidableEq

/-- The code segment register with its hidden part; `long` is the L bit of its descriptor. -/
structure CodeSegment where
  selector : BitVec 16
  base : BitVec 32
  limit : BitVec 32
  big : Bool
  long : Bool
  deriving DecidableEq

/-- `efer` is kept without LMA, which follows from it and from `cr0`. An operation on 32 bits leaves
zeros in the upper half of a register. -/
structure Cpu where
  reg : Reg → BitVec 64
  rip : BitVec 64
  zeroFlag : Bool
  interruptFlag : Bool
  cs : CodeSegment
  ss : Ia32.Segment
  ds : Ia32.Segment
  gdtr : Ia32.TableReg
  idtr : Ia32.TableReg
  cr0 : BitVec 32
  cr3 : BitVec 32
  cr4 : BitVec 32
  efer : BitVec 64
  apicBase : BitVec 64

/-- A word that an instruction stores. -/
structure Store where
  address : BitVec 32
  bytes : ℕ
  value : ℕ

def Store.apply (m : Memory 32) (s : Store) : Memory 32 := m.store s.address s.bytes s.value

def IA32_MSR_APIC_BASE : BitVec 32 := 0x1b

def IA32_MSR_EFER : BitVec 32 := 0xc0000080

namespace Cpu

def paging (c : Cpu) : Bool := c.cr0.getLsbD 31

def pae (c : Cpu) : Bool := c.cr4.getLsbD 5

/-- EFER.LME. -/
def longEnabled (c : Cpu) : Bool := c.efer.getLsbD 8

/-- EFER.LMA. -/
def longActive (c : Cpu) : Bool := c.longEnabled && c.paging

/-- 64-bit mode. -/
def long (c : Cpu) : Bool := c.longActive && c.cs.long

def cpl (c : Cpu) : BitVec 2 := Ia32.Selector.rpl c.cs.selector

def setReg (c : Cpu) (r : Reg) (v : BitVec 64) : Cpu :=
  { c with reg := fun q => if q = r then v else c.reg q }

def reg32 (c : Cpu) (r : Reg) : BitVec 32 := (c.reg r).setWidth 32

def setReg32 (c : Cpu) (r : Reg) (v : BitVec 32) : Cpu := c.setReg r (v.setWidth 64)

end Cpu

/-- Bits 63 to 47 are equal. -/
def Canonical (a : BitVec 64) : Prop := (a.setWidth 48).signExtend 64 = a

instance (a : BitVec 64) : Decidable (Canonical a) := inferInstanceAs (Decidable (_ = _))

/-- The physical address of a linear one. A write needs a page that allows it, at every privilege,
and paging without IA-32e mode is left out. -/
def Cpu.physical (m : Memory 32) (c : Cpu) (write : Bool) (a : BitVec 64) : Option (BitVec 32) :=
  if c.paging then
    if c.longEnabled ∧ Canonical a then
      match PageTable.walk m c.cr3 (a.setWidth 48) with
      | .page p =>
        if p.address.toNat < 2 ^ 32 ∧ (write = true → p.writable = true) then
          some (p.address.setWidth 32)
        else none
      | _ => none
    else none
  else if a.toNat < 2 ^ 32 then some (a.setWidth 32)
  else none

/-- The bytes of an access have to be neighbours in the memory too. -/
def Cpu.access (m : Memory 32) (c : Cpu) (write : Bool) (a : BitVec 64) (n : ℕ) :
    Option (BitVec 32) :=
  match c.physical m write a with
  | none => none
  | some p =>
    if ∀ k < n, c.physical m write (a + BitVec.ofNat 64 k) = some (p + BitVec.ofNat 32 k) then some p
    else none

/-- The linear address of an offset; 64-bit mode has no segments. -/
def Cpu.linear (c : Cpu) (s : Ia32.Segment) (off : BitVec 64) (n : ℕ) : Option (BitVec 64) :=
  if c.long then some off
  else if s.usable ∧ (off.setWidth 32).toNat + n ≤ s.limit.toNat + 1 then
    some ((s.base + off.setWidth 32).setWidth 64)
  else none

def Cpu.read (bits : ℕ) (m : Memory 32) (c : Cpu) (s : Ia32.Segment) (off : BitVec 64) :
    Option (BitVec bits) :=
  match c.linear s off (bits / 8) with
  | none => none
  | some a => (c.access m false a (bits / 8)).map fun p => m.field bits p 0

def Cpu.write {bits : ℕ} (m : Memory 32) (c : Cpu) (s : Ia32.Segment) (off : BitVec 64)
    (v : BitVec bits) : Option Store :=
  match c.linear s off (bits / 8) with
  | none => none
  | some a =>
    (c.access m true a (bits / 8)).map fun p => ⟨p, bits / 8, v.toNat⟩

/-- An offset behind the stack pointer; outside 64-bit mode it has 32 bits. -/
def Cpu.stackOffset (c : Cpu) (d : BitVec 64) : BitVec 64 :=
  if c.long then c.reg .rsp + d else ((c.reg .rsp + d).setWidth 32).setWidth 64

/-- The operand of `push`, `pop` and `call`. -/
def Cpu.stackBits (c : Cpu) : ℕ := if c.long then 64 else 32

def Cpu.push (m : Memory 32) (c : Cpu) (v : BitVec 64) : Option (Cpu × List Store) :=
  let sp := c.stackOffset (-BitVec.ofNat 64 (c.stackBits / 8))
  (c.write m c.ss sp (v.setWidth c.stackBits)).map fun s => (c.setReg .rsp sp, [s])

def Cpu.pop (m : Memory 32) (c : Cpu) : Option (BitVec 64 × Cpu) :=
  (c.read c.stackBits m c.ss (c.stackOffset 0)).map fun v =>
    (v.setWidth 64, c.setReg .rsp (c.stackOffset (BitVec.ofNat 64 (c.stackBits / 8))))

/-- Control moves within the code segment. -/
def Cpu.jump (c : Cpu) (off : BitVec 64) : Option Cpu :=
  if c.long then if Canonical off then some { c with rip := off } else none
  else if off.setWidth 32 ≤ c.cs.limit then some { c with rip := (off.setWidth 32).setWidth 64 }
  else none

/-- A memory operand: an address, a register, or a register and a displacement. -/
inductive Mem
  | abs (a : BitVec 32)
  | ind (r : Reg)
  | disp (r : Reg) (d : BitVec 8)
  deriving DecidableEq

def Mem.offset (c : Cpu) : Mem → BitVec 64
  | .abs a => a.setWidth 64
  | .ind r => (c.reg32 r).setWidth 64
  | .disp r d => (c.reg32 r + d.signExtend 32).setWidth 64

/-- What is addressed through the stack pointer or the frame pointer is on the stack. -/
def Mem.segment (c : Cpu) : Mem → Ia32.Segment
  | .abs _ => c.ds
  | .ind r => if r = .rsp ∨ r = .rbp then c.ss else c.ds
  | .disp r _ => if r = .rsp ∨ r = .rbp then c.ss else c.ds

inductive Alu
  | add
  | and
  | sub
  deriving DecidableEq

def Alu.eval {w : ℕ} : Alu → BitVec w → BitVec w → BitVec w
  | .add, a, b => a + b
  | .and, a, b => a &&& b
  | .sub, a, b => a - b

/-- `wide` is an operand of 64 bits. Flags other than the zero flag are left out. -/
inductive Instr
  | cli
  | pause
  | rdmsr
  | wrmsr
  | ret
  | lret
  | movImm (r : Reg) (imm : BitVec 32)
  | mov (dst src : Reg)
  | xor (dst src : Reg)
  | add (dst src : Reg)
  | aluImm (op : Alu) (wide : Bool) (r : Reg) (imm : BitVec 8)
  | andEax (imm : BitVec 32)
  | shl (r : Reg) (n : BitVec 8)
  | shr (r : Reg) (n : BitVec 8)
  | dec (r : Reg)
  | bts (r : Reg) (n : BitVec 8)
  | lea (r : Reg) (a : BitVec 32)
  | load (r : Reg) (src : Mem)
  | loadByte (r base : Reg)
  | storeByte (base : Reg) (imm : BitVec 8)
  | cmpImm (a : BitVec 32) (imm : BitVec 8)
  | jmp (rel : BitVec 8)
  | je (rel : BitVec 8)
  | push (r : Reg)
  | pushImm (imm : BitVec 32)
  | pop (r : Reg)
  | call (rel : BitVec 32)
  | callReg (r : Reg)
  | movFromCr0 (r : Reg)
  | movToCr0 (r : Reg)
  | lgdt (a : BitVec 32)
  | lidt (a : BitVec 32)
  deriving DecidableEq

/-- The lowest byte of a register; here the registers are those that have one. -/
def Cpu.setReg8 (c : Cpu) (r : Reg) (v : BitVec 8) : Cpu :=
  c.setReg r ((c.reg r).extractLsb' 8 56 ++ v)

def Cpu.readMsr (c : Cpu) (index : BitVec 32) : Option (BitVec 64) :=
  if index = IA32_MSR_EFER then
    some (if c.longActive then c.efer ||| 0x400 else c.efer)
  else if index = IA32_MSR_APIC_BASE then some c.apicBase
  else none

/-- A reserved bit of EFER faults, and so does a change of LME under paging; LMA is not written. -/
def Cpu.writeMsr (c : Cpu) (index : BitVec 32) (v : BitVec 64) : Option Cpu :=
  if index = IA32_MSR_EFER then
    if v &&& ~~~0xd01#64 = 0 ∧ (c.paging = true → v.getLsbD 8 = c.longEnabled) then
      some { c with efer := v &&& ~~~0x400#64 }
    else none
  else none

/-- Paging is turned on in IA-32e mode only, from a code segment that is not one of 64 bits, and is
not turned off again. -/
def Cpu.mayWriteCr0 (c : Cpu) (v : BitVec 32) : Prop :=
  if v.getLsbD 31 then
    v.getLsbD 0 = true ∧ c.longEnabled = true ∧ c.pae = true ∧ (c.paging = true ∨ c.cs.long = false)
  else c.paging = false

instance (c : Cpu) (v : BitVec 32) : Decidable (c.mayWriteCr0 v) := by
  unfold Cpu.mayWriteCr0
  infer_instance

/-- The descriptor of a selector of the global table, with its linear address. -/
def Cpu.descriptorAt (m : Memory 32) (c : Cpu) (sel : BitVec 16) :
    Option (BitVec 64 × Ia32.Descriptor) :=
  if Ia32.Selector.local? sel = false ∧ 8 * Ia32.Selector.index sel + 7 ≤ c.gdtr.limit.toNat then
    let a := (c.gdtr.base + BitVec.ofNat 32 (8 * Ia32.Selector.index sel)).setWidth 64
    (c.access m false a 8).map fun p => (a, m.field 64 p 0)
  else none

/-- The L bit. -/
def longBit (d : Ia32.Descriptor) : Bool := d.getLsbD 53

def CodeSegment.ofDescriptor (sel : BitVec 16) (d : Ia32.Descriptor) : CodeSegment where
  selector := sel
  base := d.base
  limit := d.limit
  big := d.big
  long := longBit d

/-- The checks of a far return that stays at its privilege. -/
def mayReturn (longActive : Bool) (sel : BitVec 16) (d : Ia32.Descriptor) : Bool :=
  d.present && d.codeOrData && d.executable &&
    (if d.conforming then d.dpl ≤ Ia32.Selector.rpl sel else d.dpl == Ia32.Selector.rpl sel) &&
    !(longActive && longBit d && d.big)

/-- The mark on a descriptor that is loaded for the first time. -/
def Cpu.markAccessed (m : Memory 32) (c : Cpu) (a : BitVec 64) (d : Ia32.Descriptor) :
    Option (List Store) :=
  if d.accessed then some []
  else (c.access m true (a + 5) 1).map fun p => [⟨p, 1, (m p ||| 1).toNat⟩]

/-- A far return to a selector and an offset. A return to an outer privilege is left out. -/
def Cpu.returnFar (m : Memory 32) (c : Cpu) (sel : BitVec 16) (off : BitVec 32) :
    Option (Cpu × List Store) :=
  if Ia32.Selector.null sel ∨ Ia32.Selector.rpl sel ≠ c.cpl then none
  else
    match c.descriptorAt m sel with
    | none => none
    | some (a, d) =>
      if mayReturn c.longActive sel d then
        match c.markAccessed m a d with
        | none => none
        | some w =>
          (({ c with cs := CodeSegment.ofDescriptor sel d } : Cpu).jump (off.setWidth 64)).map
            fun c => (c, w)
      else none

/-- Only at the highest privilege. -/
def Instr.Privileged : Instr → Prop
  | .cli | .rdmsr | .wrmsr | .movFromCr0 _ | .movToCr0 _ | .lgdt _ | .lidt _ => True
  | _ => False

instance (i : Instr) : Decidable i.Privileged := by
  cases i <;> unfold Instr.Privileged <;> infer_instance

/-- What an instruction does once `rip` is past it. -/
def perform (m : Memory 32) (c : Cpu) : Instr → Option (Cpu × List Store)
  | .cli => some ({ c with interruptFlag := false }, [])
  | .pause => some (c, [])
  | .rdmsr =>
    (c.readMsr (c.reg32 .rcx)).map fun v =>
      ((c.setReg32 .rax (v.setWidth 32)).setReg32 .rdx (v.extractLsb' 32 32), [])
  | .wrmsr =>
    (c.writeMsr (c.reg32 .rcx) (c.reg32 .rdx ++ c.reg32 .rax)).map fun c => (c, [])
  | .ret =>
    match c.pop m with
    | none => none
    | some (v, c) => (c.jump v).map fun c => (c, [])
  | .lret =>
    if c.long then none
    else
      match c.pop m with
      | none => none
      | some (off, c) =>
        match c.pop m with
        | none => none
        | some (sel, c) => c.returnFar m (sel.setWidth 16) (off.setWidth 32)
  | .movImm r imm => some (c.setReg32 r imm, [])
  | .mov dst src => some (c.setReg32 dst (c.reg32 src), [])
  | .xor dst src =>
    let v := c.reg32 dst ^^^ c.reg32 src
    some ({ c.setReg32 dst v with zeroFlag := v == 0 }, [])
  | .add dst src =>
    let v := c.reg32 dst + c.reg32 src
    some ({ c.setReg32 dst v with zeroFlag := v == 0 }, [])
  | .aluImm op wide r imm =>
    if wide then
      let v := op.eval (c.reg r) (imm.signExtend 64)
      some ({ c.setReg r v with zeroFlag := v == 0 }, [])
    else
      let v := op.eval (c.reg32 r) (imm.signExtend 32)
      some ({ c.setReg32 r v with zeroFlag := v == 0 }, [])
  | .andEax imm =>
    let v := c.reg32 .rax &&& imm
    some ({ c.setReg32 .rax v with zeroFlag := v == 0 }, [])
  | .shl r n =>
    let v := c.reg32 r <<< (n.toNat % 32)
    some ({ c.setReg32 r v with zeroFlag := if n.toNat % 32 = 0 then c.zeroFlag else v == 0 }, [])
  | .shr r n =>
    let v := c.reg32 r >>> (n.toNat % 32)
    some ({ c.setReg32 r v with zeroFlag := if n.toNat % 32 = 0 then c.zeroFlag else v == 0 }, [])
  | .dec r =>
    let v := c.reg32 r - 1
    some ({ c.setReg32 r v with zeroFlag := v == 0 }, [])
  | .bts r n => some (c.setReg32 r (c.reg32 r ||| 1#32 <<< (n.toNat % 32)), [])
  | .lea r a => some (c.setReg32 r a, [])
  | .load r src =>
    (c.read 32 m (src.segment c) (src.offset c)).map fun v => (c.setReg32 r v, [])
  | .loadByte r base =>
    (c.read 8 m ((Mem.ind base).segment c) ((Mem.ind base).offset c)).map fun v => (c.setReg8 r v, [])
  | .storeByte base imm =>
    (c.write m ((Mem.ind base).segment c) ((Mem.ind base).offset c) imm).map fun s => (c, [s])
  | .cmpImm a imm =>
    (c.read 32 m c.ds (a.setWidth 64)).map fun v =>
      ({ c with zeroFlag := v == imm.signExtend 32 }, [])
  | .jmp rel => (c.jump (c.rip + rel.signExtend 64)).map fun c => (c, [])
  | .je rel =>
    if c.zeroFlag then (c.jump (c.rip + rel.signExtend 64)).map fun c => (c, []) else some (c, [])
  | .push r => c.push m (c.reg r)
  | .pushImm imm => c.push m (imm.signExtend 64)
  | .pop r => (c.pop m).map fun p => (p.2.setReg r p.1, [])
  | .call rel =>
    match c.push m c.rip with
    | none => none
    | some (d, w) => (d.jump (c.rip + rel.signExtend 64)).map fun c => (c, w)
  | .callReg r =>
    match c.push m c.rip with
    | none => none
    | some (d, w) => (d.jump (c.reg r)).map fun c => (c, w)
  | .movFromCr0 r => some (c.setReg32 r c.cr0, [])
  | .movToCr0 r =>
    if c.mayWriteCr0 (c.reg32 r) then some ({ c with cr0 := c.reg32 r }, []) else none
  | .lgdt a =>
    (c.read 48 m c.ds (a.setWidth 64)).map fun v =>
      ({ c with gdtr := ⟨v.setWidth 16, v.extractLsb' 16 32⟩ }, [])
  | .lidt a =>
    (c.read 48 m c.ds (a.setWidth 64)).map fun v =>
      ({ c with idtr := ⟨v.setWidth 16, v.extractLsb' 16 32⟩ }, [])

def exec (m : Memory 32) (c : Cpu) (i : Instr) : Option (Cpu × List Store) :=
  if i.Privileged ∧ c.cpl ≠ 0 then none else perform m c i

end Ia32e
