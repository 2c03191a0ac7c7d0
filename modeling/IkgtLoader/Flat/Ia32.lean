import IkgtLoader.Flat.BitField

/-! A part of the IA-32 processor in its real-address and protected modes: segment registers with
their hidden parts, descriptor tables, and the instructions that take a processor from one mode to
the other. An instruction gives the new state and the bytes it writes, or nothing when it faults. -/
namespace Ia32
open Flat

inductive Reg
  | eax
  | ecx
  | edx
  | ebx
  | esp
  | ebp
  | esi
  | edi
  deriving DecidableEq

inductive SegReg
  | es
  | cs
  | ss
  | ds
  | fs
  | gs
  deriving DecidableEq

/-- A segment register with its hidden part. `big` is the default size of a code segment. -/
structure Segment where
  selector : BitVec 16
  base : BitVec 32
  limit : BitVec 32
  big : Bool
  usable : Bool
  deriving DecidableEq

/-- The register of a descriptor table. -/
structure TableReg where
  limit : BitVec 16
  base : BitVec 32
  deriving DecidableEq

structure Cpu where
  reg : Reg → BitVec 32
  eip : BitVec 32
  seg : SegReg → Segment
  cr0 : BitVec 32
  gdtr : TableReg
  interruptFlag : Bool

/-- The bytes an instruction writes, with their addresses. -/
abbrev Writes := List (BitVec 32 × BitVec 8)

abbrev Descriptor := BitVec 64

namespace Descriptor

def base (d : Descriptor) : BitVec 32 := d.extractLsb' 56 8 ++ d.extractLsb' 16 24

def limit20 (d : Descriptor) : BitVec 20 := d.extractLsb' 48 4 ++ d.extractLsb' 0 16

def granularity (d : Descriptor) : Bool := d.getLsbD 55

def limit (d : Descriptor) : BitVec 32 :=
  if d.granularity then d.limit20.setWidth 32 <<< 12 ||| 0xfff else d.limit20.setWidth 32

def accessed (d : Descriptor) : Bool := d.getLsbD 40

/-- Readable code or writable data. -/
def readWrite (d : Descriptor) : Bool := d.getLsbD 41

def conforming (d : Descriptor) : Bool := d.getLsbD 42

def executable (d : Descriptor) : Bool := d.getLsbD 43

/-- Neither a gate nor a task. -/
def codeOrData (d : Descriptor) : Bool := d.getLsbD 44

def dpl (d : Descriptor) : BitVec 2 := d.extractLsb' 45 2

def present (d : Descriptor) : Bool := d.getLsbD 47

def big (d : Descriptor) : Bool := d.getLsbD 54

end Descriptor

namespace Selector

def rpl (sel : BitVec 16) : BitVec 2 := sel.extractLsb' 0 2

def local? (sel : BitVec 16) : Bool := sel.getLsbD 2

def index (sel : BitVec 16) : ℕ := sel.toNat / 8

def null (sel : BitVec 16) : Bool := sel >>> 2 == 0

end Selector

/-- The privilege and type checks on the descriptor that a selector is to load. -/
def mayLoad (cpl : BitVec 2) (sel : BitVec 16) (d : Descriptor) : SegReg → Bool
  | .cs => d.present && d.codeOrData && d.executable &&
      if d.conforming then d.dpl ≤ cpl else Selector.rpl sel ≤ cpl && d.dpl == cpl
  | .ss => d.present && d.codeOrData && !d.executable && d.readWrite && d.dpl == cpl &&
      Selector.rpl sel == cpl
  | _ => d.present && d.codeOrData && (!d.executable || d.readWrite) &&
      (d.executable && d.conforming || cpl ≤ d.dpl && Selector.rpl sel ≤ d.dpl)

/-- The descriptor of a selector of the global table. -/
def descriptorAt (m : Memory 32) (t : TableReg) (sel : BitVec 16) : Option Descriptor :=
  if Selector.local? sel = false ∧ 8 * Selector.index sel + 7 ≤ t.limit.toNat then
    some (m.field 64 t.base (8 * Selector.index sel))
  else none

def Segment.ofDescriptor (sel : BitVec 16) (d : Descriptor) : Segment where
  selector := sel
  base := d.base
  limit := d.limit
  big := d.big
  usable := true

/-- The mark a processor leaves on a descriptor when it first loads it. -/
def markAccessed (m : Memory 32) (t : TableReg) (sel : BitVec 16) (d : Descriptor) : Writes :=
  if d.accessed then []
  else
    let a := t.base + BitVec.ofNat 32 (8 * Selector.index sel + 5)
    [(a, m a ||| 1)]

/-- A load of a segment register in protected mode. -/
def loadSegment (m : Memory 32) (t : TableReg) (cpl : BitVec 2) (s : SegReg) (sel : BitVec 16) :
    Option (Segment × Writes) :=
  if Selector.null sel then
    if s = .cs ∨ s = .ss then none
    else some (⟨sel, 0, 0, false, false⟩, [])
  else
    match descriptorAt m t sel with
    | none => none
    | some d =>
      if mayLoad cpl sel d s then
        let sel' := if s = .cs then sel.extractLsb' 2 14 ++ cpl else sel
        some (Segment.ofDescriptor sel' d, markAccessed m t sel d)
      else none

namespace Cpu

def protectedMode (c : Cpu) : Bool := c.cr0.getLsbD 0

def cpl (c : Cpu) : BitVec 2 := Selector.rpl (c.seg .cs).selector

def setReg (c : Cpu) (r : Reg) (v : BitVec 32) : Cpu :=
  { c with reg := fun q => if q = r then v else c.reg q }

/-- The lower half of a register. -/
def setReg16 (c : Cpu) (r : Reg) (v : BitVec 16) : Cpu :=
  c.setReg r ((c.reg r).extractLsb' 16 16 ++ v)

def setSeg (c : Cpu) (s : SegReg) (g : Segment) : Cpu :=
  { c with seg := fun q => if q = s then g else c.seg q }

/-- `si` as an offset. -/
def si (c : Cpu) : BitVec 32 := ((c.reg .esi).setWidth 16).setWidth 32

/-- A segment register takes a selector, in either mode. -/
def loadSeg (m : Memory 32) (c : Cpu) (s : SegReg) (sel : BitVec 16) : Option (Cpu × Writes) :=
  if c.protectedMode then
    match loadSegment m c.gdtr c.cpl s sel with
    | none => none
    | some (g, w) => some (c.setSeg s g, w)
  else
    some (c.setSeg s { c.seg s with
      selector := sel, base := sel.setWidth 32 <<< 4, usable := true }, [])

/-- Control moves within the code segment. -/
def jump (c : Cpu) (off : BitVec 32) : Option Cpu :=
  if off ≤ (c.seg .cs).limit then some { c with eip := off } else none

end Cpu

/-- The operand sizes that the sequences use; an address is `[si]` or a displacement of 16 bits. -/
inductive Instr
  | cli
  | orAl (imm : BitVec 8)
  | movImm16 (r : Reg) (imm : BitVec 16)
  | movImm32 (r : Reg) (imm : BitVec 32)
  | movSeg (s : SegReg) (r : Reg)
  | movFromCr0 (r : Reg)
  | movToCr0 (r : Reg)
  | lea16 (r : Reg) (disp : BitVec 16)
  | lgdt16Si
  | jmpFar32 (sel : BitVec 16) (off : BitVec 32)
  | jmpReg32 (r : Reg)
  deriving DecidableEq

/-- What an instruction does once `eip` is past it. -/
def exec (m : Memory 32) (c : Cpu) : Instr → Option (Cpu × Writes)
  | .cli => some ({ c with interruptFlag := false }, [])
  | .orAl imm => some (c.setReg .eax (c.reg .eax ||| imm.setWidth 32), [])
  | .movImm16 r imm => some (c.setReg16 r imm, [])
  | .movImm32 r imm => some (c.setReg r imm, [])
  | .movSeg s r => if s = .cs then none else c.loadSeg m s ((c.reg r).setWidth 16)
  | .movFromCr0 r => some (c.setReg r c.cr0, [])
  | .movToCr0 r => some ({ c with cr0 := c.reg r }, [])
  | .lea16 r disp => some (c.setReg16 r disp, [])
  | .lgdt16Si =>
    let ds := c.seg .ds
    if ds.usable ∧ c.si.toNat + 5 ≤ ds.limit.toNat then
      -- an operand of 16 bits takes a base of 24
      some ({ c with gdtr :=
        { limit := m.field 16 (ds.base + c.si) 0
          base := (m.field 24 (ds.base + c.si) 2).setWidth 32 } }, [])
    else none
  | .jmpFar32 sel off =>
    match c.loadSeg m .cs sel with
    | none => none
    | some (c, w) =>
      match c.jump off with
      | none => none
      | some c => some (c, w)
  | .jmpReg32 r =>
    match c.jump (c.reg r) with
    | none => none
    | some c => some (c, [])

/-- Every segment register holds what its selector loads from the processor's own table, and the
table carries the marks of these loads. -/
def Cpu.Settled (m : Memory 32) (c : Cpu) : Prop :=
  ∀ s, loadSegment m c.gdtr c.cpl s (c.seg s).selector = some (c.seg s, [])

/-- Where a start-up message with the vector leaves a processor: in real-address mode, at the
start of the page that the vector numbers. -/
structure StartsAt (c : Cpu) (vector : BitVec 8) : Prop where
  cs : c.seg .cs = ⟨vector.setWidth 16 <<< 8, vector.setWidth 32 <<< 12, 0xffff, false, true⟩
  ds : (c.seg .ds).limit = 0xffff
  eip : c.eip = 0
  real : c.protectedMode = false

/-- A copy of the table serves as well. -/
theorem loadSegment_congr {m m' : Memory 32} {t t' : TableReg} (hlim : t'.limit = t.limit)
    (h : Memory.Same m' t'.base m t.base (t.limit.toNat + 1)) {cpl : BitVec 2} {s : SegReg}
    {sel : BitVec 16} {g : Segment} (hl : loadSegment m t cpl s sel = some (g, [])) :
    loadSegment m' t' cpl s sel = some (g, []) := by
  have hdesc : descriptorAt m' t' sel = descriptorAt m t sel := by
    unfold descriptorAt
    rw [hlim]
    split
    next hin => rw [Memory.field_congr h (show 8 * Selector.index sel + 64 / 8 ≤ _ by omega)]
    next => rfl
  unfold loadSegment at hl ⊢
  rw [hdesc]
  split
  next hn =>
    rw [if_pos hn] at hl
    exact hl
  next hn =>
    rw [if_neg hn] at hl
    cases hd : descriptorAt m t sel with
    | none =>
      rw [hd] at hl
      cases hl
    | some d =>
      rw [hd] at hl
      dsimp only at hl ⊢
      split
      next hm =>
        rw [if_pos hm] at hl
        obtain ⟨hg, hw⟩ := Prod.mk.inj (Option.some.inj hl)
        have ha : d.accessed = true := by
          by_contra hno
          rw [markAccessed, if_neg hno] at hw
          cases hw
        rw [← hg, markAccessed, if_pos ha]
      next hm =>
        rw [if_neg hm] at hl
        cases hl

section fields
variable (c : Cpu) (r q : Reg) (s : SegReg) (g : Segment) (v : BitVec 32) (u : BitVec 16)

@[simp] theorem setReg_reg_self : (c.setReg r v).reg r = v := if_pos rfl

@[simp] theorem setReg_seg : (c.setReg r v).seg = c.seg := rfl

@[simp] theorem setReg_cr0 : (c.setReg r v).cr0 = c.cr0 := rfl

@[simp] theorem setReg_gdtr : (c.setReg r v).gdtr = c.gdtr := rfl

@[simp] theorem setReg_interruptFlag : (c.setReg r v).interruptFlag = c.interruptFlag := rfl

@[simp] theorem setReg16_seg : (c.setReg16 r u).seg = c.seg := rfl

@[simp] theorem setReg16_cr0 : (c.setReg16 r u).cr0 = c.cr0 := rfl

@[simp] theorem setReg16_gdtr : (c.setReg16 r u).gdtr = c.gdtr := rfl

@[simp] theorem setReg16_interruptFlag : (c.setReg16 r u).interruptFlag = c.interruptFlag := rfl

@[simp] theorem setSeg_reg : (c.setSeg s g).reg = c.reg := rfl

@[simp] theorem setSeg_cr0 : (c.setSeg s g).cr0 = c.cr0 := rfl

@[simp] theorem setSeg_gdtr : (c.setSeg s g).gdtr = c.gdtr := rfl

@[simp] theorem setSeg_interruptFlag : (c.setSeg s g).interruptFlag = c.interruptFlag := rfl

@[simp] theorem setReg16_low : ((c.setReg16 r u).reg r).setWidth 16 = u := by
  unfold Cpu.setReg16
  rw [setReg_reg_self]
  apply BitVec.eq_of_toNat_eq
  have hu := u.isLt
  rw [BitVec.toNat_setWidth, toNat_append_add]
  omega

@[simp] theorem setSeg_seg_self : (c.setSeg s g).seg s = g := if_pos rfl

theorem setSeg_seg_of_ne {s' : SegReg} (h : s' ≠ s) : (c.setSeg s g).seg s' = c.seg s' := if_neg h

end fields

/-- A load in real-address mode. -/
theorem loadSeg_real {m : Memory 32} {c : Cpu} (h : c.protectedMode = false) (s : SegReg)
    (sel : BitVec 16) : c.loadSeg m s sel = some (c.setSeg s { c.seg s with
      selector := sel, base := sel.setWidth 32 <<< 4, usable := true }, []) := by
  unfold Cpu.loadSeg
  rw [if_neg (by rw [h]; exact Bool.false_ne_true)]

theorem loadSeg_protected {m : Memory 32} {c : Cpu} (h : c.protectedMode = true) {s : SegReg}
    {sel : BitVec 16} {g : Segment} {w : Writes}
    (hl : loadSegment m c.gdtr c.cpl s sel = some (g, w)) :
    c.loadSeg m s sel = some (c.setSeg s g, w) := by
  unfold Cpu.loadSeg
  rw [if_pos h, hl]

theorem exec_movSeg (m : Memory 32) (c : Cpu) (s : SegReg) (r : Reg) :
    exec m c (.movSeg s r) = if s = .cs then none else c.loadSeg m s ((c.reg r).setWidth 16) := rfl

theorem exec_lgdt16Si (m : Memory 32) (c : Cpu) : exec m c .lgdt16Si =
    if (c.seg .ds).usable ∧ c.si.toNat + 5 ≤ (c.seg .ds).limit.toNat then
      some ({ c with gdtr :=
        { limit := m.field 16 ((c.seg .ds).base + c.si) 0
          base := (m.field 24 ((c.seg .ds).base + c.si) 2).setWidth 32 } }, [])
    else none := rfl

theorem exec_jmpFar32 {m : Memory 32} {c d : Cpu} {sel : BitVec 16} {off : BitVec 32} {w : Writes}
    (h : c.loadSeg m .cs sel = some (d, w)) (hoff : off ≤ (d.seg .cs).limit) :
    exec m c (.jmpFar32 sel off) = some ({ d with eip := off }, w) := by
  unfold exec
  simp only [h, Cpu.jump, if_pos hoff]

theorem exec_jmpReg32 {m : Memory 32} {c : Cpu} {r : Reg} (hoff : c.reg r ≤ (c.seg .cs).limit) :
    exec m c (.jmpReg32 r) = some ({ c with eip := c.reg r }, []) := by
  unfold exec
  simp only [Cpu.jump, if_pos hoff]

/-- The start-up message gives the highest privilege. -/
theorem StartsAt.cpl {c : Cpu} {vector : BitVec 8} (h : StartsAt c vector) : c.cpl = 0 := by
  unfold Cpu.cpl
  rw [h.cs]
  clear h
  revert vector
  decide

end Ia32
