import IkgtLoader.Flat.Ia32Run

/-! The low memory page of `ap_procs_init.c`: the code that `setup_low_memory_ap_code` copies and
patches there, and where it takes a processor that the start-up message sends to it. -/
namespace IkgtLoader.StartAp
open Flat Ia32

/-- `ap_start_up_code`. -/
def apStartUpCode : List (BitVec 8) :=
  [0xb8, 0x00, 0x00,                -- 00: mov ax,AP_START_UP_SEGMENT
    0x8e, 0xd8,                     -- 03: mov ds,ax
    0x8d, 0x36, 0x00, 0x00,         -- 05: lea si,GDTR_OFFSET_IN_PAGE
    0x0f, 0x01, 0x14,               -- 09: lgdt fword ptr [si]
    0x0f, 0x20, 0xc0,               -- 12: mov eax,cr0
    0x0c, 0x01,                     -- 15: or al,1
    0x0f, 0x22, 0xc0,               -- 17: mov cr0,eax
    0x66, 0xea,                     -- 20: fjmp CS,CONT16
    0x00, 0x00, 0x00, 0x00,         -- 22: CONT16
    0x00, 0x00,                     -- 26: CS_VALUE
    0xfa,                           -- 28: cli
    0x66, 0xb8, 0x00, 0x00,         -- 29: mov ax,DS_VALUE
    0x66, 0x8e, 0xd8,               -- 33: mov ds,ax
    0x66, 0xb8, 0x00, 0x00,         -- 36: mov ax,ES_VALUE
    0x66, 0x8e, 0xc0,               -- 40: mov es,ax
    0x66, 0xb8, 0x00, 0x00,         -- 43: mov ax,GS_VALUE
    0x66, 0x8e, 0xe8,               -- 47: mov gs,ax
    0x66, 0xb8, 0x00, 0x00,         -- 50: mov ax,FS_VALUE
    0x66, 0x8e, 0xe0,               -- 54: mov fs,ax
    0x66, 0xb8, 0x00, 0x00,         -- 57: mov ax,SS_VALUE
    0x66, 0x8e, 0xd0,               -- 61: mov ss,ax
    0xb8, 0x00, 0x00, 0x00, 0x00,   -- 64: mov eax,AP_CONTINUE_WAKEUP_CODE
    0xff, 0xe0]                     -- 69: jmp eax

def apStartUpSegmentInCodeOffset : ℕ := 1

def gdtrOffsetInCode : ℕ := 7

def cont16InCodeOffset : ℕ := 22

def cont16ValueOffset : ℕ := 28

def csInCodeOffset : ℕ := 26

def dsInCodeOffset : ℕ := 31

def esInCodeOffset : ℕ := 38

def gsInCodeOffset : ℕ := 45

def fsInCodeOffset : ℕ := 52

def ssInCodeOffset : ℕ := 59

def apContinueWakeupCodeInCodeOffset : ℕ := 65

def gdtrOffsetInPage : ℕ := (apStartUpCode.length + 7) / 8 * 8

def gdtOffsetInPage : ℕ := gdtrOffsetInPage + 8

/-- The copy of the code and its patches. `bsp` is the processor whose segments are read. -/
def patchStartUpCode (m : Memory 32) (bsp : Cpu) (codeToPatch apContinueWakeupCode : BitVec 32) :
    Memory 32 :=
  let m := m.putBytes codeToPatch apStartUpCode
  let m := m.setField codeToPatch apStartUpSegmentInCodeOffset ((codeToPatch >>> 4).setWidth 16)
  let m := m.setField codeToPatch gdtrOffsetInCode (BitVec.ofNat 16 gdtrOffsetInPage)
  let m := m.setField codeToPatch cont16InCodeOffset (codeToPatch + BitVec.ofNat 32 cont16ValueOffset)
  let m := m.setField codeToPatch csInCodeOffset (bsp.seg .cs).selector
  let m := m.setField codeToPatch dsInCodeOffset (bsp.seg .ds).selector
  let m := m.setField codeToPatch esInCodeOffset (bsp.seg .es).selector
  let m := m.setField codeToPatch gsInCodeOffset (bsp.seg .gs).selector
  let m := m.setField codeToPatch fsInCodeOffset (bsp.seg .fs).selector
  let m := m.setField codeToPatch ssInCodeOffset (bsp.seg .ss).selector
  m.setField codeToPatch apContinueWakeupCodeInCodeOffset apContinueWakeupCode

/-- `setup_low_memory_ap_code`: behind the code comes the table that the processor uses itself. -/
def setupLowMemoryApCode (m : Memory 32) (bsp : Cpu) (tempLowMemory4K apContinueWakeupCode : BitVec 32) :
    Memory 32 :=
  let codeToPatch := tempLowMemory4K
  let m := patchStartUpCode m bsp codeToPatch apContinueWakeupCode
  let m := m.copy (codeToPatch + BitVec.ofNat 32 gdtOffsetInPage) bsp.gdtr.base
    (bsp.gdtr.limit.toNat + 1)
  let m := m.setField codeToPatch (gdtrOffsetInPage + 2)
    (codeToPatch + BitVec.ofNat 32 gdtOffsetInPage)
  m.setField codeToPatch gdtrOffsetInPage bsp.gdtr.limit

/-- What `setup_low_memory_ap_code` writes. -/
def lowMemorySpan (bsp : Cpu) : ℕ := gdtOffsetInPage + (bsp.gdtr.limit.toNat + 1)

/-- The 16-bit part of the code, up to the far jump. -/
def realModeCode (page : BitVec 32) : List Instr :=
  [.movImm16 .eax ((page >>> 4).setWidth 16), .movSeg .ds .eax,
    .lea16 .esi (BitVec.ofNat 16 gdtrOffsetInPage), .lgdt16Si, .movFromCr0 .eax, .orAl 1, .movToCr0 .eax]

def farJump (page : BitVec 32) (bsp : Cpu) : Instr :=
  .jmpFar32 (bsp.seg .cs).selector (page + BitVec.ofNat 32 cont16ValueOffset)

/-- The 32-bit part, up to the jump to `ap_continue_wakeup_code`. -/
def protectedModeCode (bsp : Cpu) (apContinueWakeupCode : BitVec 32) : List Instr :=
  [.cli, .movImm16 .eax (bsp.seg .ds).selector, .movSeg .ds .eax,
    .movImm16 .eax (bsp.seg .es).selector, .movSeg .es .eax,
    .movImm16 .eax (bsp.seg .gs).selector, .movSeg .gs .eax,
    .movImm16 .eax (bsp.seg .fs).selector, .movSeg .fs .eax,
    .movImm16 .eax (bsp.seg .ss).selector, .movSeg .ss .eax,
    .movImm32 .eax apContinueWakeupCode]

def pageCode (page : BitVec 32) (bsp : Cpu) (apContinueWakeupCode : BitVec 32) : List (BitVec 8) :=
  assemble false (realModeCode page) ++ (encode false (farJump page bsp) ++
    (assemble true (protectedModeCode bsp apContinueWakeupCode) ++ encode true (.jmpReg32 .eax)))

section patches
variable {m : Memory 32} {bsp : Cpu} {page cont : BitVec 32}

theorem length_apStartUpCode : apStartUpCode.length = 71 := by decide

/-- The patches put the operands of the instructions in their places. -/
theorem patched_eq : patch (patch (patch (patch (patch (patch (patch (patch (patch (patch apStartUpCode
      apStartUpSegmentInCodeOffset (Memory.littleEndian 2 ((page >>> 4).setWidth 16).toNat))
      gdtrOffsetInCode (Memory.littleEndian 2 (BitVec.ofNat 16 gdtrOffsetInPage).toNat))
      cont16InCodeOffset (Memory.littleEndian 4 (page + BitVec.ofNat 32 cont16ValueOffset).toNat))
      csInCodeOffset (Memory.littleEndian 2 (bsp.seg .cs).selector.toNat))
      dsInCodeOffset (Memory.littleEndian 2 (bsp.seg .ds).selector.toNat))
      esInCodeOffset (Memory.littleEndian 2 (bsp.seg .es).selector.toNat))
      gsInCodeOffset (Memory.littleEndian 2 (bsp.seg .gs).selector.toNat))
      fsInCodeOffset (Memory.littleEndian 2 (bsp.seg .fs).selector.toNat))
      ssInCodeOffset (Memory.littleEndian 2 (bsp.seg .ss).selector.toNat))
      apContinueWakeupCodeInCodeOffset (Memory.littleEndian 4 cont.toNat) =
    pageCode page bsp cont := by
  simp [patch, apStartUpCode, apStartUpSegmentInCodeOffset, gdtrOffsetInCode, cont16InCodeOffset,
    csInCodeOffset, dsInCodeOffset, esInCodeOffset, gsInCodeOffset, fsInCodeOffset, ssInCodeOffset,
    apContinueWakeupCodeInCodeOffset, Memory.littleEndian, pageCode, realModeCode, farJump,
    protectedModeCode, assemble, encode, sizePrefix, Instr.wide?, Instr.body, Reg.code, SegReg.code,
    modRm]

theorem length_pageCode : (pageCode page bsp cont).length = 71 := by
  simp [pageCode, realModeCode, farJump, protectedModeCode, assemble, encode, sizePrefix,
    Instr.wide?, Instr.body, Memory.littleEndian]

end patches

/-- The page as `setup_low_memory_ap_code` leaves it, seen from a memory `m'`. -/
structure PageReady (m m' : Memory 32) (bsp : Cpu) (page apContinueWakeupCode : BitVec 32) : Prop where
  code : m'.HasBytes page (pageCode page bsp apContinueWakeupCode)
  gdtrLimit : m'.field 16 page gdtrOffsetInPage = bsp.gdtr.limit
  gdtrBase : m'.field 32 page (gdtrOffsetInPage + 2) = page + BitVec.ofNat 32 gdtOffsetInPage
  gdt : Memory.Same m' (page + BitVec.ofNat 32 gdtOffsetInPage) m bsp.gdtr.base (bsp.gdtr.limit.toNat + 1)

section setup
variable {m : Memory 32} {bsp : Cpu} {page cont : BitVec 32}

theorem lowMemorySpan_le (bsp : Cpu) : 81 ≤ lowMemorySpan bsp ∧ lowMemorySpan bsp ≤ 80 + 65536 := by
  have h := bsp.gdtr.limit.isLt
  have h80 : gdtOffsetInPage = 80 := by decide
  unfold lowMemorySpan
  omega

theorem hasBytes_patchStartUpCode (m : Memory 32) (bsp : Cpu) (page cont : BitVec 32) :
    (patchStartUpCode m bsp page cont).HasBytes page (pageCode page bsp cont) := by
  have h : (m.putBytes page apStartUpCode).HasBytes page apStartUpCode ∧ apStartUpCode.length = 71 :=
    ⟨Memory.hasBytes_putBytes m page (by decide), by decide⟩
  have h := Memory.HasBytes.setField_of_length h ((page >>> 4).setWidth 16)
    (o := apStartUpSegmentInCodeOffset) (by decide) (by decide)
  have h := Memory.HasBytes.setField_of_length h (BitVec.ofNat 16 gdtrOffsetInPage)
    (o := gdtrOffsetInCode) (by decide) (by decide)
  have h := Memory.HasBytes.setField_of_length h (page + BitVec.ofNat 32 cont16ValueOffset)
    (o := cont16InCodeOffset) (by decide) (by decide)
  have h := Memory.HasBytes.setField_of_length h (bsp.seg .cs).selector
    (o := csInCodeOffset) (by decide) (by decide)
  have h := Memory.HasBytes.setField_of_length h (bsp.seg .ds).selector
    (o := dsInCodeOffset) (by decide) (by decide)
  have h := Memory.HasBytes.setField_of_length h (bsp.seg .es).selector
    (o := esInCodeOffset) (by decide) (by decide)
  have h := Memory.HasBytes.setField_of_length h (bsp.seg .gs).selector
    (o := gsInCodeOffset) (by decide) (by decide)
  have h := Memory.HasBytes.setField_of_length h (bsp.seg .fs).selector
    (o := fsInCodeOffset) (by decide) (by decide)
  have h := Memory.HasBytes.setField_of_length h (bsp.seg .ss).selector
    (o := ssInCodeOffset) (by decide) (by decide)
  have h := Memory.HasBytes.setField_of_length h cont
    (o := apContinueWakeupCodeInCodeOffset) (by decide) (by decide)
  rw [← patched_eq]
  exact h.1

/-- Nothing in front of the table register is touched once the code is patched. -/
theorem setupLowMemoryApCode_code {x : BitVec 32} (hx : (x - page).toNat < gdtrOffsetInPage) :
    setupLowMemoryApCode m bsp page cont x = patchStartUpCode m bsp page cont x := by
  have hlim := bsp.gdtr.limit.isLt
  have h72 : gdtrOffsetInPage = 72 := by decide
  have h80 : gdtOffsetInPage = 80 := by decide
  unfold setupLowMemoryApCode
  rw [Memory.setField_of_not_inSpan, Memory.setField_of_not_inSpan, Memory.copy_of_not_inSpan]
  all_goals
    rw [inSpan_offset (by omega)]
    omega

theorem patchStartUpCode_frame {x : BitVec 32} (hx : ¬ InSpan page apStartUpCode.length x) :
    patchStartUpCode m bsp page cont x = m x := by
  unfold patchStartUpCode
  iterate 10 rw [Memory.setField_of_outside _ _ hx (by decide) (by decide)]
  exact Memory.putBytes_of_not_inSpan m hx

/-- `setup_low_memory_ap_code` writes the page only. -/
theorem setupLowMemoryApCode_frame {x : BitVec 32} (hx : ¬ InSpan page (lowMemorySpan bsp) x) :
    setupLowMemoryApCode m bsp page cont x = m x := by
  obtain ⟨hlo, hhi⟩ := lowMemorySpan_le bsp
  have h80 : gdtOffsetInPage = 80 := by decide
  have hcopy : ¬ InSpan (page + BitVec.ofNat 32 gdtOffsetInPage) (bsp.gdtr.limit.toNat + 1) x :=
    fun h => hx (h.of_offset le_rfl (by omega))
  unfold setupLowMemoryApCode
  rw [Memory.setField_of_outside _ _ hx (by rw [show gdtrOffsetInPage = 72 by decide]; omega) (by omega),
    Memory.setField_of_outside _ _ hx (by rw [show gdtrOffsetInPage = 72 by decide]; omega) (by omega),
    Memory.copy_of_not_inSpan _ _ hcopy]
  exact patchStartUpCode_frame fun h => hx (h.mono (by rw [length_apStartUpCode]; omega))

/-- The table is copied as it was, if it lies elsewhere. -/
theorem setupLowMemoryApCode_gdt
    (hap : Apart bsp.gdtr.base (bsp.gdtr.limit.toNat + 1) page (lowMemorySpan bsp)) :
    Memory.Same (setupLowMemoryApCode m bsp page cont) (page + BitVec.ofNat 32 gdtOffsetInPage) m
      bsp.gdtr.base (bsp.gdtr.limit.toNat + 1) := by
  have hlim := bsp.gdtr.limit.isLt
  obtain ⟨hlo, hhi⟩ := lowMemorySpan_le bsp
  have h72 : gdtrOffsetInPage = 72 := by decide
  have h80 : gdtOffsetInPage = 80 := by decide
  have hbase : ¬ InSpan bsp.gdtr.base (bsp.gdtr.limit.toNat + 1)
      (page + BitVec.ofNat 32 gdtOffsetInPage) := fun h => by
    refine hap _ h ((inSpan_add_ofNat (by omega)).mpr ?_)
    omega
  intro k hk
  unfold setupLowMemoryApCode
  rw [Memory.setField_of_not_inSpan, Memory.setField_of_not_inSpan,
    Memory.copy_apply _ (by omega) (.inr hbase) hk]
  · refine patchStartUpCode_frame fun h => ?_
    refine hap _ ((inSpan_add_ofNat (by omega)).mpr hk) (h.mono ?_)
    rw [length_apStartUpCode]
    omega
  all_goals
    rw [inSpan_offset (by omega), add_ofNat_ofNat, toNat_add_ofNat_sub page (by omega)]
    omega

theorem setupLowMemoryApCode_ready
    (hap : Apart bsp.gdtr.base (bsp.gdtr.limit.toNat + 1) page (lowMemorySpan bsp)) :
    PageReady m (setupLowMemoryApCode m bsp page cont) bsp page cont where
  code := by
    refine (hasBytes_patchStartUpCode m bsp page cont).of_unchanged (fun x hx => ?_) ?_
    · rw [length_pageCode] at hx
      exact setupLowMemoryApCode_code (Nat.lt_of_lt_of_le hx (by decide))
    · rw [length_pageCode]
      decide
  gdtrLimit := Memory.field_setField _ _ _ _ rfl (by decide)
  gdtrBase := by
    unfold setupLowMemoryApCode
    rw [Memory.field_setField_of_ne _ _ (.inr (by decide)) (by decide) (by decide),
      Memory.field_setField _ _ _ _ rfl (by decide)]
  gdt := setupLowMemoryApCode_gdt hap

/-- The page stays ready as long as nobody writes to it. -/
theorem PageReady.of_same {m₁ m₂ : Memory 32} (h : PageReady m m₁ bsp page cont)
    (hs : Memory.Same m₂ page m₁ page (lowMemorySpan bsp)) : PageReady m m₂ bsp page cont where
  code := h.code.of_same hs (by rw [length_pageCode]; have := lowMemorySpan_le bsp; omega)
  gdtrLimit := by
    rw [Memory.field_congr hs, h.gdtrLimit]
    rw [show gdtrOffsetInPage = 72 by decide]
    have := lowMemorySpan_le bsp
    omega
  gdtrBase := by
    rw [Memory.field_congr hs, h.gdtrBase]
    rw [show gdtrOffsetInPage = 72 by decide]
    have := lowMemorySpan_le bsp
    omega
  gdt := (hs.offset le_rfl).trans h.gdt

end setup

section run
variable {m : Memory 32} {env : ℕ → Memory 32} {bsp ap : Cpu} {page cont : BitVec 32}

theorem lowPage_eq (hpage : page.toNat < 2 ^ 20) (halign : page.toNat % 4096 = 0) :
    ((page >>> 12).setWidth 8).setWidth 32 <<< 12 = page ∧
      ((page >>> 4).setWidth 16).setWidth 32 <<< 4 = page := by
  constructor
  all_goals
    apply BitVec.eq_of_toNat_eq
    rw [BitVec.toNat_shiftLeft, BitVec.toNat_setWidth, BitVec.toNat_setWidth, BitVec.toNat_ushiftRight,
      Nat.shiftRight_eq_div_pow, Nat.shiftLeft_eq]
    omega

/-- The code in real-address mode loads the table register and turns protected mode on. -/
theorem realModeCode_block (hready : ∀ t, PageReady m (env t) bsp page cont)
    (hpage : page.toNat < 2 ^ 20) (halign : page.toNat % 4096 = 0)
    (hap : StartsAt ap ((page >>> 12).setWidth 8)) :
    ∃ c, execBlock env false (realModeCode page) ap = some c ∧
      c.gdtr = ⟨bsp.gdtr.limit, page + BitVec.ofNat 32 gdtOffsetInPage⟩ ∧ c.cr0 = ap.cr0 ||| 1 := by
  obtain ⟨-, hds⟩ := lowPage_eq hpage halign
  let c₁ := (ap.advance 3).setReg16 .eax ((page >>> 4).setWidth 16)
  let c₂ := (c₁.advance 2).setSeg .ds { ap.seg .ds with
    selector := (page >>> 4).setWidth 16, base := page, usable := true }
  let c₃ := (c₂.advance 4).setReg16 .esi (BitVec.ofNat 16 gdtrOffsetInPage)
  have h₂ : exec (env 1) (c₁.advance 2) (.movSeg .ds .eax) = some (c₂, []) := by
    have hreal : (c₁.advance 2).protectedMode = false := hap.real
    have hax : ((c₁.advance 2).reg .eax).setWidth 16 = (page >>> 4).setWidth 16 := by
      simp only [c₁, advance_reg, setReg16_low]
    rw [exec_movSeg, if_neg (by decide), loadSeg_real hreal, hax, hds]
    simp only [c₂, c₁, advance_seg, setReg16_seg]
  have hseg : (c₃.advance 3).seg .ds = { ap.seg .ds with
      selector := (page >>> 4).setWidth 16, base := page, usable := true } := by
    simp only [c₃, c₂, advance_seg, setReg16_seg, setSeg_seg_self]
  have hsi : (c₃.advance 3).si = BitVec.ofNat 32 gdtrOffsetInPage := by
    unfold Cpu.si
    simp only [c₃, advance_reg, setReg16_low]
    decide
  let c₄ : Cpu := { c₃.advance 3 with
    gdtr := ⟨bsp.gdtr.limit, page + BitVec.ofNat 32 gdtOffsetInPage⟩ }
  have h₄ : exec (env 3) (c₃.advance 3) .lgdt16Si = some (c₄, []) := by
    have hbase : ((env 3).field 24 page (gdtrOffsetInPage + 2)).setWidth 32 =
        page + BitVec.ofNat 32 gdtOffsetInPage := by
      have h80 : gdtOffsetInPage = 80 := by decide
      have hlow : (env 3).field 24 page (gdtrOffsetInPage + 2) =
          ((env 3).field 32 page (gdtrOffsetInPage + 2)).setWidth 24 :=
        Memory.field_setWidth _ _ _ rfl (by decide)
      rw [hlow, (hready 3).gdtrBase]
      apply BitVec.eq_of_toNat_eq
      rw [BitVec.toNat_setWidth, BitVec.toNat_setWidth, BitVec.toNat_add, BitVec.toNat_ofNat]
      omega
    have hfield : ∀ bits o, (env 3).field bits (page + BitVec.ofNat 32 gdtrOffsetInPage) o =
        (env 3).field bits page (gdtrOffsetInPage + o) := fun bits o => by
      unfold Memory.field
      rw [add_ofNat_ofNat]
    rw [exec_lgdt16Si, hseg, hsi, if_pos]
    · dsimp only
      rw [hfield, hfield, hbase, Nat.add_zero, (hready 3).gdtrLimit]
    · refine ⟨rfl, ?_⟩
      rw [hap.ds]
      decide
  let c₅ := (c₄.advance 3).setReg .eax ap.cr0
  let c₆ := (c₅.advance 2).setReg .eax (ap.cr0 ||| 1)
  let c₇ : Cpu := { c₆.advance 3 with cr0 := ap.cr0 ||| 1 }
  have h₆ : exec (env 5) (c₅.advance 2) (.orAl 1) = some (c₆, []) := by
    rw [exec]
    simp only [c₆, c₅, advance_reg, setReg_reg_self]
    rfl
  have h₇ : exec (env 6) (c₆.advance 3) (.movToCr0 .eax) = some (c₇, []) := by
    rw [exec]
    simp only [c₇, c₆, advance_reg, setReg_reg_self]
  refine ⟨c₇, ?_, rfl, rfl⟩
  unfold realModeCode
  rw [execBlock_cons (d := c₁) rfl, execBlock_cons h₂, execBlock_cons (d := c₃) rfl,
    execBlock_cons h₄, execBlock_cons (d := c₅) rfl, execBlock_cons h₆, execBlock_cons h₇]
  rfl

/-- A processor on its way through the code in protected mode: the segment registers that it has
taken over from the bootstrap processor. -/
structure TakingOver (bsp : Cpu) (page cr0 : BitVec 32) (done : List SegReg) (c : Cpu) : Prop where
  gdtr : c.gdtr = ⟨bsp.gdtr.limit, page + BitVec.ofNat 32 gdtOffsetInPage⟩
  cr0 : c.cr0 = cr0
  masked : c.interruptFlag = false
  segs : ∀ s ∈ done, c.seg s = bsp.seg s

/-- The selectors of the bootstrap processor load the same from the copied table. -/
theorem PageReady.loadSegment {m₁ : Memory 32} (h : PageReady m m₁ bsp page cont)
    (hbsp : bsp.Settled m) {c : Cpu}
    (hg : c.gdtr = ⟨bsp.gdtr.limit, page + BitVec.ofNat 32 gdtOffsetInPage⟩) (hcpl : c.cpl = bsp.cpl)
    (s : SegReg) : Ia32.loadSegment m₁ c.gdtr c.cpl s (bsp.seg s).selector = some (bsp.seg s, []) := by
  have hlim : (⟨bsp.gdtr.limit, page + BitVec.ofNat 32 gdtOffsetInPage⟩ : TableReg).limit =
      bsp.gdtr.limit := rfl
  rw [hcpl, hg]
  exact loadSegment_congr hlim h.gdt (hbsp s)

/-- `mov ax,VALUE; mov seg,ax` takes over one segment register. -/
theorem takeOver {cr0 : BitVec 32} {done : List SegReg} {c : Cpu} (hready : ∀ t, PageReady m (env t) bsp page cont)
    (hbsp : bsp.Settled m) (h : TakingOver bsp page cr0 done c) (hcs : .cs ∈ done)
    (hpe : cr0.getLsbD 0 = true) {s : SegReg} (hs : s ≠ .cs) (is : List Instr) :
    ∃ c', execBlock env true (.movImm16 .eax (bsp.seg s).selector :: .movSeg s .eax :: is) c =
        execBlock (fun t => env (t + 2)) true is c' ∧ TakingOver bsp page cr0 (s :: done) c' := by
  let c₁ := (c.advance 4).setReg16 .eax (bsp.seg s).selector
  have hprot : (c₁.advance 3).protectedMode = true := by
    unfold Cpu.protectedMode
    simp only [c₁, advance_cr0, setReg16_cr0, h.cr0, hpe]
  have hcpl : (c₁.advance 3).cpl = bsp.cpl := by
    unfold Cpu.cpl
    simp only [c₁, advance_seg, setReg16_seg, h.segs .cs hcs]
  have hax : ((c₁.advance 3).reg .eax).setWidth 16 = (bsp.seg s).selector := by
    simp only [c₁, advance_reg, setReg16_low]
  have h₂ : exec (env 1) (c₁.advance 3) (.movSeg s .eax) =
      some ((c₁.advance 3).setSeg s (bsp.seg s), []) := by
    rw [exec_movSeg, if_neg hs, hax, loadSeg_protected hprot]
    exact (hready 1).loadSegment hbsp h.gdtr hcpl s
  refine ⟨(c₁.advance 3).setSeg s (bsp.seg s), ?_, h.gdtr, h.cr0, h.masked, fun q hq => ?_⟩
  · rw [execBlock_cons (d := c₁) rfl, execBlock_cons h₂]
  · by_cases hqs : q = s
    · subst hqs
      exact setSeg_seg_self _ _ _
    · rw [setSeg_seg_of_ne _ _ _ hqs]
      exact h.segs q ((List.mem_cons.mp hq).resolve_left hqs)

/-- The code in protected mode takes over the segment registers that are left. -/
theorem protectedModeCode_block {cr0 : BitVec 32} {c : Cpu} (hready : ∀ t, PageReady m (env t) bsp page cont)
    (hbsp : bsp.Settled m) (hg : c.gdtr = ⟨bsp.gdtr.limit, page + BitVec.ofNat 32 gdtOffsetInPage⟩)
    (hcr0 : c.cr0 = cr0) (hcs : c.seg .cs = bsp.seg .cs) (hpe : cr0.getLsbD 0 = true) :
    ∃ c', execBlock env true (protectedModeCode bsp cont) c = some c' ∧ c'.reg .eax = cont ∧
      TakingOver bsp page cr0 [.ss, .fs, .gs, .es, .ds, .cs] c' := by
  let c₁ : Cpu := { c.advance 1 with interruptFlag := false }
  have h₁ : TakingOver bsp page cr0 [.cs] c₁ := ⟨hg, hcr0, rfl, fun s hs => by
    rw [List.mem_singleton.mp hs]
    exact hcs⟩
  unfold protectedModeCode
  rw [execBlock_cons (d := c₁) rfl]
  have shift : ∀ k, ∀ t, PageReady m (env (t + k)) bsp page cont := fun k t => hready (t + k)
  obtain ⟨c₂, e₂, h₂⟩ := takeOver (shift 1) hbsp h₁ (by decide) hpe (s := .ds) (by decide) _
  obtain ⟨c₃, e₃, h₃⟩ := takeOver (shift 3) hbsp h₂ (by decide) hpe (s := .es) (by decide) _
  obtain ⟨c₄, e₄, h₄⟩ := takeOver (shift 5) hbsp h₃ (by decide) hpe (s := .gs) (by decide) _
  obtain ⟨c₅, e₅, h₅⟩ := takeOver (shift 7) hbsp h₄ (by decide) hpe (s := .fs) (by decide) _
  obtain ⟨c₆, e₆, h₆⟩ := takeOver (shift 9) hbsp h₅ (by decide) hpe (s := .ss) (by decide) _
  let c₇ := (c₆.advance 5).setReg .eax cont
  refine ⟨c₇, ?_, setReg_reg_self _ _ _, ⟨h₆.gdtr, h₆.cr0, h₆.masked, h₆.segs⟩⟩
  rw [e₂, e₃, e₄, e₅, e₆, execBlock_cons (d := c₇) rfl]
  rfl

/-- A segment that takes any offset of the flat address space. -/
def FlatCode (g : Segment) : Prop := g.base = 0 ∧ g.limit = 0xffffffff ∧ g.big = true

instance (g : Segment) : Decidable (FlatCode g) := inferInstanceAs (Decidable (_ ∧ _))

theorem lengths_pageCode (page : BitVec 32) (bsp : Cpu) (cont : BitVec 32) :
    (assemble false (realModeCode page)).length = 20 ∧ (encode false (farJump page bsp)).length = 8 ∧
      (assemble true (protectedModeCode bsp cont)).length = 41 ∧
      (encode true (.jmpReg32 .eax)).length = 2 := by
  refine ⟨?_, ?_, ?_, by decide⟩
  all_goals
    simp [realModeCode, farJump, protectedModeCode, assemble, encode, sizePrefix, Instr.wide?,
      Instr.body, Memory.littleEndian]

theorem realModeCode_valid : ∀ i ∈ realModeCode page, i.Encodable false ∧ i.Linear := by
  simp [realModeCode, Instr.Encodable, Instr.Linear]

theorem protectedModeCode_valid :
    ∀ i ∈ protectedModeCode bsp cont, i.Encodable true ∧ i.Linear := by
  simp [protectedModeCode, Instr.Encodable, Instr.Linear]

/-- Up to the far jump: the processor stands before it with the copied table and protected mode on. -/
theorem silent_realMode (hready : ∀ t, PageReady m (env t) bsp page cont)
    (hpage : page.toNat < 2 ^ 20) (halign : page.toNat % 4096 = 0)
    (hap : StartsAt ap ((page >>> 12).setWidth 8)) :
    ∃ c, silent env 7 ap = some c ∧
      c.gdtr = ⟨bsp.gdtr.limit, page + BitVec.ofNat 32 gdtOffsetInPage⟩ ∧ c.cr0 = ap.cr0 ||| 1 ∧
      c.eip = 20 ∧ c.seg .cs = ap.seg .cs := by
  obtain ⟨hcs, -⟩ := lowPage_eq hpage halign
  obtain ⟨hlen, -, -, -⟩ := lengths_pageCode page bsp cont
  obtain ⟨c, hblock, hg, hcr0⟩ := realModeCode_block hready hpage halign hap
  have hbig : (ap.seg .cs).big = false := by rw [hap.cs]
  have hpc : ap.pc = page := by
    unfold Cpu.pc
    rw [hap.cs, hap.eip]
    dsimp only
    rw [hcs]
    exact BitVec.add_zero page
  have hlimit : (ap.seg .cs).limit.toNat = 0xffff := by
    rw [hap.cs]
    rfl
  have hrun := silent_eq_execBlock env (realModeCode page) ap
    (fun t => by rw [hpc, hbig]; exact (hready t).code.left)
    (fun i hi => hbig ▸ (realModeCode_valid i hi).1) (fun i hi => (realModeCode_valid i hi).2)
    (fun _ => by rw [hlimit]; decide) (by rw [hbig, hlen, hap.eip, hlimit]; decide)
  rw [hbig, hlen, hap.eip] at hrun
  obtain ⟨hend, hseg⟩ := hrun.2 c hblock
  exact ⟨c, hrun.1.trans hblock, hg, hcr0, hend, hseg⟩

/-- The far jump enters the code segment of the bootstrap processor. -/
theorem step_farJump {c : Cpu} {m₁ : Memory 32} (hready : PageReady m m₁ bsp page cont)
    (hpage : page.toNat < 2 ^ 20) (halign : page.toNat % 4096 = 0) (hbsp : bsp.Settled m)
    (hcpl : bsp.cpl = 0) (hflat : FlatCode (bsp.seg .cs)) (hap : StartsAt ap ((page >>> 12).setWidth 8))
    (hg : c.gdtr = ⟨bsp.gdtr.limit, page + BitVec.ofNat 32 gdtOffsetInPage⟩)
    (hcr0 : c.cr0 = ap.cr0 ||| 1) (heip : c.eip = 20) (hcs : c.seg .cs = ap.seg .cs) :
    step m₁ c = some ({ (c.advance 8).setSeg .cs (bsp.seg .cs) with
      eip := page + BitVec.ofNat 32 cont16ValueOffset }, []) := by
  obtain ⟨hbase, -⟩ := lowPage_eq hpage halign
  obtain ⟨hlen, hjmp, -, -⟩ := lengths_pageCode page bsp cont
  have hbig : (c.seg .cs).big = false := by rw [hcs, hap.cs]
  have hlimit : (c.seg .cs).limit.toNat = 0xffff := by
    rw [hcs, hap.cs]
    rfl
  have hpc : c.pc = page + BitVec.ofNat 32 20 := by
    unfold Cpu.pc
    rw [hcs, hap.cs, heip]
    dsimp only
    rw [hbase]
    rfl
  have hcode : m₁.HasBytes c.pc (encode (c.seg .cs).big (farJump page bsp)) := by
    have h := hready.code.right.left
    rw [hlen] at h
    rwa [hpc, hbig]
  have hload : (c.advance 8).loadSeg m₁ .cs (bsp.seg .cs).selector =
      some ((c.advance 8).setSeg .cs (bsp.seg .cs), []) := by
    refine loadSeg_protected ?_ (hready.loadSegment hbsp hg ?_ .cs)
    · unfold Cpu.protectedMode
      simp [hcr0]
    · rw [hcpl, ← hap.cpl]
      unfold Cpu.cpl
      rw [hcs]
  rw [step_of_code (i := farJump page bsp) trivial hcode
    (by rw [hbig, hjmp, heip, hlimit]; decide), hbig, hjmp]
  refine exec_jmpFar32 hload ?_
  rw [setSeg_seg_self, hflat.2.1]
  exact BitVec.le_def.mpr (Nat.le_of_lt_succ (BitVec.isLt _))

/-- What a processor has become when it enters `ap_continue_wakeup_code`. -/
structure Arrived (bsp ap c : Cpu) (page apContinueWakeupCode : BitVec 32) : Prop where
  eip : c.eip = apContinueWakeupCode
  segs : ∀ s, c.seg s = bsp.seg s
  gdtr : c.gdtr = ⟨bsp.gdtr.limit, page + BitVec.ofNat 32 gdtOffsetInPage⟩
  cr0 : c.cr0 = ap.cr0 ||| 1
  masked : c.interruptFlag = false

end run

/-- Three descriptors: none, flat code and flat data, both loaded before. -/
def flatTable : Memory 32 :=
  Memory.ofBytes 0x2000 (Memory.littleEndian 8 0 ++ Memory.littleEndian 8 0x00cf9b000000ffff ++
    Memory.littleEndian 8 0x00cf93000000ffff)

def flatCpu : Cpu where
  reg := fun _ => 0
  eip := 0x100000
  seg := fun s => if s = .cs then ⟨0x08, 0, 0xffffffff, true, true⟩ else ⟨0x10, 0, 0xffffffff, true, true⟩
  cr0 := 0x00000011
  gdtr := ⟨23, 0x2000⟩
  interruptFlag := false

/-- A processor after the start-up message with vector 8. -/
def startedCpu : Cpu where
  reg := fun _ => 0
  eip := 0
  seg := fun s => if s = .cs then ⟨0x800, 0x8000, 0xffff, false, true⟩ else ⟨0, 0, 0xffff, false, true⟩
  cr0 := 0x60000010
  gdtr := ⟨0xffff, 0⟩
  interruptFlag := false

end IkgtLoader.StartAp
