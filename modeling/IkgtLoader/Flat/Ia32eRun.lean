import IkgtLoader.Flat.Bytes
import IkgtLoader.Flat.Ia32eCode
import IkgtLoader.Flat.Parallel

/-! Runs of machine code among other processors. Between two instructions the memory may change as
a relation allows; what a run comes to is proved instruction by instruction or block by block. -/
namespace Ia32e
open Flat

/-- Where the next instruction is fetched from. -/
def Cpu.pc (c : Cpu) : BitVec 64 :=
  if c.long then c.rip else (c.cs.base + c.rip.setWidth 32).setWidth 64

def Cpu.fetch (m : Memory 32) (c : Cpu) (k : ℕ) : BitVec 8 :=
  match c.physical m false (c.pc + BitVec.ofNat 64 k) with
  | some p => m p
  | none => 0

def Cpu.advance (c : Cpu) (n : ℕ) : Cpu :=
  let rip := c.rip + BitVec.ofNat 64 n
  { c with rip := if c.long then rip else (rip.setWidth 32).setWidth 64 }

/-- One instruction; code of 16 bits is left out. -/
def step (m : Memory 32) (c : Cpu) : Option (Cpu × List Store) :=
  if c.long = true ∨ c.cs.big = true then
    match decode c.long (c.fetch m) with
    | none => none
    | some (i, n) =>
      if (c.access m false c.pc n).isSome = true ∧
          (c.long = true ∨ (c.rip.setWidth 32).toNat + n ≤ c.cs.limit.toNat + 1) then
        exec m (c.advance n) i
      else none
  else none

def applyAll (m : Memory 32) (w : List Store) : Memory 32 := w.foldl Store.apply m

theorem applyAll_singleton (m : Memory 32) (s : Store) : applyAll m [s] = s.apply m := rfl

/-- One instruction on a memory that processors share. -/
def act (m : Memory 32) (c : Cpu) : Option (Memory 32 × Cpu) :=
  (step m c).map fun r => (applyAll m r.2, r.1)

theorem act_of_step {m : Memory 32} {c d : Cpu} {w : List Store} (h : step m c = some (d, w)) :
    act m c = some (applyAll m w, d) := by
  unfold act
  rw [h]
  rfl

/-- What the next `n` instructions lead to. -/
abbrev Reaches (R G : Memory 32 → Memory 32 → Prop) (n : ℕ) (Q : Memory 32 → Cpu → Prop)
    (m : Memory 32) (c : Cpu) : Prop := Parallel.Leads act R G n Q m c

section fields
variable (c : Cpu) (r q : Reg) (v : BitVec 64) (n : ℕ)

@[simp] theorem setReg_reg_self : (c.setReg r v).reg r = v := if_pos rfl

@[simp] theorem setReg_rip : (c.setReg r v).rip = c.rip := rfl

@[simp] theorem advance_reg : (c.advance n).reg = c.reg := rfl

theorem setReg_reg (r q : Reg) : (c.setReg r v).reg q = if q = r then v else c.reg q := rfl

end fields

/-- Up to 4 GB linear addresses are physical ones. -/
def Identity (m : Memory 32) (cr3 : BitVec 32) : Prop :=
  ∀ a : BitVec 48, a.toNat < 2 ^ 32 → ∃ p, PageTable.walk m cr3 a = .page p ∧
    p.address.toNat = a.toNat ∧ p.writable = true

/-- The processor sees the memory as it is. -/
def Cpu.Sees (c : Cpu) (m : Memory 32) : Prop :=
  c.paging = true → c.longEnabled = true ∧ Identity m c.cr3

section access
variable {m : Memory 32} {c : Cpu}

theorem canonical_of_lt {a : BitVec 64} (h : a.toNat < 2 ^ 32) : Canonical a := by
  unfold Canonical
  apply BitVec.eq_of_toNat_eq
  have hmsb : (a.setWidth 48).msb = false := by
    rw [BitVec.msb_eq_decide, BitVec.toNat_setWidth]
    exact decide_eq_false (by omega)
  rw [BitVec.signExtend_eq_setWidth_of_msb_false hmsb, BitVec.toNat_setWidth, BitVec.toNat_setWidth]
  omega

theorem physical_of_sees (h : c.Sees m) (write : Bool) {a : BitVec 64} (ha : a.toNat < 2 ^ 32) :
    c.physical m write a = some (a.setWidth 32) := by
  unfold Cpu.physical
  split
  next hp =>
    obtain ⟨hlong, hid⟩ := h hp
    have hlow : (a.setWidth 48).toNat = a.toNat := by
      rw [BitVec.toNat_setWidth]
      omega
    obtain ⟨p, hwalk, haddr, hw⟩ := hid (a.setWidth 48) (by omega)
    have hcut : p.address.setWidth 32 = a.setWidth 32 := by
      apply BitVec.eq_of_toNat_eq
      rw [BitVec.toNat_setWidth, BitVec.toNat_setWidth, haddr, hlow]
    rw [if_pos ⟨hlong, canonical_of_lt ha⟩, hwalk]
    dsimp only
    rw [if_pos ⟨by omega, fun _ => hw⟩, hcut]
  next => rfl

theorem toNat_zeroExtend (p : BitVec 32) : (p.setWidth 64).toNat = p.toNat := by
  have h := p.isLt
  rw [BitVec.toNat_setWidth]
  omega

theorem zeroExtend_add (p : BitVec 32) {k : ℕ} (h : p.toNat + k < 2 ^ 32) :
    p.setWidth 64 + BitVec.ofNat 64 k = (p + BitVec.ofNat 32 k).setWidth 64 := by
  apply BitVec.eq_of_toNat_eq
  rw [BitVec.toNat_add, toNat_zeroExtend, toNat_zeroExtend, BitVec.toNat_add, BitVec.toNat_ofNat,
    BitVec.toNat_ofNat]
  omega

@[simp] theorem cut_zeroExtend (p : BitVec 32) : (p.setWidth 64).setWidth 32 = p := by
  rw [BitVec.setWidth_setWidth_of_le _ (by decide), BitVec.setWidth_eq]

theorem access_of_sees (h : c.Sees m) (write : Bool) {p : BitVec 32} {n : ℕ}
    (hn : p.toNat + n ≤ 2 ^ 32) : c.access m write (p.setWidth 64) n = some p := by
  have hbyte : ∀ k < n, c.physical m write (p.setWidth 64 + BitVec.ofNat 64 k) =
      some (p + BitVec.ofNat 32 k) := fun k hk => by
    rw [zeroExtend_add p (by omega), physical_of_sees h write (by rw [toNat_zeroExtend]; exact BitVec.isLt _),
      cut_zeroExtend]
  unfold Cpu.access
  rw [physical_of_sees h write (by rw [toNat_zeroExtend]; exact p.isLt), cut_zeroExtend]
  dsimp only
  rw [if_pos hbyte]

/-- The segment covers the address space; in 64-bit mode every segment does. -/
def Cpu.FlatData (c : Cpu) (s : Ia32.Segment) : Prop :=
  c.long = true ∨ s.usable = true ∧ s.base = 0 ∧ s.limit = 0xffffffff

theorem linear_of_flat {s : Ia32.Segment} (hs : c.FlatData s) {p : BitVec 32} {n : ℕ}
    (hn : p.toNat + n ≤ 2 ^ 32) : c.linear s (p.setWidth 64) n = some (p.setWidth 64) := by
  unfold Cpu.linear
  split
  next => rfl
  next hlong =>
    obtain ⟨husable, hbase, hlimit⟩ := hs.resolve_left hlong
    rw [cut_zeroExtend, hlimit, hbase, if_pos ⟨husable, by simpa using hn⟩]
    exact congrArg (fun q => some (BitVec.setWidth 64 q)) (BitVec.zero_add p)

theorem read_of_flat {bits : ℕ} {s : Ia32.Segment} (h : c.Sees m) (hs : c.FlatData s) {p : BitVec 32}
    (hn : p.toNat + bits / 8 ≤ 2 ^ 32) : c.read bits m s (p.setWidth 64) = some (m.field bits p 0) := by
  unfold Cpu.read
  rw [linear_of_flat hs hn]
  dsimp only
  rw [access_of_sees h _ hn]
  rfl

theorem write_of_flat {bits : ℕ} {s : Ia32.Segment} (h : c.Sees m) (hs : c.FlatData s) {p : BitVec 32}
    (hn : p.toNat + bits / 8 ≤ 2 ^ 32) (v : BitVec bits) :
    c.write m s (p.setWidth 64) v = some ⟨p, bits / 8, v.toNat⟩ := by
  unfold Cpu.write
  rw [linear_of_flat hs hn]
  dsimp only
  rw [access_of_sees h _ hn]
  rfl

end access

/-- Only general registers, the instruction pointer and the zero flag differ. -/
def RegsOnly (c c' : Cpu) : Prop :=
  c' = { c with reg := c'.reg, rip := c'.rip, zeroFlag := c'.zeroFlag }

namespace RegsOnly
variable {c d e : Cpu}

theorem refl (c : Cpu) : RegsOnly c c := rfl

theorem trans (h : RegsOnly c d) (h' : RegsOnly d e) : RegsOnly c e := by
  unfold RegsOnly at *
  rw [h] at h'
  exact h'

theorem setReg (c : Cpu) (r : Reg) (v : BitVec 64) : RegsOnly c (c.setReg r v) := rfl

theorem advance (c : Cpu) (n : ℕ) : RegsOnly c (c.advance n) := rfl

theorem cs (h : RegsOnly c d) : d.cs = c.cs := by rw [h]

theorem ss (h : RegsOnly c d) : d.ss = c.ss := by rw [h]

theorem gdtr (h : RegsOnly c d) : d.gdtr = c.gdtr := by rw [h]

theorem cr0 (h : RegsOnly c d) : d.cr0 = c.cr0 := by rw [h]

theorem cr3 (h : RegsOnly c d) : d.cr3 = c.cr3 := by rw [h]

theorem efer (h : RegsOnly c d) : d.efer = c.efer := by rw [h]

theorem interruptFlag (h : RegsOnly c d) : d.interruptFlag = c.interruptFlag := by rw [h]

theorem longEnabled (h : RegsOnly c d) : d.longEnabled = c.longEnabled := by
  rw [h]
  rfl

theorem pae (h : RegsOnly c d) : d.pae = c.pae := by
  rw [h]
  rfl

theorem long (h : RegsOnly c d) : d.long = c.long := by
  rw [h]
  rfl

theorem cpl (h : RegsOnly c d) : d.cpl = c.cpl := by
  rw [h]
  rfl

theorem sees (h : RegsOnly c d) {m : Memory 32} (hs : c.Sees m) : d.Sees m := by
  rw [h]
  exact hs

theorem flatData (h : RegsOnly c d) {s : Ia32.Segment} (hs : c.FlatData s) : d.FlatData s := by
  rw [h]
  exact hs

end RegsOnly

/-- Code that lies ahead of the processor, in every memory in `K`. -/
structure Executes (K : Memory 32 → Prop) (c : Cpu) (p : BitVec 32) (l : List (BitVec 8)) : Prop where
  flat : c.long = true ∨ c.cs.big = true ∧ c.cs.base = 0 ∧ c.cs.limit = 0xffffffff
  rip : c.rip = p.setWidth 64
  room : p.toNat + l.length < 2 ^ 32
  code : ∀ m, K m → m.HasBytes p l
  sees : ∀ m, K m → c.Sees m

namespace Executes
variable {K : Memory 32 → Prop} {c d : Cpu} {p : BitVec 32} {i : Instr} {l : List (BitVec 8)}
  {m : Memory 32}

theorem pc (h : Executes K c p l) : c.pc = p.setWidth 64 := by
  unfold Cpu.pc
  split
  next => exact h.rip
  next hlong =>
    obtain ⟨-, hbase, -⟩ := h.flat.resolve_left hlong
    rw [hbase, h.rip, cut_zeroExtend]
    exact congrArg (BitVec.setWidth 64) (BitVec.zero_add p)

/-- The instruction that is executed next. -/
theorem step (h : Executes K c p (encode i ++ l)) (hi : i.Encodable c.long) (hm : K m) :
    Ia32e.step m c = exec m (c.advance (encode i).length) i := by
  have hroom := h.room
  rw [List.length_append] at hroom
  have hfetch : Ia32.Reads (c.fetch m) (encode i) := fun k hk => by
    unfold Cpu.fetch
    rw [h.pc, zeroExtend_add p (by omega), physical_of_sees (h.sees m hm) _
      (by rw [toNat_zeroExtend]; exact BitVec.isLt _), cut_zeroExtend]
    exact (h.code m hm).left k hk
  have hlimit : c.long = true ∨
      (c.rip.setWidth 32).toNat + (encode i).length ≤ c.cs.limit.toNat + 1 := by
    refine h.flat.imp_right fun hf => ?_
    rw [h.rip, cut_zeroExtend, hf.2.2, show (0xffffffff : BitVec 32).toNat = 2 ^ 32 - 1 from rfl]
    omega
  have haccess : (c.access m false c.pc (encode i).length).isSome = true := by
    rw [h.pc, access_of_sees (h.sees m hm) _ (by omega)]
    rfl
  unfold Ia32e.step
  rw [if_pos (h.flat.imp_right And.left), decode_encode hi hfetch]
  exact if_pos ⟨haccess, hlimit⟩

theorem advance_rip (h : Executes K c p (encode i ++ l)) :
    (c.advance (encode i).length).rip = (p + BitVec.ofNat 32 (encode i).length).setWidth 64 := by
  have hroom := h.room
  rw [List.length_append] at hroom
  unfold Cpu.advance
  dsimp only
  rw [h.rip, zeroExtend_add p (by omega)]
  split
  · rfl
  · rw [cut_zeroExtend]

/-- What lies ahead of a processor that has gone past the instruction. -/
theorem next_of (h : Executes K c p (encode i ++ l))
    (hrip : d.rip = (c.advance (encode i).length).rip)
    (hflat : d.long = true ∨ d.cs.big = true ∧ d.cs.base = 0 ∧ d.cs.limit = 0xffffffff)
    (hsees : ∀ m, K m → d.Sees m) : Executes K d (p + BitVec.ofNat 32 (encode i).length) l where
  flat := hflat
  rip := hrip.trans h.advance_rip
  room := by
    have hroom := h.room
    rw [List.length_append] at hroom
    rw [BitVec.toNat_add, BitVec.toNat_ofNat]
    omega
  code m hm := (h.code m hm).right
  sees := hsees

theorem next (h : Executes K c p (encode i ++ l)) (hc : RegsOnly (c.advance (encode i).length) d)
    (hrip : d.rip = (c.advance (encode i).length).rip) :
    Executes K d (p + BitVec.ofNat 32 (encode i).length) l := by
  refine h.next_of hrip ?_ fun m hm => hc.sees (h.sees m hm)
  have hcs : d.cs = c.cs := hc.cs
  have hlong : d.long = c.long := hc.long
  rw [hcs, hlong]
  exact h.flat

end Executes

/-- The instructions that work on general registers, whatever the memory is. -/
def Instr.Quiet : Instr → Prop
  | .pause | .rdmsr | .movImm .. | .mov .. | .xor .. | .add .. | .aluImm .. | .andEax _ | .shl .. => True
  | .shr .. | .dec _ | .bts .. | .lea .. | .movFromCr0 _ => True
  | _ => False

theorem exec_quiet {i : Instr} (hi : i.Quiet) (m m' : Memory 32) (c : Cpu) :
    exec m c i = exec m' c i := by
  cases i <;> first | rfl | exact hi.elim

theorem perform_quiet {m : Memory 32} {c c' : Cpu} {i : Instr} {w : List Store} (hi : i.Quiet)
    (h : perform m c i = some (c', w)) : w = [] ∧ RegsOnly c c' ∧ c'.rip = c.rip := by
  cases i with
  | rdmsr =>
    obtain ⟨v, -, hv⟩ := Option.map_eq_some_iff.mp h
    cases hv
    exact ⟨rfl, rfl, rfl⟩
  | aluImm op wide r imm =>
    rw [perform] at h
    split at h
    all_goals
      cases h
      exact ⟨rfl, rfl, rfl⟩
  | pause | movImm r imm | mov dst src | xor dst src | add dst src | andEax imm =>
    cases h
    exact ⟨rfl, rfl, rfl⟩
  | shl r n | shr r n | dec r | bts r n | lea r a | movFromCr0 r =>
    cases h
    exact ⟨rfl, rfl, rfl⟩
  | _ => exact hi.elim

theorem exec_quiet_effect {m : Memory 32} {c c' : Cpu} {i : Instr} {w : List Store} (hi : i.Quiet)
    (h : exec m c i = some (c', w)) : w = [] ∧ RegsOnly c c' ∧ c'.rip = c.rip := by
  unfold exec at h
  split at h
  · cases h
  · exact perform_quiet hi h

theorem exec_of_cpl {c : Cpu} (h : c.cpl = 0) (m : Memory 32) (i : Instr) :
    exec m c i = perform m c i := if_neg fun hi => hi.2 h

/-- A block of such instructions. -/
def runQuiet : List Instr → Cpu → Option Cpu
  | [], c => some c
  | i :: is, c =>
    match exec (fun _ => 0) (c.advance (encode i).length) i with
    | none => none
    | some (d, _) => runQuiet is d

theorem runQuiet_cons {i : Instr} {is : List Instr} {c d : Cpu} {w : List Store}
    (h : exec (fun _ => 0) (c.advance (encode i).length) i = some (d, w)) :
    runQuiet (i :: is) c = runQuiet is d := by
  rw [runQuiet, h]

/-- The other processors keep `K` and leave the bytes of a span alone. -/
def Rely (K : Memory 32 → Prop) (lo : BitVec 32) (n : ℕ) (m m' : Memory 32) : Prop :=
  (∀ x, InSpan lo n x → m' x = m x) ∧ (K m → K m')

theorem Rely.refl (K : Memory 32 → Prop) (lo : BitVec 32) (n : ℕ) (m : Memory 32) : Rely K lo n m m :=
  ⟨fun _ _ => rfl, id⟩

theorem Rely.trans {K : Memory 32 → Prop} {lo : BitVec 32} {n : ℕ} {m m' m'' : Memory 32}
    (h : Rely K lo n m m') (h' : Rely K lo n m' m'') : Rely K lo n m m'' :=
  ⟨fun x hx => (h'.1 x hx).trans (h.1 x hx), fun hm => h'.2 (h.2 hm)⟩

/-- A processor keeps `K` and writes only where `G` allows it. -/
def Keeps (K : Memory 32 → Prop) (G : BitVec 32 → Prop) (m m' : Memory 32) : Prop :=
  (∀ x, ¬ G x → m' x = m x) ∧ (K m → K m')

theorem unchanged_of_steps {ι : Type*} {K : Memory 32 → Prop} {G : ι → BitVec 32 → Prop}
    {m m' : Memory 32} (h : Relation.ReflTransGen (fun m m' => ∃ i, Keeps K (G i) m m') m m')
    {x : BitVec 32} (hx : ∀ i, ¬ G i x) : m' x = m x := by
  induction h with
  | refl => rfl
  | tail _ hg ih =>
    obtain ⟨i, hg⟩ := hg
    exact (hg.1 x (hx i)).trans ih

/-- The words from offset `o` on. -/
def OnStack (m : Memory 32) (lo : BitVec 32) (o : ℕ) (vs : List (BitVec 32)) : Prop :=
  ∀ i < vs.length, m.field 32 lo (o + 4 * i) = vs.getD i 0

theorem field_at (m : Memory 32) (lo : BitVec 32) (bits o : ℕ) :
    m.field bits (lo + BitVec.ofNat 32 o) 0 = m.field bits lo o := by
  unfold Memory.field
  rw [add_ofNat_ofNat, Nat.add_zero]

/-- A word is known from its bytes. -/
theorem field_of_bytes {m : Memory 32} {p : BitVec 32} {o : ℕ} {v : BitVec 64}
    (h : ∀ k < 8, m (p + BitVec.ofNat 32 (o + k)) = BitVec.ofNat 8 (v.toNat / 256 ^ k)) :
    m.field 64 p o = v := by
  have hsame : Memory.Same m (p + BitVec.ofNat 32 o) (m.setField p o v)
      (p + BitVec.ofNat 32 o) 8 := fun k hk => by
    rw [add_ofNat_ofNat, h k hk]
    unfold Memory.setField
    rw [← add_ofNat_ofNat]
    exact (Memory.store_byte m _ v.toNat (by decide) hk).symm
  have hfield : (m.setField p o v).field 64 (p + BitVec.ofNat 32 o) 0 =
      m.field 64 (p + BitVec.ofNat 32 o) 0 :=
    Memory.field_congr (n := 8) hsame.symm (by decide)
  rw [field_at, field_at, Memory.field_setField _ _ _ _ rfl (by decide)] at hfield
  exact hfield.symm

theorem byte_of_field {m : Memory 32} {p : BitVec 32} {o k : ℕ} {v : BitVec 64} (h : m.field 64 p o = v)
    (hk : k < 8) : m (p + BitVec.ofNat 32 (o + k)) = BitVec.ofNat 8 (v.toNat / 256 ^ k) := by
  have hlt : m.load (p + BitVec.ofNat 32 o) (64 / 8) < 2 ^ 64 := Memory.load_lt m _ 8
  rw [← h, ← add_ofNat_ofNat, Memory.load_byte m _ hk]
  unfold Memory.field
  rw [BitVec.toNat_ofNat, Nat.mod_eq_of_lt hlt]

theorem OnStack.rely {K : Memory 32 → Prop} {lo : BitVec 32} {n o : ℕ} {vs : List (BitVec 32)}
    {m m' : Memory 32} (h : OnStack m lo o vs) (hr : Rely K lo n m m') (hn : n ≤ 2 ^ 32)
    (ho : o + 4 * vs.length ≤ n) : OnStack m' lo o vs := fun i hi => by
  rw [← h i hi]
  exact Memory.field_congr (Memory.Same.of_unchanged hr.1 hn) (by omega)

theorem OnStack.tail {lo : BitVec 32} {o : ℕ} {v : BitVec 32} {vs : List (BitVec 32)} {m : Memory 32}
    (h : OnStack m lo o (v :: vs)) : OnStack m lo (o + 4) vs := fun i hi => by
  rw [show o + 4 + 4 * i = o + 4 * (i + 1) by omega]
  exact h (i + 1) (Nat.succ_lt_succ hi)

theorem OnStack.store {lo : BitVec 32} {n o : ℕ} {vs : List (BitVec 32)} {m : Memory 32}
    (h : OnStack m lo o vs) (ho : 4 ≤ o) (hn : n ≤ 2 ^ 32) (hvs : o + 4 * vs.length ≤ n)
    (v : BitVec 32) :
    OnStack (Store.apply m ⟨lo + BitVec.ofNat 32 (o - 4), 4, v.toNat⟩) lo (o - 4) (v :: vs) := by
  have happly : Store.apply m ⟨lo + BitVec.ofNat 32 (o - 4), 4, v.toNat⟩ = m.setField lo (o - 4) v :=
    rfl
  intro i hi
  rw [List.length_cons] at hi
  rw [happly]
  cases i with
  | zero => exact Memory.field_setField _ _ _ _ rfl (by decide)
  | succ i =>
    rw [Memory.field_setField_of_ne _ _ (by omega) (by omega) (by omega), List.getD_cons_succ,
      ← h i (by omega)]
    congr 1
    omega

section stack
variable {m : Memory 32} {c : Cpu} {lo : BitVec 32} {o : ℕ}

theorem stackOffset_short (hlong : c.long = false) (h : c.reg .rsp = (lo + BitVec.ofNat 32 o).setWidth 64)
    {d : BitVec 64} {e : ℕ} (hd : (o + d.toNat) % 2 ^ 32 = e % 2 ^ 32) :
    c.stackOffset d = (lo + BitVec.ofNat 32 e).setWidth 64 := by
  unfold Cpu.stackOffset
  rw [if_neg (by rw [hlong]; decide), h]
  congr 1
  apply BitVec.eq_of_toNat_eq
  rw [BitVec.toNat_setWidth, BitVec.toNat_add, toNat_zeroExtend, BitVec.toNat_add, BitVec.toNat_add,
    BitVec.toNat_ofNat, BitVec.toNat_ofNat]
  omega

theorem push_of_flat (hs : c.Sees m) (hss : c.FlatData c.ss) (hlong : c.long = false)
    (h : c.reg .rsp = (lo + BitVec.ofNat 32 o).setWidth 64) (ho : 4 ≤ o) (hlo : lo.toNat + o ≤ 2 ^ 32)
    (v : BitVec 64) : c.push m v =
      some (c.setReg .rsp ((lo + BitVec.ofNat 32 (o - 4)).setWidth 64),
        [⟨lo + BitVec.ofNat 32 (o - 4), 4, (v.setWidth 32).toNat⟩]) := by
  have hbits : c.stackBits = 32 := by
    unfold Cpu.stackBits
    rw [hlong]
    rfl
  have hminus : (-BitVec.ofNat 64 (32 / 8)).toNat = 2 ^ 64 - 4 := by decide
  have hsp : c.stackOffset (-BitVec.ofNat 64 (32 / 8)) = (lo + BitVec.ofNat 32 (o - 4)).setWidth 64 :=
    stackOffset_short hlong h (by rw [hminus]; omega)
  have hfit : (lo + BitVec.ofNat 32 (o - 4)).toNat + 32 / 8 ≤ 2 ^ 32 := by
    rw [BitVec.toNat_add, BitVec.toNat_ofNat]
    omega
  unfold Cpu.push
  rw [hbits, hsp]
  dsimp only
  rw [write_of_flat hs hss hfit]
  rfl

theorem pop_of_flat (hs : c.Sees m) (hss : c.FlatData c.ss) (hlong : c.long = false)
    (h : c.reg .rsp = (lo + BitVec.ofNat 32 o).setWidth 64) (hlo : lo.toNat + o + 4 ≤ 2 ^ 32) :
    c.pop m = some ((m.field 32 lo o).setWidth 64,
      c.setReg .rsp ((lo + BitVec.ofNat 32 (o + 4)).setWidth 64)) := by
  have hbits : c.stackBits = 32 := by
    unfold Cpu.stackBits
    rw [hlong]
    rfl
  have hsp : c.stackOffset 0 = (lo + BitVec.ofNat 32 o).setWidth 64 := stackOffset_short hlong h rfl
  have hsp' : c.stackOffset (BitVec.ofNat 64 (32 / 8)) = (lo + BitVec.ofNat 32 (o + 4)).setWidth 64 :=
    stackOffset_short hlong h rfl
  have hfit : (lo + BitVec.ofNat 32 o).toNat + 32 / 8 ≤ 2 ^ 32 := by
    rw [BitVec.toNat_add, BitVec.toNat_ofNat]
    omega
  unfold Cpu.pop
  rw [hbits, hsp, hsp', read_of_flat hs hss hfit, field_at]
  rfl

theorem pop_of_long (hs : c.Sees m) (hlong : c.long = true)
    (h : c.reg .rsp = (lo + BitVec.ofNat 32 o).setWidth 64) (hlo : lo.toNat + o + 8 < 2 ^ 32) :
    c.pop m = some (m.field 64 lo o, c.setReg .rsp ((lo + BitVec.ofNat 32 (o + 8)).setWidth 64)) := by
  have hbits : c.stackBits = 64 := by
    unfold Cpu.stackBits
    rw [hlong]
    rfl
  have hnat : (lo + BitVec.ofNat 32 o).toNat = lo.toNat + o := by
    rw [BitVec.toNat_add, BitVec.toNat_ofNat]
    omega
  have hsp : c.stackOffset 0 = (lo + BitVec.ofNat 32 o).setWidth 64 := by
    unfold Cpu.stackOffset
    rw [if_pos hlong, h]
    exact BitVec.add_zero _
  have hsp' : c.stackOffset (BitVec.ofNat 64 (64 / 8)) = (lo + BitVec.ofNat 32 (o + 8)).setWidth 64 := by
    unfold Cpu.stackOffset
    rw [if_pos hlong, h, zeroExtend_add _ (by rw [hnat]; omega), add_ofNat_ofNat]
  unfold Cpu.pop
  rw [hbits, hsp, hsp', read_of_flat hs (.inl hlong) (by rw [hnat]; omega), field_at]
  dsimp only [Option.map_some]
  rw [BitVec.setWidth_eq]

theorem push_of_long (hs : c.Sees m) (hlong : c.long = true)
    (h : c.reg .rsp = (lo + BitVec.ofNat 32 o).setWidth 64) (ho : 8 ≤ o) (hlo : lo.toNat + o < 2 ^ 32)
    (v : BitVec 64) : c.push m v =
      some (c.setReg .rsp ((lo + BitVec.ofNat 32 (o - 8)).setWidth 64),
        [⟨lo + BitVec.ofNat 32 (o - 8), 8, v.toNat⟩]) := by
  have hbits : c.stackBits = 64 := by
    unfold Cpu.stackBits
    rw [hlong]
    rfl
  have hnat : ∀ k ≤ o, (lo + BitVec.ofNat 32 k).toNat = lo.toNat + k := fun k hk => by
    rw [BitVec.toNat_add, BitVec.toNat_ofNat]
    omega
  have hminus : (-BitVec.ofNat 64 (64 / 8)).toNat = 2 ^ 64 - 8 := by decide
  have hsp : c.stackOffset (-BitVec.ofNat 64 (64 / 8)) = (lo + BitVec.ofNat 32 (o - 8)).setWidth 64 := by
    unfold Cpu.stackOffset
    rw [if_pos hlong, h]
    apply BitVec.eq_of_toNat_eq
    rw [BitVec.toNat_add, hminus, toNat_zeroExtend, toNat_zeroExtend, hnat o le_rfl, hnat _ (by omega)]
    omega
  unfold Cpu.push
  rw [hbits, hsp]
  dsimp only
  rw [write_of_flat hs (.inl hlong) (by rw [hnat _ (by omega)]; omega), BitVec.setWidth_eq]
  rfl

theorem exec_pop_of_long (hs : c.Sees m) (hlong : c.long = true)
    (h : c.reg .rsp = (lo + BitVec.ofNat 32 o).setWidth 64) (hlo : lo.toNat + o + 8 < 2 ^ 32) (r : Reg) :
    exec m c (.pop r) = some ((c.setReg .rsp ((lo + BitVec.ofNat 32 (o + 8)).setWidth 64)).setReg r
      (m.field 64 lo o), []) := by
  change (c.pop m).map _ = _
  rw [pop_of_long hs hlong h hlo]
  rfl

/-- A far return takes an offset and a selector off the stack. -/
theorem exec_lret_of_flat (hs : c.Sees m) (hss : c.FlatData c.ss) (hlong : c.long = false)
    (h : c.reg .rsp = (lo + BitVec.ofNat 32 o).setWidth 64) (hlo : lo.toNat + o + 8 ≤ 2 ^ 32)
    {off seg : BitVec 32} (hoff : m.field 32 lo o = off) (hseg : m.field 32 lo (o + 4) = seg) :
    exec m c .lret = ((c.setReg .rsp ((lo + BitVec.ofNat 32 (o + 4)).setWidth 64)).setReg .rsp
      ((lo + BitVec.ofNat 32 (o + 8)).setWidth 64)).returnFar m (seg.setWidth 16) off := by
  have hpop := pop_of_flat hs hss hlong h (by omega)
  have hpop' := pop_of_flat (c := c.setReg .rsp ((lo + BitVec.ofNat 32 (o + 4)).setWidth 64)) (o := o + 4)
    hs hss hlong (setReg_reg_self _ _ _) (by omega)
  have hret : exec m c .lret = perform m c .lret := if_neg And.left
  rw [hret, perform, if_neg (by rw [hlong]; decide), hpop]
  dsimp only
  rw [hpop', hoff, hseg]
  dsimp only
  rw [cut_zeroExtend, BitVec.setWidth_setWidth_of_le _ (by decide)]

theorem jump_of_long (hlong : c.long = true) (off : BitVec 32) :
    c.jump (off.setWidth 64) = some { c with rip := off.setWidth 64 } := by
  unfold Cpu.jump
  rw [if_pos hlong, if_pos (canonical_of_lt (by rw [toNat_zeroExtend]; exact off.isLt))]

/-- A call through a register in 64-bit mode. -/
theorem exec_callReg_of_long (hs : c.Sees m) (hlong : c.long = true)
    (h : c.reg .rsp = (lo + BitVec.ofNat 32 o).setWidth 64) (ho : 8 ≤ o) (hlo : lo.toNat + o < 2 ^ 32)
    {r : Reg} {off : BitVec 32} (hr : c.reg r = off.setWidth 64) : exec m c (.callReg r) =
      some ({ c.setReg .rsp ((lo + BitVec.ofNat 32 (o - 8)).setWidth 64) with rip := off.setWidth 64 },
        [⟨lo + BitVec.ofNat 32 (o - 8), 8, c.rip.toNat⟩]) := by
  have hjump := jump_of_long (c := c.setReg .rsp ((lo + BitVec.ofNat 32 (o - 8)).setWidth 64)) hlong off
  have hpush := push_of_long hs hlong h ho hlo c.rip
  have hcall : exec m c (.callReg r) = perform m c (.callReg r) := if_neg And.left
  rw [hcall, perform, hpush]
  dsimp only
  rw [hr, hjump]
  rfl

theorem disp_offset (c : Cpu) (r : Reg) (d : BitVec 8) :
    (Mem.disp r d).offset c = (c.reg32 r + d.signExtend 32).setWidth 64 := rfl

theorem signExtend_of_lt {d : BitVec 8} (hd : d.toNat < 128) :
    d.signExtend 32 = BitVec.ofNat 32 d.toNat := by
  have hmsb : d.msb = false := by
    rw [BitVec.msb_eq_decide]
    exact decide_eq_false (by omega)
  rw [BitVec.signExtend_eq_setWidth_of_msb_false hmsb]
  apply BitVec.eq_of_toNat_eq
  rw [BitVec.toNat_setWidth, BitVec.toNat_ofNat]

/-- A load from above the stack pointer. -/
theorem exec_load_of_flat (hs : c.Sees m) (hss : c.FlatData c.ss)
    (h : c.reg .rsp = (lo + BitVec.ofNat 32 o).setWidth 64) {d : BitVec 8} (hd : d.toNat < 128)
    (hlo : lo.toNat + (o + d.toNat + 4) ≤ 2 ^ 32) (r : Reg) : exec m c (.load r (.disp .rsp d)) =
      some (c.setReg32 r (m.field 32 lo (o + d.toNat)), []) := by
  have hoff : (Mem.disp .rsp d).offset c = (lo + BitVec.ofNat 32 (o + d.toNat)).setWidth 64 := by
    rw [disp_offset, Cpu.reg32, h, cut_zeroExtend, signExtend_of_lt hd, add_ofNat_ofNat]
  have hfit : (lo + BitVec.ofNat 32 (o + d.toNat)).toNat + 32 / 8 ≤ 2 ^ 32 := by
    rw [BitVec.toNat_add, BitVec.toNat_ofNat]
    omega
  change (Cpu.read 32 m c c.ss ((Mem.disp .rsp d).offset c)).map _ = _
  rw [hoff, read_of_flat hs hss hfit, field_at]
  rfl

end stack

/-- A part of the stack that belongs to one processor, and that `K` says nothing about. -/
structure Private (K : Memory 32 → Prop) (lo : BitVec 32) (n : ℕ) (G : BitVec 32 → Prop) : Prop where
  fits : lo.toNat + n < 2 ^ 32
  frame : ∀ m m', K m → (∀ x, ¬ InSpan lo n x → m' x = m x) → K m'
  allowed : ∀ x, InSpan lo n x → G x

theorem Private.apply {K : Memory 32 → Prop} {lo : BitVec 32} {n : ℕ} {G : BitVec 32 → Prop}
    (h : Private K lo n G) (m : Memory 32) {o b : ℕ} (ho : o + b ≤ n) (v : ℕ) :
    Keeps K G m (Store.apply m ⟨lo + BitVec.ofNat 32 o, b, v⟩) := by
  have hfits := h.fits
  have hout : ∀ x, ¬ InSpan lo n x → Store.apply m ⟨lo + BitVec.ofNat 32 o, b, v⟩ x = m x :=
    fun x hx => Memory.store_of_not_inSpan _ _ fun hin => hx (hin.of_offset ho (by omega))
  exact ⟨fun x hx => hout x fun hin => hx (h.allowed x hin), fun hm => h.frame _ _ hm hout⟩

namespace Reaches
variable {K : Memory 32 → Prop} {lo : BitVec 32} {n k : ℕ} {G : BitVec 32 → Prop}
  {Q : Memory 32 → Cpu → Prop} {m : Memory 32} {c d : Cpu} {p : BitVec 32} {i : Instr}
  {is : List Instr} {l : List (BitVec 8)}

/-- An instruction that stores nothing. -/
theorem silent (h : Executes K c p (encode i ++ l)) (hi : i.Encodable c.long) (hm : K m)
    (hexec : ∀ m', Rely K lo n m m' → exec m' (c.advance (encode i).length) i = some (d, []))
    (hrest : ∀ m', K m' → Rely K lo n m m' → Reaches (Rely K lo n) (Keeps K G) k Q m' d) :
    Reaches (Rely K lo n) (Keeps K G) (k + 1) Q m c := by
  intro m' hr
  have hm' := hr.2 hm
  exact ⟨m', d, act_of_step ((h.step hi hm').trans (hexec m' hr)), ⟨fun _ _ => rfl, id⟩, hrest m' hm' hr⟩

theorem quiet (h : Executes K c p (assemble is ++ l)) (hi : ∀ i ∈ is, i.Quiet ∧ i.Encodable c.long)
    (hrun : runQuiet is c = some d) (hm : K m)
    (hrest : ∀ m', K m' → Rely K lo n m m' →
      Executes K d (p + BitVec.ofNat 32 (assemble is).length) l → RegsOnly c d →
        Reaches (Rely K lo n) (Keeps K G) k Q m' d) :
    Reaches (Rely K lo n) (Keeps K G) (is.length + k) Q m c := by
  induction is generalizing c p m with
  | nil =>
    cases hrun
    rw [List.length_nil, Nat.zero_add]
    exact hrest m hm (.refl K lo n m) (by simpa using h) (.refl _)
  | cons i is ih =>
    rw [List.length_cons, Nat.add_right_comm]
    rw [assemble_cons, List.append_assoc] at h
    obtain ⟨hq, henc⟩ := hi i List.mem_cons_self
    rw [runQuiet] at hrun
    split at hrun
    next => cases hrun
    next f w hf =>
      obtain ⟨rfl, hregs, hrip⟩ := exec_quiet_effect hq hf
      have hcf : RegsOnly c f := RegsOnly.trans (d := c.advance (encode i).length) rfl hregs
      refine silent h henc hm (fun m' _ => (exec_quiet hq _ _ _).trans hf) fun m₁ hm₁ hr => ?_
      refine ih (h.next hregs hrip) (fun j hj => ?_) hrun hm₁ fun m₂ hm₂ hr₂ hx hregs₂ => ?_
      · rw [hcf.long]
        exact hi j (List.mem_cons_of_mem i hj)
      · rw [add_ofNat_ofNat] at hx
        rw [assemble_cons, List.length_append] at hrest
        exact hrest m₂ hm₂ (hr.trans hr₂) hx (hcf.trans hregs₂)

variable {o : ℕ} {vs : List (BitVec 32)} {v : BitVec 64}

/-- An instruction that pushes a double word on the processor's own stack. -/
theorem pushing (hp : Private K lo n G) (h : Executes K c p (encode i ++ l)) (hi : i.Encodable c.long)
    (hlong : c.long = false) (hss : c.FlatData c.ss)
    (hpush : ∀ m, exec m (c.advance (encode i).length) i = (c.advance (encode i).length).push m v)
    (hm : K m) (hrsp : c.reg .rsp = (lo + BitVec.ofNat 32 o).setWidth 64) (ho : 4 ≤ o)
    (hvs : o + 4 * vs.length ≤ n) (hst : OnStack m lo o vs)
    (hrest : ∀ m' c', K m' → OnStack m' lo (o - 4) (v.setWidth 32 :: vs) →
      Executes K c' (p + BitVec.ofNat 32 (encode i).length) l → RegsOnly c c' →
      c'.reg .rsp = (lo + BitVec.ofNat 32 (o - 4)).setWidth 64 → (∀ r, r ≠ .rsp → c'.reg r = c.reg r) →
        Reaches (Rely K lo n) (Keeps K G) k Q m' c') :
    Reaches (Rely K lo n) (Keeps K G) (k + 1) Q m c := by
  have hfits := hp.fits
  intro m' hr
  have hm' := hr.2 hm
  have hst' := hst.rely hr (by omega) hvs
  have hexec := (h.step hi hm').trans ((hpush m').trans
    (push_of_flat (c := c.advance (encode i).length) (h.sees m' hm') hss hlong hrsp ho (by omega) v))
  have hkeeps := hp.apply m' (o := o - 4) (b := 4) (by omega) (v.setWidth 32).toNat
  have hregs := RegsOnly.setReg (c.advance (encode i).length) .rsp
    ((lo + BitVec.ofNat 32 (o - 4)).setWidth 64)
  refine ⟨_, _, act_of_step hexec, hkeeps, ?_⟩
  rw [applyAll_singleton]
  refine hrest _ _ (hkeeps.2 hm') (hst'.store ho (by omega) hvs _) (h.next hregs (setReg_rip _ _ _))
    ((RegsOnly.advance c _).trans hregs) (setReg_reg_self _ _ _) fun r hr => ?_
  rw [setReg_reg, if_neg hr, advance_reg]

/-- A block of pushes. -/
theorem pushes (hp : Private K lo n G) (rs : List Reg) (h : Executes K c p (assemble (rs.map .push) ++ l))
    (hrs : ∀ r ∈ rs, r ≠ .rsp ∧ r.ext = false) (hlong : c.long = false) (hss : c.FlatData c.ss)
    (hm : K m) (hrsp : c.reg .rsp = (lo + BitVec.ofNat 32 o).setWidth 64) (ho : 4 * rs.length ≤ o)
    (hvs : o + 4 * vs.length ≤ n) (hst : OnStack m lo o vs)
    (hrest : ∀ m' c', K m' → OnStack m' lo (o - 4 * rs.length) ((rs.map c.reg32).reverse ++ vs) →
      Executes K c' (p + BitVec.ofNat 32 (assemble (rs.map .push)).length) l → RegsOnly c c' →
      c'.reg .rsp = (lo + BitVec.ofNat 32 (o - 4 * rs.length)).setWidth 64 →
      (∀ r, r ≠ .rsp → c'.reg r = c.reg r) → Reaches (Rely K lo n) (Keeps K G) k Q m' c') :
    Reaches (Rely K lo n) (Keeps K G) (rs.length + k) Q m c := by
  induction rs generalizing c p m o vs with
  | nil =>
    rw [List.length_nil, Nat.zero_add]
    exact hrest m c hm (by simpa using hst) (by simpa using h) (.refl c) (by simpa using hrsp)
      fun r _ => rfl
  | cons r rs ih =>
    rw [List.length_cons, Nat.add_right_comm]
    rw [List.map_cons, assemble_cons, List.append_assoc] at h
    rw [List.length_cons] at ho
    obtain ⟨hne, hext⟩ := hrs r List.mem_cons_self
    refine pushing hp h (.inr hext) hlong hss (v := c.reg r) (fun m => rfl) hm hrsp (by omega) hvs hst
      fun m₁ c₁ hm₁ hst₁ hx₁ hregs₁ hrsp₁ hother₁ => ?_
    have hmap : rs.map c₁.reg32 = rs.map c.reg32 := List.map_congr_left fun q hq => by
      unfold Cpu.reg32
      rw [hother₁ q (hrs q (List.mem_cons_of_mem r hq)).1]
    refine ih hx₁ (fun q hq => hrs q (List.mem_cons_of_mem r hq)) (hregs₁.long.trans hlong)
      (by rw [hregs₁.ss]; exact hregs₁.flatData hss) hm₁ hrsp₁ (by omega)
      (by rw [List.length_cons]; omega) hst₁ fun m₂ c₂ hm₂ hst₂ hx₂ hregs₂ hrsp₂ hother₂ => ?_
    have hdepth : o - 4 - 4 * rs.length = o - 4 * (rs.length + 1) := by omega
    rw [hdepth] at hst₂ hrsp₂
    refine hrest m₂ c₂ hm₂ ?_ ?_ (hregs₁.trans hregs₂) hrsp₂ fun q hq => ?_
    · rw [List.map_cons, List.reverse_cons, List.append_assoc, ← hmap]
      exact hst₂
    · rw [List.map_cons, assemble_cons, List.length_append, ← add_ofNat_ofNat]
      exact hx₂
    · rw [hother₂ q hq, hother₁ q hq]

theorem field_rely {m' : Memory 32} (hp : Private K lo n G) (hr : Rely K lo n m m') {bits e : ℕ}
    (he : e + bits / 8 ≤ n) : m'.field bits lo e = m.field bits lo e := by
  have hfits := hp.fits
  exact Memory.field_congr (Memory.Same.of_unchanged hr.1 (by omega)) he

/-- A block of loads of what lies above the stack pointer. -/
theorem loads (hp : Private K lo n G) (ds : List (Reg × BitVec 8))
    (h : Executes K c p (assemble (ds.map fun q => .load q.1 (.disp .rsp q.2)) ++ l))
    (hds : ∀ q ∈ ds, q.1 ≠ .rsp ∧ q.1.ext = false ∧ q.2.toNat < 128 ∧ o + q.2.toNat + 4 ≤ n)
    (hnodup : (ds.map Prod.fst).Nodup) (hlong : c.long = false) (hss : c.FlatData c.ss) (hm : K m)
    (hrsp : c.reg .rsp = (lo + BitVec.ofNat 32 o).setWidth 64)
    (hrest : ∀ m' c', K m' → Rely K lo n m m' →
      Executes K c' (p + BitVec.ofNat 32
        (assemble (ds.map fun q => .load q.1 (.disp .rsp q.2))).length) l →
      RegsOnly c c' → (∀ q ∈ ds, c'.reg q.1 = (m.field 32 lo (o + q.2.toNat)).setWidth 64) →
      (∀ r, r ∉ ds.map Prod.fst → c'.reg r = c.reg r) → Reaches (Rely K lo n) (Keeps K G) k Q m' c') :
    Reaches (Rely K lo n) (Keeps K G) (ds.length + k) Q m c := by
  induction ds generalizing c p m with
  | nil =>
    rw [List.length_nil, Nat.zero_add]
    exact hrest m c hm (.refl K lo n m) (by simpa using h) (.refl c) (by simp) fun r _ => rfl
  | cons q ds ih =>
    have hfits := hp.fits
    rw [List.length_cons, Nat.add_right_comm]
    rw [List.map_cons, assemble_cons, List.append_assoc] at h
    rw [List.map_cons, List.nodup_cons] at hnodup
    obtain ⟨hne, hext, hsmall, hin⟩ := hds q List.mem_cons_self
    obtain ⟨v, hv⟩ : ∃ v, m.field 32 lo (o + q.2.toNat) = v := ⟨_, rfl⟩
    let i : Instr := .load q.1 (.disp .rsp q.2)
    let c₁ := (c.advance (encode i).length).setReg32 q.1 v
    have hexec : ∀ m', Rely K lo n m m' → K m' →
        exec m' (c.advance (encode i).length) i = some (c₁, []) := fun m' hr hm' => by
      rw [exec_load_of_flat (c := c.advance (encode i).length) (h.sees m' hm') hss hrsp hsmall (by omega),
        field_rely hp hr hin, hv]
    have hregs : RegsOnly (c.advance (encode i).length) c₁ := RegsOnly.setReg _ _ _
    have hother : ∀ r, r ≠ q.1 → c₁.reg r = c.reg r := fun r hr => if_neg hr
    refine silent h ⟨hlong, hext, rfl⟩ hm (fun m' hr => hexec m' hr (hr.2 hm)) fun m' hm' hr => ?_
    refine ih (h.next hregs (setReg_rip _ _ _))
      (fun d hd => hds d (List.mem_cons_of_mem q hd)) hnodup.2 (hregs.long.trans hlong)
      (hregs.flatData hss) hm' ((hother .rsp hne.symm).trans hrsp)
      fun m₂ c₂ hm₂ hr₂ hx₂ hregs₂ hval₂ hother₂ => ?_
    refine hrest m₂ c₂ hm₂ (hr.trans hr₂) ?_ ((RegsOnly.advance c _).trans (hregs.trans hregs₂))
      (fun d hd => ?_) fun r hr => ?_
    · rw [List.map_cons, assemble_cons, List.length_append, ← add_ofNat_ofNat]
      exact hx₂
    · rcases List.mem_cons.mp hd with rfl | hd
      · rw [hother₂ d.1 hnodup.1, hv]
        exact setReg_reg_self _ _ _
      · rw [hval₂ d hd, field_rely hp hr (hds d (List.mem_cons_of_mem q hd)).2.2.2]
    · rw [List.map_cons, List.mem_cons, not_or] at hr
      rw [hother₂ r hr.2, hother r hr.1]

/-- A block of pops in 64-bit mode. -/
theorem pops (hp : Private K lo n G) (rs : List Reg) (h : Executes K c p (assemble (rs.map .pop) ++ l))
    (hrs : .rsp ∉ rs) (hnodup : rs.Nodup) (hlong : c.long = true) (hm : K m)
    (hrsp : c.reg .rsp = (lo + BitVec.ofNat 32 o).setWidth 64) (ho : o + 8 * rs.length ≤ n)
    (hrest : ∀ m' c', K m' → Rely K lo n m m' →
      Executes K c' (p + BitVec.ofNat 32 (assemble (rs.map .pop)).length) l → RegsOnly c c' →
      c'.reg .rsp = (lo + BitVec.ofNat 32 (o + 8 * rs.length)).setWidth 64 →
      (∀ i (hi : i < rs.length), c'.reg rs[i] = m.field 64 lo (o + 8 * i)) →
      (∀ r, r ≠ .rsp → r ∉ rs → c'.reg r = c.reg r) → Reaches (Rely K lo n) (Keeps K G) k Q m' c') :
    Reaches (Rely K lo n) (Keeps K G) (rs.length + k) Q m c := by
  induction rs generalizing c p m o with
  | nil =>
    rw [List.length_nil, Nat.zero_add]
    exact hrest m c hm (.refl K lo n m) (by simpa using h) (.refl c) (by simpa using hrsp)
      (fun i hi => absurd hi (Nat.not_lt_zero i)) fun r _ _ => rfl
  | cons r rs ih =>
    have hfits := hp.fits
    rw [List.length_cons] at ho
    rw [List.length_cons, Nat.add_right_comm]
    rw [List.map_cons, assemble_cons, List.append_assoc] at h
    rw [List.mem_cons, not_or] at hrs
    rw [List.nodup_cons] at hnodup
    let d := c.advance (encode (.pop r)).length
    let c₁ := (d.setReg .rsp ((lo + BitVec.ofNat 32 (o + 8)).setWidth 64)).setReg r (m.field 64 lo o)
    have hexec : ∀ m', Rely K lo n m m' → exec m' d (.pop r) = some (c₁, []) := fun m' hr => by
      have hm' := hr.2 hm
      rw [exec_pop_of_long (c := d) (h.sees m' hm') hlong hrsp (by omega), field_rely hp hr (by omega)]
    have hregs : RegsOnly d c₁ := (RegsOnly.setReg _ _ _).trans (RegsOnly.setReg _ _ _)
    have hother : ∀ q, q ≠ .rsp → q ≠ r → c₁.reg q = c.reg q := fun q h₁ h₂ => by
      rw [setReg_reg, if_neg h₂, setReg_reg, if_neg h₁, advance_reg]
    have hrsp₁ : c₁.reg .rsp = (lo + BitVec.ofNat 32 (o + 8)).setWidth 64 := by
      rw [setReg_reg, if_neg hrs.1, setReg_reg_self]
    refine silent h (.inl hlong) hm hexec fun m' hm' hr => ?_
    refine ih (h.next hregs (by rw [setReg_rip, setReg_rip])) hrs.2 hnodup.2 (hregs.long.trans hlong) hm' hrsp₁
      (by omega) fun m₂ c₂ hm₂ hr₂ hx₂ hregs₂ hrsp₂ hval₂ hother₂ => ?_
    refine hrest m₂ c₂ hm₂ (hr.trans hr₂) ?_ ((RegsOnly.advance c _).trans (hregs.trans hregs₂)) ?_
      (fun i hi => ?_) fun q hq hmem => ?_
    · rw [List.map_cons, assemble_cons, List.length_append, ← add_ofNat_ofNat]
      exact hx₂
    · rw [hrsp₂, List.length_cons]
      congr 3
      omega
    · cases i with
      | zero =>
        rw [List.getElem_cons_zero, hother₂ r (fun he => hrs.1 he.symm) hnodup.1]
        exact setReg_reg_self _ _ _
      | succ i =>
        rw [List.length_cons] at hi
        rw [List.getElem_cons_succ, hval₂ i (by omega), field_rely hp hr (by omega)]
        congr 1
        omega
    · rw [List.mem_cons, not_or] at hmem
      rw [hother₂ q hq hmem.2, hother q hq hmem.1]

end Reaches

end Ia32e
