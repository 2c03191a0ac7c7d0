import IkgtLoader.PreOs.Init64

/-! How the processors get from `start_application` into the image of 64 bits. -/
namespace IkgtLoader.StartAp
open Flat Ia32e

/-- `application_params_struct_t`. -/
structure ApplicationParams where
  anyData1 : BitVec 32
  anyData2 : BitVec 32
  anyData3 : BitVec 32
  ep : BitVec 64

/-- As `startap_main` fills it. -/
def applicationParams (pStartup entryPoint : BitVec 32) : ApplicationParams where
  anyData1 := pStartup
  anyData2 := 0
  anyData3 := 0
  ep := entryPoint.setWidth 64

/-- What `start_application` calls last: the image of 32 bits, or `start_64bit_mode`. -/
inductive Callee
  | image (ep : BitVec 32)
  | start64bitMode
  deriving DecidableEq

/-- `start_application` up to its last call, with the arguments of this call. -/
def startApplication (gpInit64 : Option Init64Struct) (cpuId : BitVec 32) (params : ApplicationParams)
    (c : Cpu) : Option (Cpu × Callee × List (BitVec 32)) :=
  match gpInit64 with
  | none =>
    some (c, .image (params.ep.setWidth 32),
      [cpuId, params.anyData1, params.anyData2, params.anyData3])
  | some d =>
    (x32Init64Start c d).map fun c => (c, .start64bitMode,
      [params.ep.setWidth 32, d.i64Cs.setWidth 32, cpuId, params.anyData1, params.anyData2, params.anyData3])

/-- Protected mode with flat segments, as the processors have it until then. -/
structure FlatProtected (c : Cpu) : Prop where
  protectedMode : c.cr0.getLsbD 0 = true
  noPaging : c.paging = false
  cs : c.cs.big = true ∧ c.cs.base = 0 ∧ c.cs.limit = 0xffffffff ∧ c.cs.long = false
  ss : c.ss.usable = true ∧ c.ss.base = 0 ∧ c.ss.limit = 0xffffffff
  cpl : c.cpl = 0

theorem x32Init64Start_prepared {b c : Cpu} {d : Init64Struct} (hb : FlatProtected b)
    (he : d.i64Efer = 0) (h : x32Init64Start b d = some c) :
    Prepared c ∧ c.gdtr = d.i64Gdtr ∧ c.cr3 = d.i64Cr3 := by
  have hpae : (b.cr4 ||| (PAE_BIT ||| PSE_BIT)).getLsbD 5 = true := by
    rw [BitVec.getLsbD_or, show (PAE_BIT ||| PSE_BIT).getLsbD 5 = true by decide, Bool.or_true]
  have hefer : (0 : BitVec 64) &&& ~~~0x400#64 &&& ~~~0xd01#64 = 0 := by decide
  unfold x32Init64Start Cpu.writeMsr at h
  dsimp only at h
  rw [if_pos rfl, he, if_pos ⟨by decide, fun hp => absurd (hb.noPaging.symm.trans hp) (by decide)⟩] at h
  cases h
  exact ⟨⟨hb.protectedMode, hb.noPaging, hb.cs, hb.ss, hb.cpl, hpae, hefer⟩, rfl, rfl⟩

/-- The registers and the stack at the entry of a function in 32-bit code; the state that does not
belong to general registers is that of the caller. -/
structure Calls (m : Memory 32) (p esp : BitVec 32) (args : List (BitVec 32)) (b c : Cpu) : Prop where
  regs : RegsOnly b c
  rip : c.rip = p.setWidth 64
  rsp : c.reg .rsp = esp.setWidth 64
  args : OnStack m esp 4 args

/-- The part of the stack that `start_64bit_mode` reads and writes. -/
def frameLow (esp : BitVec 32) : BitVec 32 := (esp &&& 0xfffffff8#32) - 40#32

def frameBytes (esp : BitVec 32) : ℕ := 68 + esp.toNat % 8

def InFrame (esp x : BitVec 32) : Prop := InSpan (frameLow esp) (frameBytes esp) x

/-- The bytes in `S` are as they were, but for one that may have been marked. -/
structure Kept (S : BitVec 32 → Prop) (a : BitVec 32) (m₀ m : Memory 32) : Prop where
  same : ∀ x, S x → x ≠ a → m x = m₀ x
  marked : m a = m₀ a ∨ m a = m₀ a ||| 1

theorem mark_self (m : Memory 32) (a : BitVec 32) : mark m a a = m a ||| 1 := by
  unfold mark Store.apply
  rw [Memory.store, Memory.store, Memory.set_same]
  simp

namespace Kept
variable {S : BitVec 32 → Prop} {a : BitVec 32} {m₀ m m' : Memory 32}

theorem refl (S : BitVec 32 → Prop) (a : BitVec 32) (m : Memory 32) : Kept S a m m :=
  ⟨fun _ _ _ => rfl, .inl rfl⟩

theorem of_unchanged (h : Kept S a m₀ m) (hS : ∀ x, S x → m' x = m x) (ha : m' a = m a) :
    Kept S a m₀ m' := by
  refine ⟨fun x hx hne => (hS x hx).trans (h.same x hx hne), ?_⟩
  rw [ha]
  exact h.marked

theorem mark (h : Kept S a m₀ m) : Kept S a m₀ (mark m a) := by
  refine ⟨fun x hx hne => (mark_of_ne m hne).trans (h.same x hx hne), .inr ?_⟩
  rw [mark_self]
  rcases h.marked with h | h
  · rw [h]
  · rw [h, BitVec.or_assoc, BitVec.or_self]

end Kept

section kept
variable {S : BitVec 32 → Prop} {m₀ m : Memory 32} {page : BitVec 32} {o : ℕ}

/-- The descriptor that `x32_gdt64_setup` makes, marked or not. -/
theorem Kept.longCode (h : Kept S (page + BitVec.ofNat 32 (o + 5)) m₀ m)
    (hS : ∀ k < 8, S (page + BitVec.ofNat 32 (o + k)))
    (h₀ : m₀.field 64 page o = codeHi ++ (0 : BitVec 32)) : LongCode (m.field 64 page o) := by
  have hother : ∀ k < 8, k ≠ 5 → m (page + BitVec.ofNat 32 (o + k)) =
      BitVec.ofNat 8 ((codeHi ++ (0 : BitVec 32)).toNat / 256 ^ k) := fun k hk hne => by
    rw [← byte_of_field h₀ hk]
    refine h.same _ (hS k hk) fun he => hne ?_
    have hnat := congrArg (fun x => (x - (page + BitVec.ofNat 32 o)).toNat) he
    rwa [← add_ofNat_ofNat, ← add_ofNat_ofNat, toNat_add_ofNat_sub _ (by omega),
      toNat_add_ofNat_sub _ (by decide)] at hnat
  have hsame : ∀ k < 8, k ≠ 5 → BitVec.ofNat 8 ((codeHi ++ (0 : BitVec 32)).toNat / 256 ^ k) =
      BitVec.ofNat 8 (((0x00a09f00 : BitVec 32) ++ (0 : BitVec 32)).toNat / 256 ^ k) := by decide
  have hbyte := byte_of_field h₀ (by decide : 5 < 8)
  have hfield : m.field 64 page o = codeHi ++ (0 : BitVec 32) ∨
      m.field 64 page o = (0x00a09f00 : BitVec 32) ++ (0 : BitVec 32) := by
    refine h.marked.imp (fun hm => field_of_bytes fun k hk => ?_) fun hm => field_of_bytes fun k hk => ?_
    · rcases eq_or_ne k 5 with rfl | hne
      · rw [hm, hbyte]
      · exact hother k hk hne
    · rcases eq_or_ne k 5 with rfl | hne
      · rw [hm, hbyte]
        decide
      · rw [hother k hk hne, hsame k hk hne]
  rcases hfield with hfield | hfield
  · rw [hfield]
    exact ⟨by decide, by decide, by decide, by decide, by decide, by decide⟩
  · rw [hfield]
    exact ⟨by decide, by decide, by decide, by decide, by decide, by decide⟩

end kept

/-- The frame lies within the address space. -/
structure FrameFits (esp : BitVec 32) : Prop where
  low : 40 ≤ esp.toNat / 8 * 8
  high : esp.toNat + 28 < 2 ^ 32

namespace FrameFits
variable {esp : BitVec 32}

theorem toNat_frameLow (h : FrameFits esp) : (frameLow esp).toNat = esp.toNat / 8 * 8 - 40 := by
  have hlow := h.low
  have hlt := esp.isLt
  unfold frameLow
  rw [BitVec.toNat_sub, toNat_and_eight]
  simp
  omega

theorem frameLow_add (h : FrameFits esp) : frameLow esp + BitVec.ofNat 32 (40 + esp.toNat % 8) = esp := by
  have hlow := h.low
  have hlt := esp.isLt
  apply BitVec.eq_of_toNat_eq
  rw [BitVec.toNat_add, h.toNat_frameLow, BitVec.toNat_ofNat]
  omega

theorem room (h : FrameFits esp) : (frameLow esp).toNat + frameBytes esp < 2 ^ 32 := by
  have hlow := h.low
  have hhigh := h.high
  rw [h.toNat_frameLow, frameBytes]
  omega

end FrameFits

/-- What `start_64bit_mode` finds in the memory and keeps. -/
structure Surroundings (S : BitVec 32 → Prop) (a : BitVec 32) (m₀ : Memory 32) (d : Init64Struct)
    (p : BitVec 32) : Prop where
  identity : ∀ m, Kept S a m₀ m → Identity m d.i64Cr3
  descriptor : ∀ m, Kept S a m₀ m →
    LongCode (m.field 64 d.i64Gdtr.base (8 * Ia32.Selector.index d.i64Cs))
  code : ∀ m, Kept S a m₀ m → m.HasBytes p (start64bitModeText p)
  selects : Selects d.i64Gdtr d.i64Cs
  mark : markOf d.i64Gdtr d.i64Cs = a
  room : p.toNat + 80 < 2 ^ 32
  efer : d.i64Efer = 0

/-- A processor that has been called in the image of 64 bits. -/
structure InImage (d : Init64Struct) (esp entryPoint cpuId pStartup returnAddress : BitVec 32)
    (m : Memory 32) (c : Cpu) : Prop where
  entered : Entered (frameLow esp) entryPoint cpuId pStartup 0 0 returnAddress m c
  selector : c.cs.selector = d.i64Cs
  masked : c.interruptFlag = false
  gdtr : c.gdtr = d.i64Gdtr
  cr3 : c.cr3 = d.i64Cr3

theorem InImage.rely {K : Memory 32 → Prop} {d : Init64Struct}
    {esp entryPoint cpuId pStartup returnAddress : BitVec 32} {m m' : Memory 32} {c : Cpu}
    (h : InImage d esp entryPoint cpuId pStartup returnAddress m c)
    (hr : Rely K (frameLow esp) (frameBytes esp) m m') :
    InImage d esp entryPoint cpuId pStartup returnAddress m' c := by
  have hfield : m'.field 64 (frameLow esp) 8 = m.field 64 (frameLow esp) 8 := by
    have hle : frameBytes esp ≤ 2 ^ 32 := by
      unfold frameBytes
      omega
    exact Memory.field_congr (Memory.Same.of_unchanged hr.1 hle) (by unfold frameBytes; omega)
  have hent := h.entered
  refine { h with entered := { hent with returnAddress := ?_ } }
  rw [hfield]
  exact hent.returnAddress

/-- A processor in `start_application` comes to the image, among others that keep its surroundings. -/
theorem startApplication_enters {S : BitVec 32 → Prop} {a : BitVec 32} {m₀ m : Memory 32}
    {d : Init64Struct} {p esp cpuId pStartup entryPoint : BitVec 32} {b b' c : Cpu}
    {args : List (BitVec 32)} (h : Surroundings S a m₀ d p) (hfit : FrameFits esp)
    (hout : ∀ x, InFrame esp x → ¬ S x ∧ x ≠ a) (hb : FlatProtected b)
    (hstart : startApplication (some d) cpuId (applicationParams pStartup entryPoint) b =
      some (b', .start64bitMode, args))
    (hcall : Calls m p esp args b' c) (hm : Kept S a m₀ m) :
    Reaches (Rely (Kept S a m₀) (frameLow esp) (frameBytes esp))
      (Keeps (Kept S a m₀) fun x => InFrame esp x ∨ x = a) 33
      (InImage d esp entryPoint cpuId pStartup (p + BitVec.ofNat 32 80)) m c := by
  obtain ⟨b'', hinit, heq⟩ := Option.map_eq_some_iff.mp hstart
  cases heq
  obtain ⟨hprep, hgdtr, hcr3⟩ := x32Init64Start_prepared hb h.efer hinit
  have hc := hprep.of_regsOnly hcall.regs
  rw [← hcall.regs.gdtr] at hgdtr
  rw [← hcall.regs.cr3] at hcr3
  have hp : Private (Kept S a m₀) (frameLow esp) (frameBytes esp) fun x => InFrame esp x ∨ x = a := {
    fits := hfit.room
    frame := fun m m' hm hu => hm.of_unchanged (fun x hx => hu x fun hin => (hout x hin).1 hx)
      (hu a fun hin => (hout a hin).2 rfl)
    allowed := fun x hx => .inl hx }
  have halign : (frameLow esp).toNat % 8 = 0 := by
    rw [hfit.toNat_frameLow]
    omega
  have hrsp : c.reg .rsp = (frameLow esp + BitVec.ofNat 32 (40 + esp.toNat % 8)).setWidth 64 := by
    rw [hfit.frameLow_add]
    exact hcall.rsp
  have hargs : OnStack m (frameLow esp) (44 + esp.toNat % 8) _ := fun i hi => by
    have harg := hcall.args i hi
    rw [← hfit.frameLow_add, ← field_at, add_ofNat_ofNat, field_at] at harg
    rw [← harg]
    congr 1
    omega
  have hep : ((entryPoint.setWidth 64).setWidth 32) = entryPoint := cut_zeroExtend entryPoint
  refine Parallel.Leads.mono (start64bitMode_enters hp (Nat.mod_lt _ (by decide)) halign hc
    (fun m hm => hcr3 ▸ h.identity m hm) (hgdtr ▸ h.selects) (fun m hm => hgdtr ▸ h.descriptor m hm)
    (fun m hm => ?_) ?_ ?_ h.code h.room hcall.rip hm hrsp hargs) fun m' c' hend => ?_
  · rw [hgdtr, h.mark]
    exact hm.mark
  · rw [hgdtr, h.mark]
    exact .inr rfl
  · rw [hgdtr, h.mark]
    exact fun hin => (hout a hin).2 rfl
  · obtain ⟨-, hent, hsel, hif, hcr3', hgdtr'⟩ := hend
    have hep : (applicationParams pStartup entryPoint).ep.setWidth 32 = entryPoint :=
      cut_zeroExtend entryPoint
    rw [hep] at hent
    exact ⟨hent, hsel, hif, hgdtr'.trans hgdtr, hcr3'.trans hcr3⟩

/-- The processors are numbered from the first one on, which has started the others. -/
def cpuNumber {k : ℕ} : Option (Fin k) → BitVec 32
  | none => 0
  | some i => BitVec.ofNat 32 (i + 1)

/-- The text of `start_64bit_mode`, and the pages that `setupInit64` has taken from the heap. -/
def Guarded (s : Machine) (p x : BitVec 32) : Prop :=
  (∃ j < 7, InSpan (pageAt s j) PageTable.tableSize x) ∨ InSpan p 80 x

/-- The processors at the entry of `start_64bit_mode`. Each of the others is on the stack that
`xmon_loader` has allocated for it, and the first one is on a stack outside the heap. -/
structure Started {k : ℕ} (s : Machine) (tops : ℕ → BitVec 32) (tables : Memory 32) (d : Init64Struct)
    (p pStartup entryPoint : BitVec 32) (esp : Option (Fin k) → BitVec 32) (c : Option (Fin k) → Cpu)
    (m : Memory 32) : Prop where
  pages : ∀ j < 7, ∀ x, InSpan (pageAt s j) PageTable.tableSize x → m x = tables x
  code : m.HasBytes p (start64bitModeText p)
  room : p.toNat + 80 < 2 ^ 32
  codeApart : ∀ j < 7, Apart p 80 (pageAt s j) PageTable.tableSize
  fits : ∀ i, FrameFits (esp i)
  frames : ∀ i, Apart (frameLow (esp i)) (frameBytes (esp i)) p 80
  called : ∀ i, ∃ b b' args, FlatProtected b ∧
    startApplication (some d) (cpuNumber i) (applicationParams pStartup entryPoint) b =
      some (b', .start64bitMode, args) ∧ Calls m p (esp i) args b' (c i)
  others : ∀ i x, InFrame (esp (some i)) x → InSpan (tops i - 8192) 8192 x
  first : ∀ x, InFrame (esp none) x → (∀ i : Fin k, ¬ InSpan (tops i - 8192) 8192 x) ∧
    ∀ j < 7, ¬ InSpan (pageAt s j) PageTable.tableSize x

section selector
variable {c : ℕ}

theorem index_ofNat (hc : c < 2 ^ 13) : Ia32.Selector.index (BitVec.ofNat 16 (c * 8)) = c := by
  unfold Ia32.Selector.index
  rw [BitVec.toNat_ofNat]
  omega

/-- The selector of a slot other than the first one. -/
theorem selects_ofNat {t : Ia32.TableReg} (hpos : 1 ≤ c) (hlimit : 8 * c + 7 ≤ t.limit.toNat)
    (hroom : t.base.toNat + 8 * c + 8 ≤ 2 ^ 32) : Selects t (BitVec.ofNat 16 (c * 8)) := by
  have hlt := t.limit.isLt
  have hc : c < 2 ^ 13 := by omega
  have hnat : (BitVec.ofNat 16 (c * 8)).toNat = c * 8 := by
    rw [BitVec.toNat_ofNat]
    omega
  have hindex := index_ofNat hc
  constructor
  case notNull =>
    unfold Ia32.Selector.null
    rw [beq_eq_false_iff_ne]
    intro h0
    have h := congrArg BitVec.toNat h0
    rw [BitVec.toNat_ushiftRight, hnat, Nat.shiftRight_eq_div_pow] at h
    change c * 8 / 4 = 0 at h
    omega
  case rpl =>
    apply BitVec.eq_of_toNat_eq
    unfold Ia32.Selector.rpl
    rw [BitVec.extractLsb'_toNat, hnat, Nat.shiftRight_eq_div_pow]
    change c * 8 / 1 % 4 = 0
    omega
  case global =>
    unfold Ia32.Selector.local?
    rw [BitVec.getLsbD, hnat, Nat.testBit_eq_decide_div_mod_eq, decide_eq_false_iff_not]
    omega
  case inside => rwa [hindex]
  case room => rwa [hindex]

end selector

section started
variable {k c : ℕ} {s t : Machine} {tops : ℕ → BitVec 32} {limit : BitVec 16} {d : Init64Struct}
  {p pStartup entryPoint : BitVec 32} {esp : Option (Fin k) → BitVec 32} {cs : Option (Fin k) → Cpu}
  {m : Memory 32}

/-- The byte of the new descriptor that is marked. -/
theorem markOf_init64 (h : Init64At s t limit c d) (hc : c < 2 ^ 13) :
    markOf d.i64Gdtr d.i64Cs = pageAt s 0 + BitVec.ofNat 32 (8 * c + 5) := by
  unfold markOf
  rw [h.gdtr, h.selector, index_ofNat hc]

/-- What the loader has set up is what `start_64bit_mode` needs. -/
theorem Started.surroundings (h : Started s tops t.mem d p pStartup entryPoint esp cs m)
    (hd : Init64At s t limit c d) (hpos : 1 ≤ c) (hlimit : 8 * c + 7 ≤ (limit + 16).toNat)
    (hpage : 8 * c + 8 ≤ 4096) : Surroundings (Guarded s p) (markOf d.i64Gdtr d.i64Cs) m d p := by
  have hmark := markOf_init64 hd (by omega)
  have hin : InSpan (pageAt s 0) PageTable.tableSize (markOf d.i64Gdtr d.i64Cs) := by
    rw [hmark, inSpan_add_ofNat (by omega)]
    unfold PageTable.tableSize
    omega
  have hselects : Selects d.i64Gdtr d.i64Cs := by
    have hdvd := dvd_pageAt s 0
    have hlt := (pageAt s 0).isLt
    rw [hd.gdtr, hd.selector]
    exact selects_ofNat hpos hlimit (by dsimp only; omega)
  have hdesc : m.field 64 (pageAt s 0) (8 * c) = codeHi ++ (0 : BitVec 32) := by
    rw [← hd.code]
    exact Memory.field_congr (n := 4096) (Memory.Same.of_unchanged (h.pages 0 (by decide)) (by decide))
      (by omega)
  refine {
    identity := fun m' hm => hd.identity m' fun j hj x hx => ?_
    descriptor := fun m' hm => ?_
    code := fun m' hm => h.code.of_unchanged (fun x hx => ?_) (by rw [length_start64bitModeText]; decide)
    selects := hselects
    mark := rfl
    room := h.room
    efer := hd.efer }
  · rw [hm.same x (.inl ⟨1 + j, by omega, hx⟩) fun he => ?_, h.pages (1 + j) (by omega) x hx]
    rw [he] at hx
    exact pageAt_apart_of_lt s (by omega : 0 < 1 + j) (by omega) _ hin hx
  · rw [hmark] at hm
    rw [hd.gdtr, hd.selector, index_ofNat (by omega)]
    refine hm.longCode (fun i hi => .inl ⟨0, by decide, ?_⟩) hdesc
    rw [inSpan_add_ofNat (by omega)]
    unfold PageTable.tableSize
    omega
  · rw [length_start64bitModeText] at hx
    refine hm.same x (.inr hx) fun he => ?_
    rw [he] at hx
    exact h.codeApart 0 (by decide) _ hx hin

section blocks
variable {s₀ : Machine} {n : ℕ} {old : ℕ → BitVec 32}

/-- The blocks of the stacks and the pages behind them, from where the first stack begins. -/
theorem block_eq (hs : allocStacks s₀ old n = some (s, tops)) {i : ℕ} (hi : i < n) :
    tops i - 8192 = BitVec.ofNat 32 (stackBase s₀) + BitVec.ofNat 32 (8192 * i) := by
  rw [(allocStacks_some hs).1 i hi, ← BitVec.ofNat_add]
  apply BitVec.eq_of_toNat_eq
  rw [BitVec.toNat_sub, BitVec.toNat_ofNat, BitVec.toNat_ofNat]
  change (2 ^ 32 - 8192 + _) % _ = _
  omega

theorem page_eq (hs : allocStacks s₀ old n = some (s, tops)) (j : ℕ) :
    pageAt s j = BitVec.ofNat 32 (stackBase s₀) + BitVec.ofNat 32 (8192 * n + j * 4096) := by
  unfold pageAt PageTable.tableSize
  rw [(allocStacks_some hs).2.2, ← BitVec.ofNat_add, ← BitVec.ofNat_add, Nat.add_assoc]

theorem Started.frames_apart (h : Started s tops t.mem d p pStartup entryPoint esp cs m)
    (hs : allocStacks s₀ old n = some (s, tops)) (hk : k ≤ n) (hn : n < 256) {i j : Option (Fin k)}
    (hij : i ≠ j) {x : BitVec 32} (hi : InFrame (esp i) x) : ¬ InFrame (esp j) x := by
  intro hj
  match i, j with
  | none, none => exact hij rfl
  | none, some j => exact (h.first x hi).1 j (h.others j x hj)
  | some i, none => exact (h.first x hj).1 i (h.others i x hi)
  | some i, some j =>
    have hne : (i : ℕ) ≠ j := fun he => hij (congrArg some (Fin.ext he))
    have hi' := h.others i x hi
    have hj' := h.others j x hj
    rw [block_eq hs (by omega)] at hi' hj'
    exact apart_offset (by omega) (by omega) (by omega) x hi' hj'

theorem Started.frame_not_page (h : Started s tops t.mem d p pStartup entryPoint esp cs m)
    (hs : allocStacks s₀ old n = some (s, tops)) (hk : k ≤ n) (hn : n < 256) {i : Option (Fin k)}
    {x : BitVec 32} (hi : InFrame (esp i) x) : ∀ j < 7, ¬ InSpan (pageAt s j) PageTable.tableSize x := by
  intro j hj hin
  cases i with
  | none => exact (h.first x hi).2 j hj hin
  | some i =>
    have hi' := h.others i x hi
    rw [block_eq hs (by omega)] at hi'
    rw [page_eq hs] at hin
    unfold PageTable.tableSize at hin
    exact apart_offset (by omega) (by omega) (by omega) x hi' hin

end blocks

end started

/-- Words on a stack, the first one lowest. -/
def pushWords (m : Memory 32) (esp : BitVec 32) (o : ℕ) : List (BitVec 32) → Memory 32
  | [] => m
  | v :: vs => Store.apply (pushWords m esp (o + 4) vs) ⟨esp + BitVec.ofNat 32 o, 4, v.toNat⟩

theorem pushWords_onStack (m : Memory 32) (esp : BitVec 32) {o n : ℕ} {vs : List (BitVec 32)}
    (hn : n ≤ 2 ^ 32) (hvs : o + 4 * vs.length ≤ n) : OnStack (pushWords m esp o vs) esp o vs := by
  induction vs generalizing o with
  | nil => exact fun i hi => absurd hi (Nat.not_lt_zero i)
  | cons v vs ih =>
    rw [List.length_cons] at hvs
    exact (ih (by omega)).store (Nat.le_add_left 4 o) hn (by omega) v

theorem pushWords_of_not_inSpan (m : Memory 32) {esp x : BitVec 32} {o n : ℕ} {vs : List (BitVec 32)}
    (hn : n ≤ 2 ^ 32) (hvs : o + 4 * vs.length ≤ n) (hx : ¬ InSpan esp n x) :
    pushWords m esp o vs x = m x := by
  induction vs generalizing o with
  | nil => rfl
  | cons v vs ih =>
    rw [List.length_cons] at hvs
    have hout : ¬ InSpan (esp + BitVec.ofNat 32 o) 4 x := fun hin => hx (hin.of_offset (by omega) hn)
    exact (Memory.store_of_not_inSpan _ _ hout).trans (ih (by omega))

/-- A processor in flat protected mode, and the same one in `start_64bit_mode`. -/
def loaderCpu : Cpu where
  reg := fun _ => 0
  rip := 0
  zeroFlag := false
  interruptFlag := true
  cs := ⟨0x10, 0, 0xffffffff, true, false⟩
  ss := ⟨0x18, 0, 0xffffffff, true, true⟩
  ds := ⟨0x18, 0, 0xffffffff, true, true⟩
  gdtr := ⟨0, 0⟩
  idtr := ⟨0, 0⟩
  cr0 := 0x11
  cr3 := 0
  cr4 := 0
  efer := 0
  apicBase := 0xfee00900

def calledCpu (d : Init64Struct) (esp : BitVec 32) : Cpu :=
  { loaderCpu with
    reg := fun r => if r = .rsp then esp.setWidth 64 else 0
    rip := 0x3000
    gdtr := d.i64Gdtr
    cr3 := d.i64Cr3
    cr4 := 0x30 }

/-- One stack is allocated, in a heap of 1 MB. -/
def oneStack : Machine := (monPageAlloc dirtyMachine 2).1

def twoStackPointers : Option (Fin 1) → BitVec 32
  | none => 0x9000
  | some _ => 0x101f00

def callArgs (d : Init64Struct) (cpuId : BitVec 32) : List (BitVec 32) :=
  [0x200000, d.i64Cs.setWidth 32, cpuId, 0x4000, 0, 0]

/-- The text of `start_64bit_mode` and two calls of it. -/
def calledMemory (m : Memory 32) (d : Init64Struct) : Memory 32 :=
  pushWords (pushWords (m.putBytes 0x3000 (start64bitModeText 0x3000)) 0x9000 4 (callArgs d 0))
    0x101f00 4 (callArgs d 1)

/-- The one stack pointer in `init32`. -/
def oneTop : ℕ → BitVec 32 := Function.update (fun _ => 0) 0 0x102000

theorem block_oneTop : oneTop 0 - 8192 = 0x100000 := by decide

theorem allocStacks_one : allocStacks dirtyMachine (fun _ => 0) (numOfAps 0x20000) =
    some (oneStack, oneTop) := by
  have hn : numOfAps 0x20000 = 1 := by decide
  have hbuf : (monPageAlloc dirtyMachine 2).2 = 0x100000 := by decide
  rw [hn, allocStacks, allocStacks]
  dsimp only
  rw [hbuf, if_neg (by decide)]
  rfl

theorem toNat_page {j : ℕ} (hj : j < 7) : (pageAt oneStack j).toNat = 0x102000 + j * 4096 := by
  have hbase : stackBase dirtyMachine = 0x100000 := by decide
  have hn : numOfAps 0x20000 = 1 := by decide
  rw [page_eq allocStacks_one, hbase, hn, BitVec.toNat_add, BitVec.toNat_ofNat, BitVec.toNat_ofNat]
  omega

theorem calledMemory_of_not_inSpan (m : Memory 32) (d : Init64Struct) {x : BitVec 32}
    (h₁ : ¬ InSpan 0x3000 80 x) (h₂ : ¬ InSpan 0x9000 28 x) (h₃ : ¬ InSpan 0x101f00 28 x) :
    calledMemory m d x = m x := by
  unfold calledMemory
  rw [pushWords_of_not_inSpan _ (n := 28) (by decide) (by simp [callArgs]) h₃,
    pushWords_of_not_inSpan _ (n := 28) (by decide) (by simp [callArgs]) h₂]
  exact Memory.putBytes_of_not_inSpan _ (by rwa [length_start64bitModeText])

theorem frame_two (i : Option (Fin 1)) : (twoStackPointers i = 0x9000 ∧ i = none ∨
    twoStackPointers i = 0x101f00 ∧ i = some 0) := by
  match i with
  | none => exact .inl ⟨rfl, rfl⟩
  | some 0 => exact .inr ⟨rfl, rfl⟩

/-- The two frames, as intervals. -/
theorem inFrame_two {esp x : BitVec 32} (h : esp = 0x9000 ∨ esp = 0x101f00) :
    InFrame esp x ↔ esp.toNat - 40 ≤ x.toNat ∧ x.toNat < esp.toNat + 28 := by
  have hlow : (frameLow esp).toNat = esp.toNat - 40 ∧ frameBytes esp = 68 ∧ 40 ≤ esp.toNat ∧
      esp.toNat + 28 ≤ 2 ^ 32 := by
    rcases h with rfl | rfl <;> decide
  unfold InFrame
  rw [inSpan_iff (by omega), hlow.1, hlow.2.1]
  omega

theorem calledMemory_args (m : Memory 32) (d : Init64Struct) (i : Option (Fin 1)) :
    OnStack (calledMemory m d) (twoStackPointers i) 4 (callArgs d (cpuNumber i)) := by
  have hlen : ∀ v, 4 + 4 * (callArgs d v).length = 28 := fun v => rfl
  match i with
  | none =>
    have hargs := pushWords_onStack (m.putBytes 0x3000 (start64bitModeText 0x3000)) 0x9000 (o := 4) (n := 28)
      (by decide) (hlen 0).le
    intro j hj
    refine Eq.trans ?_ (hargs j hj)
    refine Memory.field_congr (n := 28) (Memory.Same.of_unchanged (fun x hx => ?_) (by decide)) ?_
    · refine pushWords_of_not_inSpan _ (n := 28) (by decide) (hlen 1).le fun h => ?_
      exact apart_of_le (by decide) (by decide) x hx h
    · have hle := hlen (cpuNumber (k := 1) none)
      omega
  | some 0 => exact pushWords_onStack _ 0x101f00 (o := 4) (n := 28) (by decide) (hlen 1).le

theorem started_two (m : Memory 32) {d : Init64Struct} (hd : d.i64Efer = 0) :
    Started oneStack oneTop m d 0x3000 0x4000 0x200000
      twoStackPointers (fun i => calledCpu d (twoStackPointers i)) (calledMemory m d) := by
  have hesp : ∀ i, twoStackPointers i = 0x9000 ∨ twoStackPointers i = 0x101f00 := fun i =>
    (frame_two i).imp And.left And.left
  have hpage : ∀ j < 7, ∀ x, InSpan (pageAt oneStack j) PageTable.tableSize x → 0x102000 ≤ x.toNat :=
    fun j hj x hx => by
      have hnat := toNat_page hj
      rw [inSpan_iff (by unfold PageTable.tableSize; omega)] at hx
      omega
  have hspan : ∀ (a x : BitVec 32) n, a.toNat + n ≤ 0x102000 → InSpan a n x → x.toNat < 0x102000 :=
    fun a x n ha hx => by
      rw [inSpan_iff (by omega)] at hx
      omega
  refine {
    pages := fun j hj x hx => ?_
    code := ?_
    room := by decide
    codeApart := fun j hj x hx hin => ?_
    fits := fun i => ?_
    frames := fun i x hx hin => ?_
    called := fun i => ?_
    others := fun i x hx => ?_
    first := fun x hx => ?_ }
  · have hlow := hpage j hj x hx
    refine calledMemory_of_not_inSpan m d (fun h => ?_) (fun h => ?_) fun h => ?_
    · exact absurd (hspan _ _ _ (by decide) h) (by omega)
    · exact absurd (hspan _ _ _ (by decide) h) (by omega)
    · exact absurd (hspan _ _ _ (by decide) h) (by omega)
  · have hput := Memory.hasBytes_putBytes m (0x3000 : BitVec 32) (l := start64bitModeText 0x3000)
      (by rw [length_start64bitModeText]; decide)
    refine hput.of_unchanged (fun x hx => ?_) (by rw [length_start64bitModeText]; decide)
    rw [length_start64bitModeText] at hx
    unfold calledMemory
    rw [pushWords_of_not_inSpan _ (n := 28) (by decide) (by simp [callArgs]) fun h => ?_,
      pushWords_of_not_inSpan _ (n := 28) (by decide) (by simp [callArgs]) fun h => ?_]
    · exact apart_of_le (by decide) (by decide) x hx h
    · exact apart_of_le (by decide) (by decide) x hx h
  · exact absurd (hspan _ _ _ (by decide) hx) (by have := hpage j hj x hin; omega)
  · rcases hesp i with h | h <;> rw [h] <;> exact ⟨by decide, by decide⟩
  · change InFrame (twoStackPointers i) x at hx
    rw [inFrame_two (hesp i)] at hx
    rw [inSpan_iff (by decide)] at hin
    have hcode : (0x3000 : BitVec 32).toNat = 0x3000 := by decide
    rcases hesp i with h | h <;> rw [h] at hx <;> simp at hx hin <;> omega
  · refine ⟨loaderCpu, { calledCpu d 0 with reg := loaderCpu.reg, rip := loaderCpu.rip }, callArgs d (cpuNumber i),
      ?_, ?_, rfl, rfl, rfl, calledMemory_args m d i⟩
    · exact ⟨by decide, by decide, by decide, by decide, by decide⟩
    · unfold startApplication x32Init64Start Cpu.writeMsr
      dsimp only
      rw [if_pos rfl, hd, if_pos ⟨by decide, fun h => absurd (show loaderCpu.paging = true from h) (by decide)⟩]
      rfl
  · obtain rfl : i = 0 := Subsingleton.elim i 0
    rw [inFrame_two (hesp _)] at hx
    have htop : (twoStackPointers (some 0)).toNat = 0x101f00 := by decide
    change InSpan (oneTop 0 - 8192) 8192 x
    rw [block_oneTop, inSpan_iff (by decide)]
    rw [htop] at hx
    change 0x100000 ≤ _ ∧ _ < 0x100000 + 8192
    omega
  · rw [inFrame_two (hesp _)] at hx
    have htop : (twoStackPointers none).toNat = 0x9000 := by decide
    rw [htop] at hx
    refine ⟨fun i hin => ?_, fun j hj hin => ?_⟩
    · obtain rfl : i = 0 := Subsingleton.elim i 0
      change InSpan (oneTop 0 - 8192) 8192 x at hin
      rw [block_oneTop, inSpan_iff (by decide)] at hin
      change 0x100000 ≤ _ ∧ _ < 0x100000 + 8192 at hin
      omega
    · have hlow := hpage j hj x hin
      omega

end IkgtLoader.StartAp
