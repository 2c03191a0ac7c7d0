import IkgtLoader.Flat.Record
import IkgtLoader.Ld.Load
import IkgtLoader.PreOs.Layout

/-! `starter_main`: the guest's state is saved, the loader is run, and if that fails the loader is
cleared from memory. -/
namespace IkgtLoader
open Flat

/-- The words of the structure in order. -/
def XmonDesc.ofWords (word : ℕ → BitVec 32) : XmonDesc where
  structSize := word 0
  version := word 1
  sizeInSectors := word 2
  umbrSize := word 3
  xmonMemInMb := word 4
  guestCount := word 5
  xmonlStart := word 6
  xmonlCount := word 7
  starterStart := word 8
  starterCount := word 9
  xmonLoaderStart := word 10
  xmonLoaderCount := word 11
  startapStart := word 12
  startapCount := word 13
  xmonStart := word 14
  xmonCount := word 15
  startupStart := word 16
  startupCount := word 17
  guest1Start := word 18
  guest1Count := word 19

/-- The descriptor at the beginning of the package. -/
def xmonDescAt (mem : Memory 32) (td : BitVec 32) : XmonDesc :=
  XmonDesc.ofWords fun i => mem.field 32 td (4 * i)

/-- The processor and the code that `starter_main` calls: what the two store in the guest's state,
whose layout is a matter of the hypervisor, what `cpuid` and the feature control register say, and
how the unpacked loader returns, if it does. -/
structure StarterEnv where
  saveState : Memory 32 → BitVec 32 → Memory 32
  cpuidEcx : BitVec 32
  featureControl : BitVec 64
  xmonLoader : Memory 32 → BitVec 32 → BitVec 32 → Option (Memory 32)

def checkVmxSupport (env : StarterEnv) : ℤ :=
  if env.cpuidEcx &&& 0x00000020 = 0 then -1
  else if env.featureControl &&& 0x01 ≠ 0 ∧ env.featureControl &&& 0x04 = 0 then -1
  else 0

/-- Nothing if the loader does not return. -/
def runXmonLoader (env : StarterEnv) (mem : Memory 32) (td : BitVec 32) : Option (Memory 32 × ℤ) :=
  let d := xmonDescAt mem td
  let img := td + d.xmonLoaderStart * 512
  match Ld.loadImage mem img (XMON_LOADER_BASE d td) XMON_LOADER_SIZE with
  | (s, none) => some (s.mem, -1)
  | (s, some entry) =>
    (env.xmonLoader s.mem (BitVec.ofNat 32 entry) td).map fun mem => (mem, -1)

/-- The load address, from the return address of `starter_main`. -/
def packageAddress (eip1 : BitVec 32) : BitVec 32 := (eip1 &&& 0xffffff00) - 0x400

/-- The area for the guest's state is cleared, and the state is stored in it. -/
def guestSaved (env : StarterEnv) (mem : Memory 32) (td : BitVec 32) : Memory 32 :=
  let d := xmonDescAt mem td
  let mem := mem.fill (GUEST1_BASE d td) 0 (XMON_LOADER_BASE d td - GUEST1_BASE d td).toNat
  env.saveState mem (GUEST1_BASE (xmonDescAt mem td) td)

/-- The memory with which the label `error` is reached, if it is. -/
def starterExit (env : StarterEnv) (mem : Memory 32) (td : BitVec 32) : Option (Memory 32) :=
  let mem := guestSaved env mem td
  if checkVmxSupport env ≠ 0 then some mem
  else (runXmonLoader env mem td).map Prod.fst

/-- The bytes that are cleared behind the label. -/
def cleaned (d : XmonDesc) (td : BitVec 32) : Area where
  base := td + d.xmonLoaderStart * 512
  size := XMON_LOADER_HEAP_BASE d td + XMON_LOADER_HEAP_SIZE - d.xmonLoaderStart * 512

/-- The memory in which it spins, for a package at `td`. -/
def starterFrom (env : StarterEnv) (mem : Memory 32) (td : BitVec 32) : Option (Memory 32) :=
  (starterExit env mem td).map fun mem =>
    mem.fill (cleaned (xmonDescAt mem td) td).base 0 (cleaned (xmonDescAt mem td) td).size.toNat

def starterMain (env : StarterEnv) (mem : Memory 32) (eip1 : BitVec 32) : Option (Memory 32) :=
  starterFrom env mem (packageAddress eip1)

/-- The areas up to `STARTAP_BASE + STARTAP_SIZE` end below `2^32`, and the packed loader starts in
the package. -/
structure FitsInMemory (d : XmonDesc) (td : BitVec 32) : Prop where
  loader : d.xmonLoaderStart.toNat ≤ d.guest1Start.toNat + d.guest1Count.toNat
  top : (td.toNat + (d.guest1Start.toNat + d.guest1Count.toNat) * 512 + 0x400 + 0xfff) / 4096 * 4096 +
    0x10000 + 0xa0000 + 0x3000 ≤ 2 ^ 32

section cleaning
variable {d : XmonDesc} {td : BitVec 32}

/-- The end of the loader's heap over the naturals. -/
def heapEnd (d : XmonDesc) (td : BitVec 32) : ℕ :=
  (XMON_LOADER_HEAP_BASE d td).toNat + XMON_LOADER_HEAP_SIZE.toNat

theorem toNat_XMON_LOADER_BASE (h : FitsInMemory d td) : (XMON_LOADER_BASE d td).toNat =
    (td.toNat + (d.guest1Start.toNat + d.guest1Count.toNat) * 512 + 0x400 + 0xfff) / 4096 * 4096 := by
  have htop := h.top
  unfold XMON_LOADER_BASE GUEST1_BASE XMON_PKG_SIZE
  rw [toNat_and_mask, BitVec.toNat_add, BitVec.toNat_add, BitVec.toNat_add, BitVec.toNat_mul,
    BitVec.toNat_add]
  change ((((_ + _ % _ * 512 % _) % _ + 0x400) % _ + 0xfff) % _) / _ * _ = _
  omega

theorem heapEnd_eq (h : FitsInMemory d td) : heapEnd d td =
    (td.toNat + (d.guest1Start.toNat + d.guest1Count.toNat) * 512 + 0x400 + 0xfff) / 4096 * 4096 +
      0xb0000 := by
  have htop := h.top
  unfold heapEnd XMON_LOADER_HEAP_BASE
  rw [BitVec.toNat_add, toNat_XMON_LOADER_BASE h]
  change (_ + 0x10000) % _ + 0xa0000 = _
  omega

theorem toNat_cleaned_base (h : FitsInMemory d td) :
    (cleaned d td).base.toNat = td.toNat + d.xmonLoaderStart.toNat * 512 := by
  have htop := h.top
  have hloader := h.loader
  unfold cleaned
  rw [BitVec.toNat_add, BitVec.toNat_mul]
  change (_ + _ * 512 % _) % _ = _
  omega

/-- The length is short of the load address. -/
theorem toNat_cleaned_size (h : FitsInMemory d td) :
    (cleaned d td).size.toNat = heapEnd d td - d.xmonLoaderStart.toNat * 512 := by
  have htop := h.top
  have hloader := h.loader
  have hend := heapEnd_eq h
  unfold cleaned
  rw [BitVec.toNat_sub, BitVec.toNat_mul, BitVec.toNat_add]
  change (_ - _ * 512 % _ + ((XMON_LOADER_HEAP_BASE d td).toNat + XMON_LOADER_HEAP_SIZE.toNat) % _) % _ = _
  rw [show (XMON_LOADER_HEAP_BASE d td).toNat + XMON_LOADER_HEAP_SIZE.toNat = heapEnd d td from rfl]
  omega

theorem starterFrom_of_exit {env : StarterEnv} {mem₀ mem : Memory 32}
    (h : starterExit env mem₀ td = some mem) : starterFrom env mem₀ td =
      some fun x => if InSpan (cleaned (xmonDescAt mem td) td).base
        (cleaned (xmonDescAt mem td) td).size.toNat x then 0 else mem x := by
  unfold starterFrom
  rw [h, Option.map_some]
  refine congrArg some (funext fun x => ?_)
  exact Memory.fill_apply _ _ _ _ (Nat.le_of_lt (BitVec.isLt _))

/-- At address 0 what is cleared is what is meant. -/
theorem inSpan_cleaned_zero (h : FitsInMemory d 0) (x : BitVec 32) :
    InSpan (cleaned d 0).base (cleaned d 0).size.toNat x ↔
      d.xmonLoaderStart.toNat * 512 ≤ x.toNat ∧ x.toNat < heapEnd d 0 := by
  have hbase : (cleaned d 0).base.toNat = 0 + d.xmonLoaderStart.toNat * 512 := toNat_cleaned_base h
  have hsize := toNat_cleaned_size h
  have hend := heapEnd_eq h
  have htop := h.top
  have hloader := h.loader
  rw [inSpan_iff (by omega), hbase, hsize]
  omega

/-- Elsewhere the first byte behind the heap is cleared, too. -/
theorem inSpan_cleaned_heapEnd (h : FitsInMemory d td) (htd : td ≠ 0) :
    InSpan (cleaned d td).base (cleaned d td).size.toNat (BitVec.ofNat 32 (heapEnd d td)) := by
  have hbase := toNat_cleaned_base h
  have hsize := toNat_cleaned_size h
  have hend := heapEnd_eq h
  have htop := h.top
  have hloader := h.loader
  have hpos : 0 < td.toNat := Nat.pos_of_ne_zero fun hz => htd (BitVec.eq_of_toNat_eq hz)
  unfold InSpan
  rw [BitVec.toNat_sub, toNat_ofNat_of_lt (by omega), hbase, hsize]
  omega

end cleaning

/-- The words of a descriptor. -/
def XmonDesc.words (d : XmonDesc) : List (BitVec 32) :=
  [d.structSize, d.version, d.sizeInSectors, d.umbrSize, d.xmonMemInMb, d.guestCount, d.xmonlStart,
    d.xmonlCount, d.starterStart, d.starterCount, d.xmonLoaderStart, d.xmonLoaderCount,
    d.startapStart, d.startapCount, d.xmonStart, d.xmonCount, d.startupStart, d.startupCount,
    d.guest1Start, d.guest1Count]

theorem XmonDesc.ofWords_congr {f g : ℕ → BitVec 32} (h : ∀ i < 20, f i = g i) :
    ofWords f = ofWords g := by
  unfold ofWords
  congr 1 <;> exact h _ (by decide)

/-- Any descriptor can lie in memory. -/
theorem xmonDescAt_putWords (mem : Memory 32) (td : BitVec 32) (d : XmonDesc) :
    xmonDescAt (mem.putWords td 0 d.words) td = d := by
  have hlen : d.words.length = 20 := rfl
  have hwords : xmonDescAt (mem.putWords td 0 d.words) td =
      XmonDesc.ofWords fun i => d.words.getD i 0 := by
    refine XmonDesc.ofWords_congr fun i hi => ?_
    have hin : i < d.words.length := hlen ▸ hi
    have hfield : (mem.putWords td 0 d.words).field 32 td (0 + 4 * i) = d.words[i] :=
      Memory.field_putWords mem td hin (by simp [hlen])
    rw [Nat.zero_add] at hfield
    rw [hfield, List.getD_eq_getElem _ _ hin]
  rw [hwords]
  rfl

theorem xmonDescAt_congr {mem mem' : Memory 32} {td : BitVec 32} (h : Memory.Same mem td mem' td 80) :
    xmonDescAt mem td = xmonDescAt mem' td :=
  XmonDesc.ofWords_congr fun _ hi => Memory.field_congr h (by omega)

/-- Storing the guest's state changes nothing outside the area for it. -/
def SavesInside (saveState : Memory 32 → BitVec 32 → Memory 32) : Prop :=
  ∀ mem s x, ¬ InSpan s GUEST1_SIZE.toNat x → saveState mem s x = mem x

/-- A processor without VMX. -/
def noVmx (saveState : Memory 32 → BitVec 32 → Memory 32) : StarterEnv where
  saveState := saveState
  cpuidEcx := 0
  featureControl := 0
  xmonLoader _ _ _ := none

theorem starterExit_noVmx (saveState : Memory 32 → BitVec 32 → Memory 32) (mem : Memory 32)
    (td : BitVec 32) :
    starterExit (noVmx saveState) mem td = some (guestSaved (noVmx saveState) mem td) := by
  have hvmx : checkVmxSupport (noVmx saveState) ≠ 0 := by simp [checkVmxSupport, noVmx]
  exact if_pos hvmx

section saving
variable {d : XmonDesc} {td : BitVec 32} {mem : Memory 32}

theorem toNat_GUEST1_BASE (h : FitsInMemory d td) : (GUEST1_BASE d td).toNat =
    td.toNat + (d.guest1Start.toNat + d.guest1Count.toNat) * 512 := by
  have htop := h.top
  unfold GUEST1_BASE XMON_PKG_SIZE
  rw [BitVec.toNat_add, BitVec.toNat_mul, BitVec.toNat_add]
  change (_ + _ % _ * 512 % _) % _ = _
  omega

/-- What is cleared for the guest's state ends at the loader. -/
theorem inSpan_guestArea (h : FitsInMemory d td) (x : BitVec 32) :
    InSpan (GUEST1_BASE d td) (XMON_LOADER_BASE d td - GUEST1_BASE d td).toNat x ↔
      (GUEST1_BASE d td).toNat ≤ x.toNat ∧ x.toNat < (XMON_LOADER_BASE d td).toNat := by
  have hguest := toNat_GUEST1_BASE h
  have hloader := toNat_XMON_LOADER_BASE h
  have htop := h.top
  have hsize : (XMON_LOADER_BASE d td - GUEST1_BASE d td).toNat =
      (XMON_LOADER_BASE d td).toNat - (GUEST1_BASE d td).toNat := by
    rw [BitVec.toNat_sub]
    omega
  rw [inSpan_iff (by omega), hsize]
  omega

/-- A package of one sector or more keeps its descriptor. -/
theorem guestSaved_outside {env : StarterEnv} (h : FitsInMemory d td) (hdesc : xmonDescAt mem td = d)
    (hpos : 0 < d.guest1Start.toNat + d.guest1Count.toNat) (hsave : SavesInside env.saveState)
    {x : BitVec 32}
    (hx : x.toNat < (GUEST1_BASE d td).toNat ∨ (XMON_LOADER_BASE d td).toNat ≤ x.toNat) :
    guestSaved env mem td x = mem x := by
  have hguest := toNat_GUEST1_BASE h
  have hloader := toNat_XMON_LOADER_BASE h
  have htop := h.top
  set cleared := mem.fill (GUEST1_BASE d td) 0 (XMON_LOADER_BASE d td - GUEST1_BASE d td).toNat
    with hcleared
  have hkept : ∀ y : BitVec 32,
      y.toNat < (GUEST1_BASE d td).toNat ∨ (XMON_LOADER_BASE d td).toNat ≤ y.toNat →
      cleared y = mem y := by
    intro y hy
    refine Memory.fill_of_not_inSpan _ _ fun hin => ?_
    rw [inSpan_guestArea h] at hin
    omega
  have hsame : Memory.Same cleared td mem td 80 := by
    refine Memory.Same.of_unchanged (fun y hy => hkept y (Or.inl ?_)) (by decide)
    rw [inSpan_iff (by omega)] at hy
    omega
  have hsaved : guestSaved env mem td = env.saveState cleared (GUEST1_BASE d td) := by
    unfold guestSaved
    dsimp only
    rw [hdesc, ← hcleared, xmonDescAt_congr hsame, hdesc]
  rw [hsaved, hsave _ _ _ fun hin => ?_, hkept x hx]
  rw [inSpan_iff (by change _ + 0x400 ≤ _; omega)] at hin
  change _ ∧ _ < _ + 0x400 at hin
  omega

end saving

/-- A descriptor, and behind the loader's heap a byte that is not zero. -/
def markedPackage (d : XmonDesc) (td : BitVec 32) : Memory 32 :=
  (Memory.putWords (fun _ => 0) td 0 d.words).set (BitVec.ofNat 32 (heapEnd d td)) 1

section marked
variable {d : XmonDesc} {td : BitVec 32}

theorem toNat_heapEnd (h : FitsInMemory d td) :
    (BitVec.ofNat 32 (heapEnd d td)).toNat = heapEnd d td := by
  have hend := heapEnd_eq h
  have htop := h.top
  exact toNat_ofNat_of_lt (by omega)

theorem xmonDescAt_markedPackage (h : FitsInMemory d td) :
    xmonDescAt (markedPackage d td) td = d := by
  have hend := heapEnd_eq h
  have htop := h.top
  have hx := toNat_heapEnd h
  have hput := xmonDescAt_putWords (fun _ => 0) td d
  have hsame : Memory.Same (markedPackage d td) td (Memory.putWords (fun _ => 0) td 0 d.words) td 80 := by
    refine Memory.Same.of_unchanged (fun y hy => ?_) (by decide)
    rw [inSpan_iff (by omega)] at hy
    refine Memory.set_of_ne _ _ fun hyx => ?_
    rw [hyx, hx] at hy
    omega
  rw [xmonDescAt_congr hsame, hput]

/-- The marked byte is lost unless the package lies at address 0. -/
theorem starterFrom_marked {env : StarterEnv} {mem₀ mem : Memory 32} (h : FitsInMemory d td)
    (htd : td ≠ 0) (hexit : starterExit env mem₀ td = some mem) (hdesc : xmonDescAt mem td = d) :
    ∃ mem', starterFrom env mem₀ td = some mem' ∧ mem' (BitVec.ofNat 32 (heapEnd d td)) = 0 := by
  refine ⟨_, starterFrom_of_exit hexit, ?_⟩
  rw [hdesc]
  exact if_pos (inSpan_cleaned_heapEnd h htd)

/-- A state that is stored with the descriptor in place again reaches the error exit with the mark. -/
theorem guestSaved_marked {env : StarterEnv} (h : FitsInMemory d td)
    (henv : ∀ mem s, env.saveState mem s = mem.putWords td 0 d.words) :
    xmonDescAt (guestSaved env (markedPackage d td) td) td = d ∧
      guestSaved env (markedPackage d td) td (BitVec.ofNat 32 (heapEnd d td)) = 1 := by
  have hend := heapEnd_eq h
  have hloader := toNat_XMON_LOADER_BASE h
  have htop := h.top
  have hx := toNat_heapEnd h
  have hout : ¬ InSpan td 80 (BitVec.ofNat 32 (heapEnd d td)) := by
    rw [inSpan_iff (by omega), hx]
    omega
  have hguest : ¬ InSpan (GUEST1_BASE d td) (XMON_LOADER_BASE d td - GUEST1_BASE d td).toNat
      (BitVec.ofNat 32 (heapEnd d td)) := by
    rw [inSpan_guestArea h, hx]
    omega
  unfold guestSaved
  dsimp only
  rw [henv, xmonDescAt_markedPackage h]
  refine ⟨xmonDescAt_putWords _ td d, ?_⟩
  rw [Memory.putWords_of_outside _ hout (by simp [XmonDesc.words]) (by decide),
    Memory.fill_of_not_inSpan _ _ hguest]
  exact Memory.set_same _ _ _

/-- A run in which the byte behind the heap is not cleared has its package at address 0. -/
theorem eq_zero_of_cleans (h : FitsInMemory d td)
    (hclean : ∀ env mem₀ mem, starterExit env mem₀ td = some mem → xmonDescAt mem td = d →
      starterFrom env mem₀ td = some fun x =>
        if td.toNat + d.xmonLoaderStart.toNat * 512 ≤ x.toNat ∧ x.toNat < heapEnd d td then 0
        else mem x) : td = 0 := by
  by_contra htd
  have hsave : ∀ (mem : Memory 32) (s : BitVec 32),
      (noVmx fun mem _ => mem.putWords td 0 d.words).saveState mem s = mem.putWords td 0 d.words :=
    fun _ _ => rfl
  have hexit := starterExit_noVmx (fun mem _ => mem.putWords td 0 d.words) (markedPackage d td) td
  obtain ⟨hdesc, hmark⟩ := guestSaved_marked h hsave
  obtain ⟨mem, hmem, hlost⟩ := starterFrom_marked h htd hexit hdesc
  have hrun := hclean _ _ _ hexit hdesc
  rw [hmem] at hrun
  rw [Option.some.inj hrun] at hlost
  dsimp only at hlost
  rw [if_neg (by rw [toNat_heapEnd h]; omega)] at hlost
  exact absurd (hmark.symm.trans hlost) (by decide)

end marked

/-- At address 0 the loader with its heap is cleared. -/
theorem starterFrom_zero {env : StarterEnv} {mem₀ mem : Memory 32}
    (hexit : starterExit env mem₀ 0 = some mem) (hfit : FitsInMemory (xmonDescAt mem 0) 0) :
    starterFrom env mem₀ 0 = some fun x =>
      if (0 : BitVec 32).toNat + (xmonDescAt mem 0).xmonLoaderStart.toNat * 512 ≤ x.toNat ∧
          x.toNat < heapEnd (xmonDescAt mem 0) 0 then 0
      else mem x := by
  rw [starterFrom_of_exit hexit]
  refine congrArg some (funext fun x => ?_)
  refine if_congr ?_ rfl rfl
  rw [inSpan_cleaned_zero hfit]
  simp

/-- What the error exit clears is the loader with its heap, in every run that leaves a given
descriptor in place, exactly when the package lies at address 0. Elsewhere the length lacks the load
address, and as many bytes behind the heap are cleared. -/
theorem starterFrom_cleans_iff (d : XmonDesc) (td : BitVec 32) (hfit : FitsInMemory d td) :
    (∀ env mem₀ mem, starterExit env mem₀ td = some mem → xmonDescAt mem td = d →
      starterFrom env mem₀ td = some fun x =>
        if td.toNat + d.xmonLoaderStart.toNat * 512 ≤ x.toNat ∧ x.toNat < heapEnd d td then 0
        else mem x) ↔ td = 0 := by
  refine ⟨eq_zero_of_cleans hfit, ?_⟩
  rintro rfl env mem₀ mem hexit rfl
  exact starterFrom_zero hexit hfit

/-- A package with files of a few hundred kilobytes. -/
def shippedDesc : XmonDesc := PackageFiles.xmonDesc ⟨3000, 30000, 12000, 250000⟩ 6

theorem starterFrom_cleans_shipped :
    (∀ env mem₀ mem, starterExit env mem₀ 0x10000000 = some mem →
      xmonDescAt mem 0x10000000 = shippedDesc → starterFrom env mem₀ 0x10000000 = some fun x =>
        if (0x10000000 : BitVec 32).toNat + shippedDesc.xmonLoaderStart.toNat * 512 ≤ x.toNat ∧
            x.toNat < heapEnd shippedDesc 0x10000000 then 0
        else mem x) ↔ (0x10000000 : BitVec 32) = 0 :=
  starterFrom_cleans_iff shippedDesc 0x10000000 ⟨by decide, by decide⟩

/-- At the shipped load address the first byte behind the heap is cleared with the loader, whatever
is stored in the guest's state. -/
theorem starterFrom_clears_beyond : FitsInMemory shippedDesc 0x10000000 ∧
    heapEnd shippedDesc 0x10000000 = 0x100f9000 ∧
    xmonDescAt (markedPackage shippedDesc 0x10000000) 0x10000000 = shippedDesc ∧
    markedPackage shippedDesc 0x10000000 0x100f9000#32 = 1 ∧
    ∀ saveState, SavesInside saveState → ∃ mem mem',
      starterExit (noVmx saveState) (markedPackage shippedDesc 0x10000000) 0x10000000 = some mem ∧
      xmonDescAt mem 0x10000000 = shippedDesc ∧ mem 0x100f9000#32 = 1 ∧
      starterFrom (noVmx saveState) (markedPackage shippedDesc 0x10000000) 0x10000000 = some mem' ∧
      mem' 0x100f9000#32 = 0 := by
  have hfit : FitsInMemory shippedDesc 0x10000000 := ⟨by decide, by decide⟩
  have hend : heapEnd shippedDesc 0x10000000 = 0x100f9000 := by decide
  have hdesc := xmonDescAt_markedPackage hfit
  have hmark : markedPackage shippedDesc 0x10000000 0x100f9000#32 = 1 := by
    unfold markedPackage
    rw [hend]
    exact Memory.set_same _ _ _
  refine ⟨hfit, hend, hdesc, hmark, fun saveState hsave => ?_⟩
  have hexit := starterExit_noVmx saveState (markedPackage shippedDesc 0x10000000) 0x10000000
  have hkept : ∀ x : BitVec 32, x.toNat < (GUEST1_BASE shippedDesc 0x10000000).toNat ∨
      (XMON_LOADER_BASE shippedDesc 0x10000000).toNat ≤ x.toNat →
      guestSaved (noVmx saveState) (markedPackage shippedDesc 0x10000000) 0x10000000 x =
        markedPackage shippedDesc 0x10000000 x :=
    fun x hx => guestSaved_outside hfit hdesc (by decide) hsave hx
  have hplace : xmonDescAt (guestSaved (noVmx saveState) (markedPackage shippedDesc 0x10000000)
      0x10000000) 0x10000000 = shippedDesc := by
    refine (xmonDescAt_congr (Memory.Same.of_unchanged (fun x hx => ?_) (by decide))).trans hdesc
    have hlt := (inSpan_iff (by decide)).mp hx
    exact hkept x (Or.inl (Nat.lt_of_lt_of_le hlt.2 (by decide)))
  obtain ⟨mem', hmem', hlost⟩ := starterFrom_marked hfit (by decide) hexit hplace
  rw [hend] at hlost
  exact ⟨_, mem', hexit, hplace, (hkept _ (Or.inr (by decide))).trans hmark, hmem', hlost⟩

section starterMain
variable {d : XmonDesc} {eip1 : BitVec 32}

/-- `starter_main` was called from the fifth page of 256 bytes of the package. -/
theorem packageAddress_eq_zero :
    packageAddress eip1 = 0 ↔ 0x400 ≤ eip1.toNat ∧ eip1.toNat < 0x500 := by
  have hpage : (eip1 &&& 0xffffff00).toNat = eip1.toNat / 256 * 256 :=
    toNat_and_allOnes_shiftLeft eip1 8
  have hlt := eip1.isLt
  unfold packageAddress
  rw [← BitVec.toNat_inj, BitVec.toNat_sub, hpage]
  change (2 ^ 32 - 0x400 + _) % _ = 0 ↔ _
  omega

/-- From the packed loader on it clears as many bytes as the heap has addresses below its end. -/
theorem starterMain_clears {env : StarterEnv} {mem₀ mem : Memory 32}
    (hfit : FitsInMemory d (packageAddress eip1))
    (hexit : starterExit env mem₀ (packageAddress eip1) = some mem)
    (hdesc : xmonDescAt mem (packageAddress eip1) = d) :
    starterMain env mem₀ eip1 = some fun x =>
      if InSpan (packageAddress eip1 + d.xmonLoaderStart * 512)
        (heapEnd d (packageAddress eip1) - d.xmonLoaderStart.toNat * 512) x then 0
      else mem x := by
  unfold starterMain
  rw [starterFrom_of_exit hexit, hdesc, toNat_cleaned_size hfit]
  rfl

/-- A package whose starter clears just the loader is one that was loaded at address 0. -/
theorem starterMain_cleans_iff (hfit : FitsInMemory d (packageAddress eip1)) :
    (∀ env mem₀ mem, starterExit env mem₀ (packageAddress eip1) = some mem →
      xmonDescAt mem (packageAddress eip1) = d → starterMain env mem₀ eip1 = some fun x =>
        if (packageAddress eip1).toNat + d.xmonLoaderStart.toNat * 512 ≤ x.toNat ∧
            x.toNat < heapEnd d (packageAddress eip1) then 0
        else mem x) ↔ 0x400 ≤ eip1.toNat ∧ eip1.toNat < 0x500 := by
  rw [← packageAddress_eq_zero]
  refine ⟨eq_zero_of_cleans hfit, fun h env mem₀ mem => ?_⟩
  unfold starterMain
  rw [h] at hfit ⊢
  rintro hexit rfl
  exact starterFrom_zero hexit hfit

end starterMain

end IkgtLoader
