import IkgtLoader.PreOs.Memory
import Mathlib.Data.List.Chain

/-! The package script writes sectors, the macros of `xmon_desc.h` compute addresses from
them in 32 bits. Both describe one layout. -/
namespace IkgtLoader

/-- `xmon_desc_t`. -/
structure XmonDesc where
  structSize : BitVec 32
  version : BitVec 32
  sizeInSectors : BitVec 32
  umbrSize : BitVec 32
  xmonMemInMb : BitVec 32
  guestCount : BitVec 32
  xmonlStart : BitVec 32
  xmonlCount : BitVec 32
  starterStart : BitVec 32
  starterCount : BitVec 32
  xmonLoaderStart : BitVec 32
  xmonLoaderCount : BitVec 32
  startapStart : BitVec 32
  startapCount : BitVec 32
  xmonStart : BitVec 32
  xmonCount : BitVec 32
  startupStart : BitVec 32
  startupCount : BitVec 32
  guest1Start : BitVec 32
  guest1Count : BitVec 32

/-- The sizes of the files that go into the package, in bytes. -/
structure PackageFiles where
  starter : ℕ
  xmonLoader : ℕ
  startap : ℕ
  xmon : ℕ

namespace PackageFiles

/-- `$(((s + 511) / 512))`. -/
def sectors (s : ℕ) : ℕ := (s + 511) / 512

variable (f : PackageFiles)

def starterStart : ℕ := 2

def xmonLoaderStart : ℕ := starterStart + sectors f.starter

def startApStart : ℕ := f.xmonLoaderStart + sectors f.xmonLoader

def xmonStart : ℕ := f.startApStart + sectors f.startap

def startDescStart : ℕ := f.xmonStart + sectors f.xmon

def guest0DescStart : ℕ := f.startDescStart + 1

/-- The variable `XmonDesc`, dumped as double words. -/
def xmonDesc (xmonMemSize : ℕ) : XmonDesc where
  structSize := 80
  version := 0x2000
  sizeInSectors := 1
  umbrSize := 0
  xmonMemInMb := BitVec.ofNat 32 xmonMemSize
  guestCount := 0
  xmonlStart := 0
  xmonlCount := 0
  starterStart := BitVec.ofNat 32 starterStart
  starterCount := BitVec.ofNat 32 (sectors f.starter)
  xmonLoaderStart := BitVec.ofNat 32 f.xmonLoaderStart
  xmonLoaderCount := BitVec.ofNat 32 (sectors f.xmonLoader)
  startapStart := BitVec.ofNat 32 f.startApStart
  startapCount := BitVec.ofNat 32 (sectors f.startap)
  xmonStart := BitVec.ofNat 32 f.xmonStart
  xmonCount := BitVec.ofNat 32 (sectors f.xmon)
  startupStart := BitVec.ofNat 32 f.startDescStart
  startupCount := 1
  guest1Start := BitVec.ofNat 32 f.guest0DescStart
  guest1Count := 1

/-- The bytes of the package. -/
def pkgSize : ℕ := (f.guest0DescStart + 1) * 512

/-- `XMON_BASE` for a package loaded at `td`, over the naturals. -/
def xmonBase (td : ℕ) : ℕ :=
  (td + f.pkgSize + 0x400 + 0xfff) / 4096 * 4096 + 0x10000 + 0xa0000 + 0x3000

theorem xmonBase_eq (td : ℕ) : f.xmonBase td =
    (td + f.pkgSize + 0x400 + 0xfff) / 4096 * 4096 + 0xb3000 := by
  unfold xmonBase
  omega

end PackageFiles

/-- Double words of `StartDesc` and `GuestDesc`. -/
def startDescWords : ℕ := 56

def guestDescWords : ℕ := 15

/-- A sector range of the descriptor and the size of what is written there. -/
structure Component where
  start : BitVec 32
  count : BitVec 32
  bytes : ℕ

/-- The components behind the header and the boot sector, in the order of the package. -/
def XmonDesc.components (d : XmonDesc) (f : PackageFiles) : List Component :=
  [⟨d.starterStart, d.starterCount, f.starter⟩, ⟨d.xmonLoaderStart, d.xmonLoaderCount, f.xmonLoader⟩,
    ⟨d.startapStart, d.startapCount, f.startap⟩, ⟨d.xmonStart, d.xmonCount, f.xmon⟩,
    ⟨d.startupStart, d.startupCount, 4 * startDescWords⟩,
    ⟨d.guest1Start, d.guest1Count, 4 * guestDescWords⟩]

section macros
variable (d : XmonDesc) (td : BitVec 32)

def XMON_PKG_SIZE : BitVec 32 := (d.guest1Start + d.guest1Count) * 512

def GUEST1_BASE : BitVec 32 := td + XMON_PKG_SIZE d

def GUEST1_SIZE : BitVec 32 := 0x400

def XMON_LOADER_BASE : BitVec 32 := (GUEST1_BASE d td + GUEST1_SIZE + 0xfff) &&& 0xfffff000

def XMON_LOADER_SIZE : BitVec 32 := 0x10000

def XMON_LOADER_HEAP_BASE : BitVec 32 := XMON_LOADER_BASE d td + XMON_LOADER_SIZE

def XMON_LOADER_HEAP_SIZE : BitVec 32 := 0xa0000

def STARTAP_BASE : BitVec 32 := XMON_LOADER_HEAP_BASE d td + XMON_LOADER_HEAP_SIZE

def STARTAP_SIZE : BitVec 32 := 0x3000

def XMON_BASE : BitVec 32 := STARTAP_BASE d td + STARTAP_SIZE

def XMON_SIZE : BitVec 32 := d.xmonMemInMb * 0x100000 - (XMON_BASE d td - td)

end macros

/-- A range of addresses. -/
structure Area where
  base : BitVec 32
  size : BitVec 32

def Area.Mem (a : Area) (x : ℕ) : Prop := a.base.toNat ≤ x ∧ x < a.base.toNat + a.size.toNat

/-- The areas of the memory map, from the bottom up. -/
def areas (d : XmonDesc) (td : BitVec 32) : List Area :=
  [⟨td, XMON_PKG_SIZE d⟩, ⟨GUEST1_BASE d td, GUEST1_SIZE⟩, ⟨XMON_LOADER_BASE d td, XMON_LOADER_SIZE⟩,
    ⟨XMON_LOADER_HEAP_BASE d td, XMON_LOADER_HEAP_SIZE⟩, ⟨STARTAP_BASE d td, STARTAP_SIZE⟩,
    ⟨XMON_BASE d td, XMON_SIZE d td⟩]

/-- What `load_primary_guest_kernel` asks `hide_runtime_memory` to hide. -/
def hidden (d : XmonDesc) (td : BitVec 32) : Area :=
  ⟨STARTAP_BASE d td, STARTAP_SIZE + XMON_SIZE d td⟩

/-- The descriptor and the macros agree on the layout of the `top - td` bytes from `td` on. -/
structure LaidOut (d : XmonDesc) (f : PackageFiles) (td : BitVec 32) (top : ℕ) : Prop where
  consecutive : (d.components f).IsChain fun a b => a.start.toNat + a.count.toNat = b.start.toNat
  sectors : (d.components f).Pairwise fun a b => a.start.toNat + a.count.toNat ≤ b.start.toNat
  large : ∀ c ∈ d.components f, c.bytes ≤ c.count.toNat * 512
  disjoint : (areas d td).Pairwise fun a b => ∀ x, a.Mem x → ¬ b.Mem x
  ascending : (areas d td).Pairwise fun a b => ∀ x y, a.Mem x → b.Mem y → x < y
  inside : ∀ a ∈ areas d td, ∀ x, a.Mem x → td.toNat ≤ x ∧ x < top
  aligned : ∀ a ∈ (areas d td).drop 2, a.base.toNat % 4096 = 0
  hides : ∀ x, (hidden d td).Mem x ↔ (STARTAP_BASE d td).toNat ≤ x ∧ x < top
  covers : ∀ a ∈ (areas d td).drop 4, ∀ x, a.Mem x → (hidden d td).Mem x
  spares : ∀ a ∈ (areas d td).take 4, ∀ x, a.Mem x → ¬ (hidden d td).Mem x

theorem toNat_and_mask (x : BitVec 32) : (x &&& 0xfffff000).toNat = x.toNat / 4096 * 4096 :=
  toNat_and_pageMask x

section layout
variable {f : PackageFiles} {td : BitVec 32} {xmonMemSize top : ℕ} {d : XmonDesc}

/-- The package ends below `2^32`, so its sector numbers fit into their fields. -/
theorem guest0DescStart_lt (htop : td.toNat + xmonMemSize * 2 ^ 20 ≤ 2 ^ 32)
    (hbase : f.xmonBase td.toNat ≤ td.toNat + xmonMemSize * 2 ^ 20) :
    f.guest0DescStart < 2 ^ 23 := by
  unfold PackageFiles.xmonBase PackageFiles.pkgSize at hbase
  omega

/-- The macros over the naturals; only `XMON_BASE` can reach `2^32`, and then the area behind
it is empty. -/
structure MacrosEq (f : PackageFiles) (td : BitVec 32) (top : ℕ) (d : XmonDesc) : Prop where
  pkgSize : (XMON_PKG_SIZE d).toNat = f.pkgSize
  guest1Base : (GUEST1_BASE d td).toNat = td.toNat + f.pkgSize
  loaderBase : (XMON_LOADER_BASE d td).toNat + 0xb3000 = f.xmonBase td.toNat
  heapBase : (XMON_LOADER_HEAP_BASE d td).toNat + 0xa3000 = f.xmonBase td.toNat
  startapBase : (STARTAP_BASE d td).toNat + 0x3000 = f.xmonBase td.toNat
  xmonBase : (XMON_BASE d td).toNat = f.xmonBase td.toNat % 2 ^ 32
  xmonSize : (XMON_SIZE d td).toNat = top - f.xmonBase td.toNat
  hiddenSize : (STARTAP_SIZE + XMON_SIZE d td).toNat = 0x3000 + (top - f.xmonBase td.toNat)

theorem macrosEq (htop : td.toNat + xmonMemSize * 2 ^ 20 ≤ 2 ^ 32)
    (hbase : f.xmonBase td.toNat ≤ td.toNat + xmonMemSize * 2 ^ 20) :
    MacrosEq f td (td.toNat + xmonMemSize * 2 ^ 20) (f.xmonDesc xmonMemSize) := by
  have hb := f.xmonBase_eq td.toNat
  have hpkg : f.pkgSize = f.guest0DescStart * 512 + 512 := Nat.succ_mul _ _
  have h1 : (XMON_PKG_SIZE (f.xmonDesc xmonMemSize)).toNat = f.pkgSize := by
    change ((BitVec.ofNat 32 f.guest0DescStart + 1) * 512).toNat = _
    rw [BitVec.toNat_mul, BitVec.toNat_add, BitVec.toNat_ofNat]
    change (_ + 1) % _ * 512 % _ = _
    omega
  have h2 : (GUEST1_BASE (f.xmonDesc xmonMemSize) td).toNat =
      td.toNat + f.pkgSize := by
    unfold GUEST1_BASE
    rw [BitVec.toNat_add, h1]
    omega
  have h3 : (XMON_LOADER_BASE (f.xmonDesc xmonMemSize) td).toNat + 0xb3000 =
      f.xmonBase td.toNat := by
    unfold XMON_LOADER_BASE
    rw [toNat_and_mask, BitVec.toNat_add, BitVec.toNat_add, h2]
    change ((_ + 0x400) % _ + 0xfff) % _ / _ * _ + _ = _
    omega
  have h4 : (XMON_LOADER_HEAP_BASE (f.xmonDesc xmonMemSize) td).toNat + 0xa3000 =
      f.xmonBase td.toNat := by
    unfold XMON_LOADER_HEAP_BASE
    rw [BitVec.toNat_add]
    change (_ + 0x10000) % _ + _ = _
    omega
  have h5 : (STARTAP_BASE (f.xmonDesc xmonMemSize) td).toNat + 0x3000 = f.xmonBase td.toNat := by
    unfold STARTAP_BASE
    rw [BitVec.toNat_add]
    change (_ + 0xa0000) % _ + _ = _
    omega
  have h6 : (XMON_BASE (f.xmonDesc xmonMemSize) td).toNat = f.xmonBase td.toNat % 2 ^ 32 := by
    unfold XMON_BASE
    rw [BitVec.toNat_add, ← h5]
    rfl
  have h7 : (XMON_SIZE (f.xmonDesc xmonMemSize) td).toNat =
      td.toNat + xmonMemSize * 2 ^ 20 - f.xmonBase td.toNat := by
    unfold XMON_SIZE
    rw [BitVec.toNat_sub, BitVec.toNat_sub, BitVec.toNat_mul, h6]
    change (_ + (BitVec.ofNat 32 xmonMemSize).toNat * 2 ^ 20 % _) % _ = _
    rw [BitVec.toNat_ofNat]
    omega
  refine ⟨h1, h2, h3, h4, h5, h6, h7, ?_⟩
  rw [BitVec.toNat_add, h7]
  change (0x3000 + _) % _ = _
  omega

open PackageFiles in
/-- The values that the script dumps, read back from the descriptor. -/
theorem components_eq (hlt : f.guest0DescStart < 2 ^ 23) (xmonMemSize : ℕ) :
    ((f.xmonDesc xmonMemSize).components f).map (fun c => (c.start.toNat, c.count.toNat, c.bytes)) =
      [(2, sectors f.starter, f.starter), (f.xmonLoaderStart, sectors f.xmonLoader, f.xmonLoader),
        (f.startApStart, sectors f.startap, f.startap), (f.xmonStart, sectors f.xmon, f.xmon),
        (f.startDescStart, 1, 224), (f.guest0DescStart, 1, 60)] := by
  have h1 : f.guest0DescStart = f.startDescStart + 1 := rfl
  have h2 : f.startDescStart = f.xmonStart + sectors f.xmon := rfl
  have h3 : f.xmonStart = f.startApStart + sectors f.startap := rfl
  have h4 : f.startApStart = f.xmonLoaderStart + sectors f.xmonLoader := rfl
  have h5 : f.xmonLoaderStart = 2 + sectors f.starter := rfl
  have hof : ∀ n : ℕ, n ≤ f.guest0DescStart → (BitVec.ofNat 32 n).toNat = n := fun n hn =>
    Flat.toNat_ofNat_of_lt (by omega)
  unfold XmonDesc.components xmonDesc starterStart
  simp only [List.map_cons, List.map_nil]
  rw [hof _ (by omega), hof _ (by omega), hof _ (by omega), hof _ (by omega), hof _ (by omega),
    hof _ (by omega), hof _ (by omega), hof _ (by omega), hof _ (by omega), hof _ (by omega)]
  rfl

theorem PackageFiles.le_sectors (s : ℕ) : s ≤ sectors s * 512 := by
  unfold sectors
  omega

open PackageFiles in
/-- A list of six components in a row. -/
theorem components_laidOut (hlt : f.guest0DescStart < 2 ^ 23) (xmonMemSize : ℕ) :
    ((f.xmonDesc xmonMemSize).components f).IsChain
        (fun a b => a.start.toNat + a.count.toNat = b.start.toNat) ∧
      ((f.xmonDesc xmonMemSize).components f).Pairwise
        (fun a b => a.start.toNat + a.count.toNat ≤ b.start.toNat) ∧
      ∀ c ∈ (f.xmonDesc xmonMemSize).components f, c.bytes ≤ c.count.toNat * 512 := by
  have heq := components_eq hlt xmonMemSize
  have h1 : f.guest0DescStart = f.startDescStart + 1 := rfl
  have h2 : f.startDescStart = f.xmonStart + sectors f.xmon := rfl
  have h3 : f.xmonStart = f.startApStart + sectors f.startap := rfl
  have h4 : f.startApStart = f.xmonLoaderStart + sectors f.xmonLoader := rfl
  have h5 : f.xmonLoaderStart = 2 + sectors f.starter := rfl
  refine ⟨?_, ?_, ?_⟩
  · have hc := List.isChain_map (R := fun a b : ℕ × ℕ × ℕ => a.1 + a.2.1 = b.1)
      (fun c : Component => (c.start.toNat, c.count.toNat, c.bytes))
      (l := (f.xmonDesc xmonMemSize).components f)
    refine hc.mp ?_
    rw [heq]
    simp only [List.isChain_cons_cons, List.isChain_singleton, and_true]
    exact ⟨h5.symm, h4.symm, h3.symm, h2.symm, h1.symm⟩
  · have hp := List.pairwise_map (R := fun a b : ℕ × ℕ × ℕ => a.1 + a.2.1 ≤ b.1)
      (f := fun c : Component => (c.start.toNat, c.count.toNat, c.bytes))
      (l := (f.xmonDesc xmonMemSize).components f)
    refine hp.mp ?_
    rw [heq]
    simp only [List.pairwise_cons, List.mem_cons, List.not_mem_nil, or_false, forall_eq_or_imp,
      forall_eq, List.Pairwise.nil, IsEmpty.forall_iff, implies_true, and_true]
    omega
  · have hm := List.forall_mem_map (P := fun a : ℕ × ℕ × ℕ => a.2.2 ≤ a.2.1 * 512)
      (f := fun c : Component => (c.start.toNat, c.count.toNat, c.bytes))
      (l := (f.xmonDesc xmonMemSize).components f)
    refine hm.mp ?_
    rw [heq]
    simp only [List.mem_cons, List.not_mem_nil, or_false, forall_eq_or_imp, forall_eq]
    exact ⟨le_sectors _, le_sectors _, le_sectors _, le_sectors _, by decide, by decide⟩

/-- The addresses of the areas over the naturals. -/
theorem mem_areas_iff (h : MacrosEq f td top d) (htop : top ≤ 2 ^ 32)
    (hbase : f.xmonBase td.toNat ≤ top) :
    (∀ x, (Area.mk td (XMON_PKG_SIZE d)).Mem x ↔
      td.toNat ≤ x ∧ x < td.toNat + f.pkgSize) ∧
    (∀ x, (Area.mk (GUEST1_BASE d td) GUEST1_SIZE).Mem x ↔
      td.toNat + f.pkgSize ≤ x ∧
        x < td.toNat + f.pkgSize + 0x400) ∧
    (∀ x, (Area.mk (XMON_LOADER_BASE d td) XMON_LOADER_SIZE).Mem x ↔
      f.xmonBase td.toNat ≤ x + 0xb3000 ∧ x + 0xa3000 < f.xmonBase td.toNat) ∧
    (∀ x, (Area.mk (XMON_LOADER_HEAP_BASE d td) XMON_LOADER_HEAP_SIZE).Mem x ↔
      f.xmonBase td.toNat ≤ x + 0xa3000 ∧ x + 0x3000 < f.xmonBase td.toNat) ∧
    (∀ x, (Area.mk (STARTAP_BASE d td) STARTAP_SIZE).Mem x ↔
      f.xmonBase td.toNat ≤ x + 0x3000 ∧ x < f.xmonBase td.toNat) ∧
    (∀ x, (Area.mk (XMON_BASE d td) (XMON_SIZE d td)).Mem x ↔
      f.xmonBase td.toNat ≤ x ∧ x < top) := by
  obtain ⟨h1, h2, h3, h4, h5, h6, h7, _⟩ := h
  have hs : GUEST1_SIZE.toNat = 0x400 ∧ XMON_LOADER_SIZE.toNat = 0x10000 ∧
      XMON_LOADER_HEAP_SIZE.toNat = 0xa0000 ∧ STARTAP_SIZE.toNat = 0x3000 := by decide
  obtain ⟨s1, s2, s3, s4⟩ := hs
  unfold Area.Mem
  dsimp only
  rw [h1, h2, h6, h7, s1, s2, s3, s4]
  refine ⟨fun x => Iff.rfl, fun x => Iff.rfl, fun x => ?_, fun x => ?_, fun x => ?_, fun x => ?_⟩
  · omega
  · omega
  · omega
  · -- at `2^32` the base wraps, but then nothing is left
    omega

theorem aligned_of_add {a b k : ℕ} (h : a + k = b) (hb : b % 4096 = 0) (hk : k % 4096 = 0) :
    a % 4096 = 0 := by
  omega

/-- Whatever the sizes of the files and the load address, as long as the memory that is asked
for holds the areas below the monitor. -/
theorem laidOut (f : PackageFiles) (td : BitVec 32) (xmonMemSize : ℕ)
    (htop : td.toNat + xmonMemSize * 2 ^ 20 ≤ 2 ^ 32)
    (hbase : f.xmonBase td.toNat ≤ td.toNat + xmonMemSize * 2 ^ 20) :
    LaidOut (f.xmonDesc xmonMemSize) f td (td.toNat + xmonMemSize * 2 ^ 20) := by
  obtain ⟨hchain, hpair, hlarge⟩ := components_laidOut (guest0DescStart_lt htop hbase) xmonMemSize
  have hm := macrosEq htop hbase
  obtain ⟨m1, m2, m3, m4, m5, m6⟩ := mem_areas_iff hm htop hbase
  have hb := f.xmonBase_eq td.toNat
  have hhide : ∀ x, (hidden (f.xmonDesc xmonMemSize) td).Mem x ↔
      f.xmonBase td.toNat ≤ x + 0x3000 ∧ x < td.toNat + xmonMemSize * 2 ^ 20 := by
    intro x
    have hsize := hm.hiddenSize
    have hstart := hm.startapBase
    unfold hidden Area.Mem
    dsimp only
    rw [hsize]
    omega
  have hascending : (areas (f.xmonDesc xmonMemSize) td).Pairwise
      fun a b => ∀ x y, a.Mem x → b.Mem y → x < y := by
    unfold areas
    simp only [List.pairwise_cons, List.mem_cons, List.not_mem_nil, or_false, forall_eq_or_imp,
      forall_eq, List.Pairwise.nil, IsEmpty.forall_iff, implies_true, and_true, m1, m2, m3, m4, m5, m6]
    generalize f.xmonBase td.toNat = base at hb ⊢
    and_intros <;> intro x y hx hy <;> omega
  refine ⟨hchain, hpair, hlarge, ?_, hascending, ?_, ?_, ?_, ?_, ?_⟩
  · exact hascending.imp fun h x ha hb => lt_irrefl x (h x x ha hb)
  · unfold areas
    simp only [List.mem_cons, List.not_mem_nil, or_false, forall_eq_or_imp, forall_eq,
      m1, m2, m3, m4, m5, m6]
    generalize f.xmonBase td.toNat = base at hb hbase ⊢
    and_intros <;> intro x hx <;> omega
  · unfold areas
    simp only [List.drop_succ_cons, List.drop_zero, List.mem_cons, List.not_mem_nil, or_false,
      forall_eq_or_imp, forall_eq]
    obtain ⟨_, _, h3, h4, h5, h6, _⟩ := hm
    have hz : f.xmonBase td.toNat % 4096 = 0 := by omega
    rw [h6, Nat.mod_mod_of_dvd _ (by decide)]
    exact ⟨aligned_of_add h3 hz (by decide), aligned_of_add h4 hz (by decide),
      aligned_of_add h5 hz (by decide), hz⟩
  · intro x
    have hstart := hm.startapBase
    rw [hhide]
    omega
  · unfold areas
    simp only [List.drop_succ_cons, List.drop_zero, List.mem_cons, List.not_mem_nil, or_false,
      forall_eq_or_imp, forall_eq, hhide, m5, m6]
    constructor <;> intro x hx <;> omega
  · unfold areas
    simp only [List.take_succ_cons, List.take_zero, List.mem_cons, List.not_mem_nil, or_false,
      forall_eq_or_imp, forall_eq, hhide, m1, m2, m3, m4]
    generalize f.xmonBase td.toNat = base at hb ⊢
    and_intros <;> intro x hx <;> omega

/-- The shipped load address and memory size, with files of a few hundred kilobytes. -/
theorem laidOut_shipped :
    LaidOut (PackageFiles.xmonDesc ⟨3000, 30000, 12000, 250000⟩ 6) ⟨3000, 30000, 12000, 250000⟩
      0x10000000 0x10600000 :=
  laidOut ⟨3000, 30000, 12000, 250000⟩ 0x10000000 6 (by decide) (by decide)

end layout

end IkgtLoader
