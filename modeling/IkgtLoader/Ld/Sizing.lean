import Mathlib.Order.Bounds.Basic
import IkgtLoader.Ld.WriteBounds

/-! Whether the size that is reported covers what is written. One loop over the program headers
takes the least and the greatest address, another copies to where the headers say. -/
namespace IkgtLoader.Ld
open Flat Loop

/-- `load_size` of `get_image_info`, in unsigned 64-bit arithmetic. -/
def ElfLoadInfo.loadSize (info : ElfLoadInfo) : ℕ :=
  wrap64 (info.endAddr + (2 ^ 64 - info.startAddr))

/-- Every byte of a write lies in the window. -/
def InWindow (dest : BitVec 32) (size : ℕ) (p : BitVec 32) (n : ℕ) : Prop :=
  ∀ k < n, InSpan dest size (p + BitVec.ofNat 32 k)

/-- The headers that count. -/
def loadables (ph : ℕ → Phdr) (n : ℕ) : Set Phdr := {q | q.Loadable ∧ ∃ i < n, ph i = q}

/-- The copies stay in a window of the size that was reported, and the window begins and ends
where a segment does. -/
structure Sized (c : ElfClass) (s : Loader) (ia : MemImageAccess) (info : ElfLoadInfo)
    (dest : BitVec 32) : Prop where
  writes : (loadSegments c s ia (info.relocate dest)).All
    (fun t => WritesIn (InWindow dest info.loadSize) t.1)
    (fun t => WritesIn (InWindow dest info.loadSize) t.1)
    (fun t => WritesIn (InWindow dest info.loadSize) t.1)
  start : ∃ q ∈ loadables (filePhdr c s.mem ia) (phdrCount c s.mem ia), info.startAddr = q.pPaddr
  finish : ∃ q ∈ loadables (filePhdr c s.mem ia) (phdrCount c s.mem ia),
    info.endAddr = q.pPaddr + q.pMemsz

/-- The least address and the greatest end of the headers that count, where an end is cut to the
width of an address and the greatest is one that was not cut. -/
structure Hull (c : ElfClass) (ph : ℕ → Phdr) (n low high : ℕ) : Prop where
  least : IsLeast (Phdr.pPaddr '' loadables ph n) low
  greatest : IsGreatest ((fun q => c.wrap (q.pPaddr + q.pMemsz)) '' loadables ph n) high
  whole : ∃ q ∈ loadables ph n, high = q.pPaddr + q.pMemsz

/-- A range at a distance below `2 ^ 32` ends below the size. -/
def InLength (size offset length : ℕ) : Prop :=
  length = 0 ∨ 2 ^ 32 ≤ size ∨ offset + length ≤ size

/-- The part from the file, as far as it is read, and the zeros behind a complete read end
before `low + size`; the distance from `low` and the lengths are cut to 32 bits. -/
def Phdr.Within (ia : MemImageAccess) (low size : ℕ) : Phdr → Prop :=
  SegmentWrites (fun addr n => InLength size (linkOffset low addr) n) ia

/-- A greatest end is not cut, and no loadable header that the copying loop reads names bytes
beyond it. -/
def HullCovers (c : ElfClass) (s : Loader) (ia : MemImageAccess) (dest : BitVec 32) : Prop :=
  ∃ low high, Hull c (filePhdr c s.mem ia) (phdrCount c s.mem ia) low high ∧
    RoundsOk (Phdr.Within ia low (high - low)) c s ia (wrap64 (dest.toNat + (2 ^ 64 - low)))

section window
variable {dest : BitVec 32} {size : ℕ}

theorem inWindow_iff {offset n : ℕ} (ho : offset < 2 ^ 32) :
    InWindow dest size (dest + BitVec.ofNat 32 offset) n ↔ InLength size offset n := by
  have hval : ∀ k, (dest + BitVec.ofNat 32 offset + BitVec.ofNat 32 k - dest).toNat =
      (offset + k) % 2 ^ 32 := by
    intro k
    rw [add_ofNat_ofNat, BitVec.add_comm, BitVec.add_sub_cancel, BitVec.toNat_ofNat]
  unfold InWindow InSpan InLength
  simp only [hval]
  constructor
  · intro h
    by_contra hne
    -- the first byte, or else the first one behind the window
    have h0 := h 0
    have h1 := h (size - offset)
    omega
  · rintro (h0 | hs | h1) k hk
    · omega
    · omega
    · have hm := Nat.mod_le (offset + k) (2 ^ 32)
      omega

theorem segmentOk_inWindow (ia : MemImageAccess) (low : ℕ) :
    SegmentOk (InWindow dest size) ia (wrap64 (dest.toNat + (2 ^ 64 - low))) =
      Phdr.Within ia low size := by
  apply segmentOk_eq
  intro addr n
  rw [relocated_linkOffset, inWindow_iff (linkOffset_lt _ _)]

/-- In a window that does not wrap the addresses are those of the interval. -/
theorem writesInside_of_inWindow {s : Loader} (htop : dest.toNat + size ≤ 2 ^ 32)
    (h : WritesIn (InWindow dest size) s) : WritesInside dest size s := by
  apply writesInside_iff.mpr
  intro site p n hm k hk
  have hin := h site p n hm k hk
  have hd := dest.isLt
  have hx := (p + BitVec.ofNat 32 k).isLt
  unfold InSpan at hin
  rw [BitVec.toNat_sub] at hin
  omega

theorem Phdr.within_of_le {ia : MemImageAccess} {ph : Phdr} {low high : ℕ} (h64 : low < 2 ^ 64)
    (hf : ph.pOffset + ph.loadFilesz ≤ ia.size.toNat) (hl : low ≤ ph.pPaddr)
    (hh : ph.pPaddr + ph.pMemsz ≤ high) : ph.Within ia low (high - low) := by
  have hle := ph.loadFilesz_le
  have hoff : ∀ a, low ≤ a → a ≤ high → high < 2 ^ 32 + low → linkOffset low a = a - low := by
    intro a h1 h2 h3
    unfold linkOffset
    omega
  unfold Phdr.Within SegmentWrites InLength
  dsimp only
  rw [clamp_of_fits hf, BitVec.toNat_ofNat, BitVec.toNat_ofNat]
  have h1 := hoff ph.pPaddr hl (by omega)
  have h2 := hoff (ph.pPaddr + ph.loadFilesz) (by omega) (by omega)
  have hm1 := Nat.mod_le ph.loadFilesz (2 ^ 32)
  have hm2 := Nat.mod_le (ph.pMemsz - ph.loadFilesz) (2 ^ 32)
  by_cases hbig : high < 2 ^ 32 + low
  · rw [h1 hbig, h2 hbig]
    exact ⟨.inr (.inr (by omega)), fun _ _ => .inr (.inr (by omega))⟩
  · exact ⟨.inr (.inl (by omega)), fun _ _ => .inr (.inl (by omega))⟩

end window

/-- Nothing the copying loop reads is changed by it, so it reads the headers of the file. -/
theorem Loads.roundsOk {c : ElfClass} {s : Loader} {ia : MemImageAccess} {start window : ℕ}
    {dest : BitVec 32} (hl : Loads c s.mem ia start dest window) {Q : Phdr → Prop}
    (hq : ∀ i < phdrCount c s.mem ia, (filePhdr c s.mem ia i).Loadable → Q (filePhdr c s.mem ia i)) :
    RoundsOk Q c s ia (wrap64 (dest.toNat + (2 ^ 64 - start))) := by
  intro s₁ ehdr he s₂ phdrtab hp
  rcases mapHeader_cases c s ia with ⟨_, hn⟩ | ⟨_, hsome, hm₁⟩
  · rw [he] at hn
    cases hn
  rw [he] at hsome hm₁
  cases hsome
  dsimp only at hm₁
  have heh : readEhdr s₁.mem ia.image c = fileEhdr c s.mem ia := by rw [hm₁]; rfl
  rw [heh] at hp ⊢
  rcases mapPhdrs_cases s₁ ia (fileEhdr c s.mem ia) with ⟨_, hn⟩ | ⟨_, hsome, hm₂⟩
  · rw [hp] at hn
    cases hn
  rw [hp] at hsome hm₂
  cases hsome
  dsimp only at hm₂
  let I : ℕ → Loader × Option (BitVec 32) → Prop := fun i st => i ≤ phdrCount c s.mem ia ∧
    SegmentsAt (filePhdr c s.mem ia) start ia.image dest s.mem i st.1.mem ∧
    st.2 = dynamicPhdr (filePhdr c s.mem ia) (filePhdrtab c s.mem ia)
      (fileEhdr c s.mem ia).ePhentsize i
  have hcond : ∀ i st, I i st → phdrCond c st.1.mem ia.image i → i < phdrCount c s.mem ia := by
    intro i st h hc
    unfold phdrCond at hc
    rwa [hl.readEhdr_eq h.1 h.2.1] at hc
  apply admits_of_invariant I
  · refine ⟨Nat.zero_le _, ?_, rfl⟩
    dsimp only
    rw [hm₂, hm₁]
    exact SegmentsAt.zero _ _ _ _ _
  · intro i st h hc hload
    have hi := hcond i st h hc
    have heq : roundPhdr c ia.image (ia.image + BitVec.ofNat 32 (fileEhdr c s.mem ia).ePhoff) i st =
        filePhdr c s.mem ia i := by
      unfold roundPhdr
      rw [hl.readEhdr_eq h.1 h.2.1]
      exact hl.readPhdr_eq h.1 hi h.2.1
    rw [heq] at hload ⊢
    exact hq i hi hload
  · intro i st t h hc ht
    have hi := hcond i st h hc
    obtain ⟨t', ht', hseg, hdyn⟩ := hl.segmentStep hi h.2.1 h.2.2 (fileEhdr c s.mem ia).ePhoff
      (tableSize (fileEhdr c s.mem ia).ePhnum (fileEhdr c s.mem ia).ePhentsize)
    change Ld.segmentStep _ _ _ _ _ (ia.image + _) _ _ _ = _ at ht'
    rw [ht'] at ht
    cases ht
    exact ⟨hi, hseg, hdyn⟩

section sizes
variable {c : ElfClass} {ph : ℕ → Phdr} {n : ℕ}

/-- The end that is stored is the one it started from or that of a segment, cut. -/
theorem sizes_high (c : ElfClass) (ph : ℕ → Phdr) (n : ℕ) :
    (sizes c ph n).2 = 0 ∨
      ∃ i < n, (ph i).Loadable ∧ (sizes c ph n).2 = c.wrap ((ph i).pPaddr + (ph i).pMemsz) := by
  induction n with
  | zero => exact .inl rfl
  | succ n ih =>
    have hs : sizes c ph (n + 1) = sizeStep c (sizes c ph n) (ph n) := rfl
    rw [hs]
    have hold : (sizes c ph n).2 = 0 ∨ ∃ i < n + 1, (ph i).Loadable ∧
        (sizes c ph n).2 = c.wrap ((ph i).pPaddr + (ph i).pMemsz) := by
      rcases ih with h | ⟨i, hi, h⟩
      · exact .inl h
      · exact .inr ⟨i, by omega, h⟩
    unfold sizeStep
    split
    next hl =>
      dsimp only
      split
      · exact .inr ⟨n, by omega, hl, rfl⟩
      · exact hold
    next => exact hold

theorem sizes_isLeast (hb : ∀ i, (ph i).pPaddr < 256 ^ c.addrSize)
    (hn : (loadables ph n).Nonempty) :
    IsLeast (Phdr.pPaddr '' loadables ph n) (sizes c ph n).1 := by
  obtain ⟨_, hl, i, hi, rfl⟩ := hn
  constructor
  · rcases sizes_low c ph n with h | ⟨j, hj, hlj, h⟩
    · have hle := (sizes_le (c := c) hi hl).1
      have hlt := hb i
      exact ⟨ph i, ⟨hl, i, hi, rfl⟩, by omega⟩
    · exact ⟨ph j, ⟨hlj, j, hj, rfl⟩, h.symm⟩
  · rintro _ ⟨_, ⟨hlj, j, hj, rfl⟩, rfl⟩
    exact (sizes_le hj hlj).1

theorem sizes_isGreatest (hn : (loadables ph n).Nonempty) :
    IsGreatest ((fun q => c.wrap (q.pPaddr + q.pMemsz)) '' loadables ph n) (sizes c ph n).2 := by
  obtain ⟨_, hl, i, hi, rfl⟩ := hn
  constructor
  · rcases sizes_high c ph n with h | ⟨j, hj, hlj, h⟩
    · have hle := (sizes_le (c := c) hi hl).2
      exact ⟨ph i, ⟨hl, i, hi, rfl⟩, by dsimp only; omega⟩
    · exact ⟨ph j, ⟨hlj, j, hj, rfl⟩, h.symm⟩
  · rintro _ ⟨_, ⟨hlj, j, hj, rfl⟩, rfl⟩
    exact (sizes_le hj hlj).2

/-- The start value of the low address is at no page boundary. -/
theorem loadables_nonempty (h : (sizes c ph n).1 % 4096 = 0) : (loadables ph n).Nonempty := by
  rcases sizes_low c ph n with h0 | ⟨i, hi, hl, _⟩
  · rw [h0] at h
    cases c <;> exact absurd h (by decide)
  · exact ⟨ph i, hl, i, hi, rfl⟩

/-- With an end that was not cut the difference is not cut either. -/
theorem Hull.loadSize {low high : ℕ} (h : Hull c ph n low high) {info : ElfLoadInfo}
    (hl : info.startAddr = low) (hh : info.endAddr = high) : info.loadSize = high - low := by
  have hpow : 256 ^ c.addrSize ≤ 2 ^ 64 := by cases c <;> decide
  have hpos : 0 < 256 ^ c.addrSize := by cases c <;> decide
  obtain ⟨q, hq, he⟩ := h.whole
  have hle : low ≤ q.pPaddr := h.least.2 ⟨q, hq, rfl⟩
  obtain ⟨q', _, he'⟩ := h.greatest.1
  have hlt : c.wrap (q'.pPaddr + q'.pMemsz) < 256 ^ c.addrSize := Nat.mod_lt _ hpos
  dsimp only at he'
  unfold ElfLoadInfo.loadSize wrap64
  rw [hl, hh]
  omega

end sizes

section sized
variable {c : ElfClass} {s : Loader} {ia : MemImageAccess} {info : ElfLoadInfo} {dest : BitVec 32}

theorem sized_iff_of_accepted (ha : Accepted c s.mem ia info)
    (h0 : ∀ site p n, Event.write site p n ∉ s.trace) :
    Sized c s ia info dest ↔ HullCovers c s ia dest := by
  have hal := ha.aligned
  rw [ha.start] at hal
  have hne := loadables_nonempty hal
  have hb : ∀ i, (filePhdr c s.mem ia i).pPaddr < 256 ^ c.addrSize := fun i => pPaddr_lt _ _ c
  have hlow := sizes_isLeast hb hne
  have hhigh := sizes_isGreatest (c := c) hne
  rw [← ha.start] at hlow
  rw [← ha.finish] at hhigh
  have hwrites : _ ↔ WritesIn (InWindow dest info.loadSize) s ∧ _ :=
    loadSegments_writesIn c s ia (info.relocate dest)
  have hnone : WritesIn (InWindow dest info.loadSize) s := fun site p n hm => absurd hm (h0 site p n)
  rw [and_iff_right hnone] at hwrites
  change _ ↔ RoundsOk (SegmentOk _ ia (wrap64 (dest.toNat + (2 ^ 64 - info.startAddr)))) c s ia
    (wrap64 (dest.toNat + (2 ^ 64 - info.startAddr))) at hwrites
  rw [segmentOk_inWindow] at hwrites
  constructor
  · intro h
    have hull : Hull c (filePhdr c s.mem ia) (phdrCount c s.mem ia) info.startAddr info.endAddr :=
      ⟨hlow, hhigh, h.finish⟩
    refine ⟨info.startAddr, info.endAddr, hull, ?_⟩
    rw [← hull.loadSize rfl rfl]
    exact hwrites.mp h.writes
  · rintro ⟨low, high, hull, hr⟩
    have hl := hlow.unique hull.least
    have hh := hhigh.unique hull.greatest
    constructor
    · apply hwrites.mpr
      rw [hull.loadSize hl hh, hl]
      exact hr
    · obtain ⟨q, hq, he⟩ := hlow.1
      exact ⟨q, hq, he.symm⟩
    · rw [hh]
      exact hull.whole

/-- An image whose ends are not cut, apart from the window it is loaded to, is covered. -/
theorem sized_of_loads {window : ℕ} (ha : Accepted c s.mem ia info)
    (h0 : ∀ site p n, Event.write site p n ∉ s.trace)
    (hend : ∀ q ∈ loadables (filePhdr c s.mem ia) (phdrCount c s.mem ia),
      q.pPaddr + q.pMemsz < 256 ^ c.addrSize)
    (hl : Loads c s.mem ia info.startAddr dest window) : Sized c s ia info dest := by
  have hal := ha.aligned
  rw [ha.start] at hal
  have hne := loadables_nonempty hal
  have hb : ∀ i, (filePhdr c s.mem ia i).pPaddr < 256 ^ c.addrSize := fun i => pPaddr_lt _ _ c
  have hlow := sizes_isLeast hb hne
  have hhigh := sizes_isGreatest (c := c) hne
  rw [← ha.start] at hlow
  rw [← ha.finish] at hhigh
  apply (sized_iff_of_accepted ha h0).mpr
  refine ⟨info.startAddr, info.endAddr, ⟨hlow, hhigh, ?_⟩, ?_⟩
  · obtain ⟨q, hq, he⟩ := hhigh.1
    exact ⟨q, hq, he.symm.trans (Nat.mod_eq_of_lt (hend q hq))⟩
  · apply hl.roundsOk
    intro i hi hload
    have hq : filePhdr c s.mem ia i ∈ loadables (filePhdr c s.mem ia) (phdrCount c s.mem ia) :=
      ⟨hload, i, hi, rfl⟩
    apply Phdr.within_of_le ha.start_lt (hl.placed.fileRange i hi hload)
    · exact hlow.2 ⟨_, hq, rfl⟩
    · have hle := hhigh.2 ⟨_, hq, rfl⟩
      dsimp only at hle
      unfold ElfClass.wrap at hle
      rwa [Nat.mod_eq_of_lt (hend _ hq)] at hle

end sized

/-- The size that `elf_get_load_info` leads to covers the copies of the load, and its bounds are
bounds of segments, exactly if the greatest end was not cut and the headers that the copying loop
reads end below it. -/
theorem sized_iff (mem : Memory 32) (ia : MemImageAccess) (info : ElfLoadInfo) (fuel : ℕ)
    (dest : BitVec 32) (hh : info.copySectionHeaders = false) (hs : info.copySymbolTables = false)
    (hok : (elfGetLoadInfo ⟨mem, []⟩ ia info fuel).2.2 = .monOk) :
    Sized (elfGetLoadInfo ⟨mem, []⟩ ia info fuel).2.1.machineType
        (elfGetLoadInfo ⟨mem, []⟩ ia info fuel).1 ia (elfGetLoadInfo ⟨mem, []⟩ ia info fuel).2.1 dest ↔
      HullCovers (elfGetLoadInfo ⟨mem, []⟩ ia info fuel).2.1.machineType
        (elfGetLoadInfo ⟨mem, []⟩ ia info fuel).1 ia dest := by
  obtain ⟨c, ha, hm⟩ := accepted_of_elfGetLoadInfo hh hs hok
  have hsil := silent_elfGetLoadInfo ⟨mem, []⟩ ia info fuel
  generalize elfGetLoadInfo ⟨mem, []⟩ ia info fuel = r at ha hm hsil
  rw [ha.machineType]
  apply sized_iff_of_accepted
  · rw [hm]
    exact ha
  · intro site p n h
    exact absurd ((hsil site p n).mp h) List.not_mem_nil

/-- The small executable at an address of its own. -/
theorem sized_iff_tinyElf32 :
    let r := elfGetLoadInfo ⟨Memory.ofBytes 0x1000 tinyElf32, []⟩ ⟨0x1000, 84⟩ ElfLoadInfo.cleared 0
    Sized r.2.1.machineType r.1 ⟨0x1000, 84⟩ r.2.1 0x2000 ↔
      HullCovers r.2.1.machineType r.1 ⟨0x1000, 84⟩ 0x2000 :=
  sized_iff (Memory.ofBytes 0x1000 tinyElf32) ⟨0x1000, 84⟩ ElfLoadInfo.cleared 0 0x2000 rfl rfl
    (by decide +kernel)

/-- Two segments of BSS, one of which goes past the top of the 32-bit addresses: its end is cut
to 8, and the other one's, 16, becomes the greatest. -/
def wrappingElf32 : List (BitVec 8) :=
  [0x7f, 0x45, 0x4c, 0x46, 1, 1, 1, 0, 0, 0, 0, 0, 0, 0, 0, 0,
   2, 0, 3, 0, 1, 0, 0, 0, 0, 0, 0, 0, 0x34, 0, 0, 0,
   0, 0, 0, 0, 0, 0, 0, 0, 0x34, 0, 0x20, 0, 2, 0, 0x28, 0, 0, 0, 0, 0,
   1, 0, 0, 0, 0, 0, 0, 0, 0, 0, 0, 0, 0, 0, 0, 0,
   0, 0, 0, 0, 0x10, 0, 0, 0, 6, 0, 0, 0, 0, 0x10, 0, 0,
   1, 0, 0, 0, 0, 0, 0, 0, 0xf8, 0xff, 0xff, 0xff, 0xf8, 0xff, 0xff, 0xff,
   0, 0, 0, 0, 0x10, 0, 0, 0, 6, 0, 0, 0, 0, 0x10, 0, 0]

/-- Sixteen bytes are reported and eight before the destination are zeroed. -/
theorem wrappingElf32_not_sized :
    let r := elfGetLoadInfo ⟨Memory.ofBytes 0x1000 wrappingElf32, []⟩ ⟨0x1000, 116⟩ ElfLoadInfo.cleared 0
    r.2.2 = .monOk ∧ r.2.1.loadSize = 16 ∧
      ¬ Sized r.2.1.machineType r.1 ⟨0x1000, 116⟩ r.2.1 0x2000 := by
  have hok : (elfGetLoadInfo ⟨Memory.ofBytes 0x1000 wrappingElf32, []⟩ ⟨0x1000, 116⟩
      ElfLoadInfo.cleared 0).2.2 = .monOk := by decide +kernel
  have hsize : (elfGetLoadInfo ⟨Memory.ofBytes 0x1000 wrappingElf32, []⟩ ⟨0x1000, 116⟩
      ElfLoadInfo.cleared 0).2.1.loadSize = 16 := by decide +kernel
  refine ⟨hok, hsize, fun h => ?_⟩
  have hw := h.writes.mono (fun _ => writesInside_of_inWindow (by rw [hsize]; decide))
    (fun _ => writesInside_of_inWindow (by rw [hsize]; decide))
    (fun _ => writesInside_of_inWindow (by rw [hsize]; decide))
  rw [hsize] at hw
  exact absurd hw (by decide +kernel)

end IkgtLoader.Ld
