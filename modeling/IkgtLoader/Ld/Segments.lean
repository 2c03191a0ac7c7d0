import IkgtLoader.Ld.Accepted

/-! What the loop over the program headers of the file leaves in memory: every loadable
segment at its place in the window, bytes of the file first and zeros behind them. -/
namespace IkgtLoader.Ld
open Flat Loop

/-- The offset moves the link base to the destination. -/
theorem relocated_eq (dest : BitVec 32) {start addr : ℕ} (h : start ≤ addr) (hs : addr < 2 ^ 64) :
    relocated addr (wrap64 (dest.toNat + (2 ^ 64 - start))) =
      dest + BitVec.ofNat 32 (addr - start) := by
  unfold relocated wrap64
  apply BitVec.eq_of_toNat_eq
  rw [BitVec.toNat_add, BitVec.toNat_ofNat, BitVec.toNat_ofNat]
  omega

theorem clamp_of_fits {ia : MemImageAccess} {o n : ℕ} (h : o + n ≤ ia.size.toNat) :
    clamp ia (BitVec.ofNat 32 o) (BitVec.ofNat 32 n) = BitVec.ofNat 32 n := by
  have hs := ia.size.isLt
  rcases clamp_cases ia (BitVec.ofNat 32 o) (BitVec.ofNat 32 n) with ⟨hlt, _⟩ | ⟨_, hc⟩
  · rw [BitVec.toNat_ofNat, BitVec.toNat_ofNat] at hlt
    omega
  · exact hc

theorem Phdr.loadFilesz_le (ph : Phdr) : ph.loadFilesz ≤ ph.pMemsz := by
  unfold loadFilesz
  split <;> omega

/-- One segment in the file that lies in the image and outside its destination. -/
theorem loadSegment_spec {ia : MemImageAccess} {ph : Phdr} {s : Loader} {r : ℕ} {d : BitVec 32}
    (hd : relocated ph.pPaddr r = d)
    (hb : relocated (ph.pPaddr + ph.loadFilesz) r = d + BitVec.ofNat 32 ph.loadFilesz)
    (hm : ph.pMemsz < 2 ^ 32) (hf : ph.pOffset + ph.loadFilesz ≤ ia.size.toNat)
    (hap : Apart d ph.pMemsz ia.image ia.size.toNat) :
    ∃ t, loadSegment ia r ph s = .next t ∧
      (∀ x, ¬ InSpan d ph.pMemsz x → t.mem x = s.mem x) ∧
      ∀ k < ph.pMemsz, t.mem (d + BitVec.ofNat 32 k) =
        if k < ph.loadFilesz then s.mem (ia.image + BitVec.ofNat 32 (ph.pOffset + k)) else 0 := by
  have hle := ph.loadFilesz_le
  have hs := ia.size.isLt
  have hn : (BitVec.ofNat 32 ph.loadFilesz).toNat = ph.loadFilesz := toNat_ofNat_of_lt (by omega)
  unfold loadSegment Loader.read memImageRead
  dsimp only
  rw [clamp_of_fits hf, hn, hd, hb, if_neg (not_not.mpr rfl)]
  -- the source of the copy does not meet its destination
  have hsrc : Apart d ph.loadFilesz (ia.image + BitVec.ofNat 32 ph.pOffset) ph.loadFilesz := by
    have h0 : d = d + BitVec.ofNat 32 0 := (BitVec.add_zero d).symm
    rw [h0]
    exact hap.of_offset (by omega) (by omega) hf (by omega)
  have hcopy : ∀ k < ph.loadFilesz, s.mem.copy d (ia.image + BitVec.ofNat 32 ph.pOffset)
      ph.loadFilesz (d + BitVec.ofNat 32 k) =
        s.mem (ia.image + BitVec.ofNat 32 (ph.pOffset + k)) := by
    intro k hk
    have hout : ¬ InSpan (ia.image + BitVec.ofNat 32 ph.pOffset) ph.loadFilesz d :=
      hsrc d (inSpan_self.mpr (by omega))
    rw [Memory.copy_apply _ (by omega) (.inr hout) hk, add_ofNat_ofNat]
  by_cases hlt : ph.loadFilesz < ph.pMemsz
  · rw [if_pos hlt]
    have hz : (BitVec.ofNat 32 (ph.pMemsz - ph.loadFilesz)).toNat = ph.pMemsz - ph.loadFilesz :=
      toNat_ofNat_of_lt (by omega)
    refine ⟨_, rfl, ?_, ?_⟩
    · intro x hx
      unfold Loader.zero
      dsimp only
      rw [hz, Memory.fill_of_not_inSpan, Memory.copy_of_not_inSpan]
      · exact fun h => hx (h.mono hle)
      · exact fun h => hx (h.of_offset (by omega) (by omega))
    · intro k hk
      unfold Loader.zero
      dsimp only
      rw [hz, Memory.fill_apply _ _ _ _ (by omega)]
      have hin : InSpan (d + BitVec.ofNat 32 ph.loadFilesz) (ph.pMemsz - ph.loadFilesz)
          (d + BitVec.ofNat 32 k) ↔ ¬ k < ph.loadFilesz := by
        rw [inSpan_offset (by omega), toNat_add_ofNat_sub d (by omega)]
        omega
      by_cases hkf : k < ph.loadFilesz
      · rw [if_neg (fun h => hin.mp h hkf), if_pos hkf, hcopy k hkf]
      · rw [if_pos (hin.mpr hkf), if_neg hkf]
  · rw [if_neg hlt]
    have he : ph.loadFilesz = ph.pMemsz := by omega
    refine ⟨_, rfl, ?_, ?_⟩
    · intro x hx
      exact Memory.copy_of_not_inSpan _ _ (he ▸ hx)
    · intro k hk
      rw [if_pos (by omega)]
      exact hcopy k (by omega)

/-- Where a segment lies once the link base is at `dest`. -/
def Phdr.place (ph : Phdr) (start : ℕ) (dest : BitVec 32) : BitVec 32 :=
  dest + BitVec.ofNat 32 (ph.pPaddr - start)

/-- Segments that lie apart in a window and whose file parts lie in the image. -/
structure Placed (ph : ℕ → Phdr) (n start window size : ℕ) : Prop where
  low : ∀ i < n, (ph i).Loadable → start ≤ (ph i).pPaddr
  high : ∀ i < n, (ph i).Loadable → (ph i).pPaddr + (ph i).pMemsz ≤ start + window
  below : ∀ i < n, (ph i).Loadable → (ph i).pPaddr + (ph i).pMemsz < 2 ^ 64
  small : ∀ i < n, (ph i).Loadable → (ph i).pMemsz < 2 ^ 32
  disjoint : ∀ i < n, ∀ j < n, i ≠ j → (ph i).Loadable → (ph j).Loadable →
    (ph i).pPaddr + (ph i).pMemsz ≤ (ph j).pPaddr ∨ (ph j).pPaddr + (ph j).pMemsz ≤ (ph i).pPaddr
  fileRange : ∀ i < n, (ph i).Loadable → (ph i).pOffset + (ph i).loadFilesz ≤ size

/-- The segments below `n` are at their places and nothing else has changed. -/
structure SegmentsAt (ph : ℕ → Phdr) (start : ℕ) (image dest : BitVec 32) (mem : Memory 32)
    (n : ℕ) (mem' : Memory 32) : Prop where
  bytes : ∀ i < n, (ph i).Loadable → ∀ k < (ph i).pMemsz,
    mem' ((ph i).place start dest + BitVec.ofNat 32 k) =
      if k < (ph i).loadFilesz then mem (image + BitVec.ofNat 32 ((ph i).pOffset + k)) else 0
  frame : ∀ x, (∀ i < n, (ph i).Loadable → ¬ InSpan ((ph i).place start dest) (ph i).pMemsz x) →
    mem' x = mem x

section segments
variable {ph : ℕ → Phdr} {n start window size : ℕ} {image dest : BitVec 32} {mem : Memory 32}

theorem Placed.place_apart (hp : Placed ph n start window size) (hw : window ≤ 2 ^ 32)
    {i j : ℕ} (hi : i < n) (hj : j < n) (hne : i ≠ j) (hli : (ph i).Loadable) (hlj : (ph j).Loadable) :
    Apart ((ph i).place start dest) (ph i).pMemsz ((ph j).place start dest) (ph j).pMemsz := by
  have h1 := hp.low i hi hli
  have h2 := hp.low j hj hlj
  have h3 := hp.high i hi hli
  have h4 := hp.high j hj hlj
  apply apart_offset
  · rcases hp.disjoint i hi j hj hne hli hlj with h | h
    · left; omega
    · right; omega
  · omega
  · omega

/-- A segment lies in the window. -/
theorem Placed.inWindow (hp : Placed ph n start window size) (hw : window ≤ 2 ^ 32) {i : ℕ}
    (hi : i < n) (hl : (ph i).Loadable) {x : BitVec 32}
    (hx : InSpan ((ph i).place start dest) (ph i).pMemsz x) : InSpan dest window x := by
  have h1 := hp.low i hi hl
  have h2 := hp.high i hi hl
  exact hx.of_offset (by omega) hw

theorem SegmentsAt.zero (ph : ℕ → Phdr) (start : ℕ) (image dest : BitVec 32) (mem : Memory 32) :
    SegmentsAt ph start image dest mem 0 mem :=
  ⟨fun i hi => absurd hi (Nat.not_lt_zero i), fun _ _ => rfl⟩

theorem SegmentsAt.skip {m : Memory 32} {i : ℕ} (h : SegmentsAt ph start image dest mem i m)
    (hl : ¬ (ph i).Loadable) : SegmentsAt ph start image dest mem (i + 1) m := by
  constructor
  · intro j hj hlj
    rcases Nat.lt_succ_iff_lt_or_eq.mp hj with hlt | rfl
    · exact h.bytes j hlt hlj
    · exact absurd hlj hl
  · intro x hx
    exact h.frame x fun j hj => hx j (by omega)

/-- The image is not in the window, so the loop does not change it. -/
theorem SegmentsAt.image_eq {m : Memory 32} {i : ℕ} (h : SegmentsAt ph start image dest mem i m)
    (hp : Placed ph n start window size) (hw : window ≤ 2 ^ 32) (hi : i ≤ n)
    (hap : Apart dest window image size) {x : BitVec 32} (hx : InSpan image size x) :
    m x = mem x :=
  h.frame x fun _ hj hl hin => hap x (hp.inWindow hw (by omega) hl hin) hx

theorem SegmentsAt.load {m m' : Memory 32} {i : ℕ} (h : SegmentsAt ph start image dest mem i m)
    (hp : Placed ph n start window size) (hw : window ≤ 2 ^ 32) (hs : size < 2 ^ 32)
    (hi : i < n) (hap : Apart dest window image size) (hl : (ph i).Loadable)
    (hframe : ∀ x, ¬ InSpan ((ph i).place start dest) (ph i).pMemsz x → m' x = m x)
    (hbytes : ∀ k < (ph i).pMemsz, m' ((ph i).place start dest + BitVec.ofNat 32 k) =
      if k < (ph i).loadFilesz then m (image + BitVec.ofNat 32 ((ph i).pOffset + k)) else 0) :
    SegmentsAt ph start image dest mem (i + 1) m' := by
  constructor
  · intro j hj hlj k hk
    rcases Nat.lt_succ_iff_lt_or_eq.mp hj with hlt | rfl
    · have hb := hp.small j (by omega) hlj
      have hin : InSpan ((ph j).place start dest) (ph j).pMemsz
          ((ph j).place start dest + BitVec.ofNat 32 k) := (inSpan_add_ofNat (by omega)).mpr hk
      rw [hframe _ (hp.place_apart hw (by omega) hi (by omega) hlj hl _ hin)]
      exact h.bytes j hlt hlj k hk
    · rw [hbytes k hk]
      split
      next hkf =>
        have hf := hp.fileRange j hi hl
        apply h.image_eq hp hw (by omega) hap
        exact (inSpan_add_ofNat (by omega)).mpr (by omega)
      next => rfl
  · intro x hx
    rw [hframe x (hx i (by omega) hl)]
    exact h.frame x fun j hj => hx j (by omega)

end segments

/-- The last header of type PT_DYNAMIC below `n`, as the loop remembers it. -/
def dynamicPhdr (ph : ℕ → Phdr) (phdrtab : BitVec 32) (entsize : ℕ) : ℕ → Option (BitVec 32)
  | 0 => none
  | i + 1 =>
    if (ph i).pType = PT_DYNAMIC then some (tableEntry phdrtab i entsize)
    else dynamicPhdr ph phdrtab entsize i

theorem dynamicPhdr_none {ph : ℕ → Phdr} {n : ℕ} (h : ∀ i < n, (ph i).pType ≠ PT_DYNAMIC)
    (phdrtab : BitVec 32) (entsize : ℕ) : dynamicPhdr ph phdrtab entsize n = none := by
  induction n with
  | zero => rfl
  | succ n ih =>
    rw [dynamicPhdr, if_neg (h n (by omega))]
    exact ih fun i hi => h i (by omega)

/-- What the load of an accepted image asks of the file and of the window. -/
structure Loads (c : ElfClass) (mem : Memory 32) (ia : MemImageAccess) (start : ℕ)
    (dest : BitVec 32) (window : ℕ) : Prop where
  placed : Placed (filePhdr c mem ia) (phdrCount c mem ia) start window ia.size.toNat
  table : ∀ i < phdrCount c mem ia, (fileEhdr c mem ia).ePhoff +
    i * (fileEhdr c mem ia).ePhentsize + c.phdrSize ≤ ia.size.toNat
  header : c.ehdrSize ≤ ia.size.toNat
  fits : window ≤ 2 ^ 32
  apart : Apart dest window ia.image ia.size.toNat

section loads
variable {c : ElfClass} {mem : Memory 32} {ia : MemImageAccess} {start : ℕ} {dest : BitVec 32}
  {window : ℕ}

/-- The image is read as it was before the load. -/
theorem Loads.same (hl : Loads c mem ia start dest window) {i : ℕ}
    (hi : i ≤ phdrCount c mem ia) {m : Memory 32}
    (h : SegmentsAt (filePhdr c mem ia) start ia.image dest mem i m) {o k : ℕ}
    (hk : o + k ≤ ia.size.toNat) :
    Memory.Same m (ia.image + BitVec.ofNat 32 o) mem (ia.image + BitVec.ofNat 32 o) k := by
  have hs := ia.size.isLt
  have hall : Memory.Same m ia.image mem ia.image ia.size.toNat :=
    .of_unchanged (fun x hx => h.image_eq hl.placed hl.fits hi hl.apart hx) (by omega)
  exact hall.offset hk

theorem Loads.readEhdr_eq (hl : Loads c mem ia start dest window) {i : ℕ}
    (hi : i ≤ phdrCount c mem ia) {m : Memory 32}
    (h : SegmentsAt (filePhdr c mem ia) start ia.image dest mem i m) :
    readEhdr m ia.image c = fileEhdr c mem ia := by
  have hs := hl.same hi h (show 0 + c.ehdrSize ≤ ia.size.toNat by have := hl.header; omega)
  rw [show ia.image + BitVec.ofNat 32 0 = ia.image from BitVec.add_zero _] at hs
  exact readEhdr_congr hs

theorem Loads.readPhdr_eq (hl : Loads c mem ia start dest window) {i j : ℕ}
    (hi : i ≤ phdrCount c mem ia) (hj : j < phdrCount c mem ia) {m : Memory 32}
    (h : SegmentsAt (filePhdr c mem ia) start ia.image dest mem i m) :
    readPhdr m (tableEntry (filePhdrtab c mem ia) j (fileEhdr c mem ia).ePhentsize) c =
      filePhdr c mem ia j := by
  have ht := hl.table j hj
  have hs := hl.same hi h (show (fileEhdr c mem ia).ePhoff + j * (fileEhdr c mem ia).ePhentsize +
    c.phdrSize ≤ ia.size.toNat from ht)
  rw [← add_ofNat_ofNat] at hs
  exact readPhdr_congr hs

/-- One round, in a state in which the headers below have been dealt with. -/
theorem Loads.segmentStep (hl : Loads c mem ia start dest window) {i : ℕ}
    (hi : i < phdrCount c mem ia) {st : Loader × Option (BitVec 32)}
    (h : SegmentsAt (filePhdr c mem ia) start ia.image dest mem i st.1.mem)
    (hd : st.2 = dynamicPhdr (filePhdr c mem ia) (filePhdrtab c mem ia)
      (fileEhdr c mem ia).ePhentsize i) (phoff : ℕ) (phsize : BitVec 32) :
    ∃ t, segmentStep c ia (wrap64 (dest.toNat + (2 ^ 64 - start))) ia.image phoff
        (filePhdrtab c mem ia) phsize i st = .next t ∧
      SegmentsAt (filePhdr c mem ia) start ia.image dest mem (i + 1) t.1.mem ∧
      t.2 = dynamicPhdr (filePhdr c mem ia) (filePhdrtab c mem ia)
        (fileEhdr c mem ia).ePhentsize (i + 1) := by
  obtain ⟨s, dyn⟩ := st
  dsimp only at h hd
  subst hd
  unfold Ld.segmentStep
  dsimp only
  rw [hl.readEhdr_eq (by omega) h]
  generalize htr : Loader.emit (Loader.emit s _) _ = u
  have hu : u.mem = s.mem := by rw [← htr]; rfl
  rw [← hu] at h
  rw [hl.readPhdr_eq (by omega) hi h, dynamicPhdr]
  by_cases hdyn : (filePhdr c mem ia i).pType = PT_DYNAMIC
  · have hnl : ¬ (filePhdr c mem ia i).Loadable := by
      intro hload
      have := hdyn.symm.trans hload.1
      cases this
    rw [if_pos hdyn, if_pos hdyn]
    exact ⟨_, rfl, h.skip hnl, rfl⟩
  rw [if_neg hdyn, if_neg hdyn]
  by_cases hload : (filePhdr c mem ia i).Loadable
  · rw [if_neg (not_not.mpr hload)]
    have h1 := hl.placed.low i hi hload
    have h2 := hl.placed.below i hi hload
    have h3 := hl.placed.small i hi hload
    have hle := (filePhdr c mem ia i).loadFilesz_le
    have hd := relocated_eq dest h1 (by omega)
    have hb := relocated_eq dest (show start ≤ (filePhdr c mem ia i).pPaddr +
      (filePhdr c mem ia i).loadFilesz by omega) (by omega)
    rw [Nat.sub_add_comm h1, ← add_ofNat_ofNat] at hb
    have hap : Apart ((filePhdr c mem ia i).place start dest) (filePhdr c mem ia i).pMemsz
        ia.image ia.size.toNat := fun x hx => hl.apart x (hl.placed.inWindow hl.fits hi hload hx)
    obtain ⟨t, ht, hf, hby⟩ := loadSegment_spec (s := u) hd hb (by omega)
      (hl.placed.fileRange i hi hload) hap
    rw [ht]
    exact ⟨_, rfl, h.load hl.placed hl.fits ia.size.isLt hi hl.apart hload hf hby, rfl⟩
  · rw [if_pos hload]
    exact ⟨_, rfl, h.skip hload, rfl⟩

/-- The loop ends with every segment at its place. -/
theorem Loads.segments (hl : Loads c mem ia start dest window) {s : Loader} (hs : s.mem = mem)
    (phoff : ℕ) (phsize : BitVec 32) :
    ∃ t, Loop.run (fun i st => phdrCond c st.1.mem ia.image i)
        (Ld.segmentStep c ia (wrap64 (dest.toNat + (2 ^ 64 - start))) ia.image phoff
          (filePhdrtab c mem ia) phsize) int16Rounds 0 (s, none) = .next t ∧
      SegmentsAt (filePhdr c mem ia) start ia.image dest mem (phdrCount c mem ia) t.1.mem ∧
      t.2 = dynamicPhdr (filePhdr c mem ia) (filePhdrtab c mem ia)
        (fileEhdr c mem ia).ePhentsize (phdrCount c mem ia) := by
  let I : ℕ → Loader × Option (BitVec 32) → Prop := fun i st => i ≤ phdrCount c mem ia ∧
    SegmentsAt (filePhdr c mem ia) start ia.image dest mem i st.1.mem ∧
    st.2 = dynamicPhdr (filePhdr c mem ia) (filePhdrtab c mem ia) (fileEhdr c mem ia).ePhentsize i
  have h0 : I 0 (s, none) := by
    refine ⟨Nat.zero_le _, ?_, rfl⟩
    rw [hs]
    exact SegmentsAt.zero _ _ _ _ _
  have hcond : ∀ i st, I i st → (phdrCond c st.1.mem ia.image i ↔ i < phdrCount c mem ia) := by
    intro i st h
    unfold phdrCond
    rw [hl.readEhdr_eq h.1 h.2.1]
    rfl
  have hbody : ∀ i st, i < phdrCount c mem ia → I i st → ∃ t, Ld.segmentStep c ia
      (wrap64 (dest.toNat + (2 ^ 64 - start))) ia.image phoff (filePhdrtab c mem ia) phsize i st =
        .next t ∧ I (i + 1) t := by
    intro i st hi h
    obtain ⟨t, ht, hseg, hdyn⟩ := hl.segmentStep hi h.2.1 h.2.2 phoff phsize
    exact ⟨t, ht, hi, hseg, hdyn⟩
  have hfuel : phdrCount c mem ia ≤ 0 + int16Rounds := by
    unfold phdrCount int16Bound int16Rounds
    split <;> omega
  obtain ⟨t, ht, _, hseg, hdyn⟩ := run_count I hcond hbody (Nat.zero_le _) hfuel h0
  exact ⟨t, ht, hseg, hdyn⟩

end loads

end IkgtLoader.Ld
