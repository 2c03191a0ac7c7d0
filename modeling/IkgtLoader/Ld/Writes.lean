import IkgtLoader.Ld.Segments

/-! What the copies and the zeroing of a load write, for any property of a write. -/
namespace IkgtLoader.Ld
open Flat Loop

/-- Every write so far has the property. -/
def WritesIn (ok : BitVec 32 → ℕ → Prop) (s : Loader) : Prop :=
  ∀ site p n, Event.write site p n ∈ s.trace → ok p n

section writes
variable {ok : BitVec 32 → ℕ → Prop} {s : Loader}

/-- Only writes count. -/
theorem writesIn_silent {t : Loader} (h : Silent s t) : WritesIn ok t ↔ WritesIn ok s :=
  forall₃_congr fun site p n => imp_congr_left (h site p n)

theorem writesIn_write (site : Site) {p : BitVec 32} {n : ℕ} {t : Loader}
    (h : ∀ site' p' n', Event.write site' p' n' ∈ t.trace ↔
      Event.write site' p' n' = .write site p n ∨ Event.write site' p' n' ∈ s.trace) :
    WritesIn ok t ↔ WritesIn ok s ∧ ok p n := by
  constructor
  · intro ht
    refine ⟨fun site' p' n' hm => ht site' p' n' ((h site' p' n').mpr (.inr hm)), ?_⟩
    exact ht site p n ((h site p n).mpr (.inl rfl))
  · rintro ⟨hs, hp⟩ site' p' n' hm
    rcases (h site' p' n').mp hm with he | hm
    · cases he
      exact hp
    · exact hs site' p' n' hm

theorem writesIn_read {ia : MemImageAccess} {site : Site} {dest : BitVec 32} {o : ℕ}
    {n : BitVec 32} : WritesIn ok (s.read ia site dest o n).1 ↔
      WritesIn ok s ∧ ok dest (clamp ia (BitVec.ofNat 32 o) n).toNat := by
  refine writesIn_write site fun site' p' n' => ?_
  unfold Loader.read memImageRead
  dsimp only
  simp only [List.mem_cons, reduceCtorEq, false_or]

theorem writesIn_zero {site : Site} {dest n : BitVec 32} :
    WritesIn ok (s.zero site dest n) ↔ WritesIn ok s ∧ ok dest n.toNat :=
  writesIn_write site fun _ _ _ => List.mem_cons

theorem writesIn_store {site : Site} {dest : BitVec 32} {n v : ℕ} :
    WritesIn ok (s.store site dest n v) ↔ WritesIn ok s ∧ ok dest n :=
  writesIn_write site fun _ _ _ => List.mem_cons

end writes

/-- The two writes for a segment, by link address and length: the part from the file, as far as the
read delivers it, and the zeros, which are written after a complete read only. -/
def SegmentWrites (Q : ℕ → ℕ → Prop) (ia : MemImageAccess) (ph : Phdr) : Prop :=
  Q ph.pPaddr (clamp ia (BitVec.ofNat 32 ph.pOffset) (BitVec.ofNat 32 ph.loadFilesz)).toNat ∧
    (clamp ia (BitVec.ofNat 32 ph.pOffset) (BitVec.ofNat 32 ph.loadFilesz) =
        BitVec.ofNat 32 ph.loadFilesz → ph.loadFilesz < ph.pMemsz →
      Q (ph.pPaddr + ph.loadFilesz) (BitVec.ofNat 32 (ph.pMemsz - ph.loadFilesz)).toNat)

/-- Both have the property where they are made. -/
def SegmentOk (ok : BitVec 32 → ℕ → Prop) (ia : MemImageAccess) (relocationOffset : ℕ) : Phdr → Prop :=
  SegmentWrites (fun addr n => ok (relocated addr relocationOffset) n) ia

theorem segmentOk_eq {ok : BitVec 32 → ℕ → Prop} {Q : ℕ → ℕ → Prop} {ia : MemImageAccess} {r : ℕ}
    (h : ∀ addr n, ok (relocated addr r) n ↔ Q addr n) : SegmentOk ok ia r = SegmentWrites Q ia :=
  congrArg (fun Q => SegmentWrites Q ia) (funext₂ fun addr n => propext (h addr n))

/-- The header that a round of the first loop reads. -/
def roundPhdr (c : ElfClass) (ehdr phdrtab : BitVec 32) (i : ℕ)
    (st : Loader × Option (BitVec 32)) : Phdr :=
  readPhdr st.1.mem (tableEntry phdrtab i (readEhdr st.1.mem ehdr c).ePhentsize) c

/-- If that header is loadable, its segment has the property. -/
def RoundOk (Q : Phdr → Prop) (c : ElfClass) (ehdr phdrtab : BitVec 32) (i : ℕ)
    (st : Loader × Option (BitVec 32)) : Prop :=
  (roundPhdr c ehdr phdrtab i st).Loadable → Q (roundPhdr c ehdr phdrtab i st)

section steps
variable {ok : BitVec 32 → ℕ → Prop} {c : ElfClass} {ia : MemImageAccess} {r : ℕ} {s : Loader}

theorem loadSegment_writesIn (ph : Phdr) :
    (loadSegment ia r ph s).All (WritesIn ok) (WritesIn ok) (WritesIn ok) ↔
      WritesIn ok s ∧ SegmentOk ok ia r ph := by
  have hread : WritesIn ok (s.read ia (.segment ph.pPaddr) (relocated ph.pPaddr r) ph.pOffset
      (BitVec.ofNat 32 ph.loadFilesz)).1 ↔ WritesIn ok s ∧ ok (relocated ph.pPaddr r)
        (clamp ia (BitVec.ofNat 32 ph.pOffset) (BitVec.ofNat 32 ph.loadFilesz)).toNat :=
    writesIn_read
  unfold loadSegment SegmentOk SegmentWrites
  dsimp only
  have hcount : (s.read ia (.segment ph.pPaddr) (relocated ph.pPaddr r)
      ph.pOffset (BitVec.ofNat 32 ph.loadFilesz)).2 =
        clamp ia (BitVec.ofNat 32 ph.pOffset) (BitVec.ofNat 32 ph.loadFilesz) := rfl
  generalize s.read ia (.segment ph.pPaddr) _ ph.pOffset _ = q at hread hcount ⊢
  obtain ⟨t, n⟩ := q
  dsimp only at hread hcount ⊢
  subst hcount
  split
  next hne =>
    change WritesIn ok t ↔ _
    rw [hread]
    exact and_congr_right fun _ => ⟨fun h => ⟨h, fun he => absurd he hne⟩, fun h => h.1⟩
  next he =>
    rw [not_not] at he
    split
    next hlt =>
      change WritesIn ok (t.zero _ _ _) ↔ _
      rw [writesIn_zero, hread, and_assoc]
      exact and_congr_right fun _ => and_congr_right fun _ => ⟨fun h _ _ => h, fun h => h he hlt⟩
    next hge =>
      change WritesIn ok t ↔ _
      rw [hread]
      exact and_congr_right fun _ => ⟨fun h => ⟨h, fun _ hlt => absurd hlt hge⟩, fun h => h.1⟩

theorem segmentStep_writesIn (ehdr phdrtab phsize : BitVec 32) (phoff i : ℕ)
    (st : Loader × Option (BitVec 32)) :
    (segmentStep c ia r ehdr phoff phdrtab phsize i st).All (fun t => WritesIn ok t.1)
        (fun t => WritesIn ok t.1) (fun t => WritesIn ok t.1) ↔
      WritesIn ok st.1 ∧ RoundOk (SegmentOk ok ia r) c ehdr phdrtab i st := by
  obtain ⟨s, dyn⟩ := st
  unfold segmentStep RoundOk roundPhdr
  dsimp only
  generalize htr : Loader.emit (Loader.emit s _) _ = u
  have hmem : u.mem = s.mem := by rw [← htr]; rfl
  have hu : WritesIn ok u ↔ WritesIn ok s := by
    rw [← htr]
    exact writesIn_silent (((Silent.refl s).entry _ _ _).take _ _)
  rw [hmem]
  generalize readPhdr s.mem _ c = ph
  split
  next hd =>
    change WritesIn ok u ↔ _
    rw [hu]
    exact (and_iff_left fun hl => absurd (hl.1.symm.trans hd) (by decide)).symm
  next =>
    split
    next hl =>
      change WritesIn ok u ↔ _
      rw [hu]
      exact (and_iff_left fun h => absurd h hl).symm
    next hl =>
      rw [Outcome.all_map, loadSegment_writesIn, hu]
      exact and_congr_right fun _ => ⟨fun h _ => h, fun h => h (not_not.mp hl)⟩

/-- Every round of the loop over the headers in the file reads a header with the property, or
one that is not loadable. -/
def RoundsOk (Q : Phdr → Prop) (c : ElfClass) (s : Loader) (ia : MemImageAccess)
    (relocationOffset : ℕ) : Prop :=
  ∀ s₁ ehdr, mapHeader c s ia = (s₁, some ehdr) →
    ∀ s₂ phdrtab, mapPhdrs s₁ ia (readEhdr s₁.mem ehdr c) = (s₂, some phdrtab) →
      Loop.Admits (fun i st => phdrCond c st.1.mem ehdr i)
        (segmentStep c ia relocationOffset ehdr (readEhdr s₁.mem ehdr c).ePhoff phdrtab
          (tableSize (readEhdr s₁.mem ehdr c).ePhnum (readEhdr s₁.mem ehdr c).ePhentsize))
        (RoundOk Q c ehdr phdrtab) int16Rounds 0 (s₂, none)

theorem loadSegments_writesIn (c : ElfClass) (s : Loader) (ia : MemImageAccess)
    (info : ElfLoadInfo) :
    (loadSegments c s ia info).All (fun t => WritesIn ok t.1) (fun t => WritesIn ok t.1)
        (fun t => WritesIn ok t.1) ↔
      WritesIn ok s ∧ RoundsOk (SegmentOk ok ia info.relocationOffset) c s ia
        info.relocationOffset := by
  have hh : WritesIn ok (mapHeader c s ia).1 ↔ WritesIn ok s :=
    writesIn_silent (silent_mapHeader c s ia)
  unfold loadSegments RoundsOk
  generalize mapHeader c s ia = q at hh ⊢
  obtain ⟨s₁, o⟩ := q
  dsimp only at hh
  cases o with
  | none =>
    change WritesIn ok s₁ ↔ _
    rw [hh]
    exact (and_iff_left fun _ _ he => by cases he).symm
  | some ehdr =>
    dsimp only
    have hp : WritesIn ok (mapPhdrs s₁ ia (readEhdr s₁.mem ehdr c)).1 ↔ WritesIn ok s₁ :=
      writesIn_silent (silent_mapPhdrs s₁ ia _)
    generalize hmap : mapPhdrs s₁ ia (readEhdr s₁.mem ehdr c) = q at hp ⊢
    obtain ⟨s₂, o⟩ := q
    dsimp only at hp
    cases o with
    | none =>
      change WritesIn ok s₂ ↔ _
      rw [hp, hh]
      refine (and_iff_left ?_).symm
      intro _ _ he _ _ he'
      cases he
      rw [hmap] at he'
      cases he'
    | some phdrtab =>
      refine (run_iff (fun st : Loader × Option (BitVec 32) => WritesIn ok st.1)
        (RoundOk (SegmentOk ok ia info.relocationOffset) c ehdr phdrtab)
        fun i st => segmentStep_writesIn ehdr phdrtab _ _ i st).trans ?_
      dsimp only
      rw [hp, hh]
      apply and_congr_right
      intro _
      constructor
      · intro h _ _ he _ _ he'
        cases he
        rw [hmap] at he'
        cases he'
        exact h
      · intro h
        exact h s₁ ehdr rfl s₂ phdrtab hmap

end steps
end IkgtLoader.Ld
