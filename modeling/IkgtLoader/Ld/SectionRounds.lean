import Mathlib.Tactic.MkIffOfInductiveProp
import IkgtLoader.Ld.Placement
import IkgtLoader.Ld.Writes

/-! The optional copies from any memory: what a round of `copy_sections` does, and when all that the copies
write lies between the place of the section header table and the end. -/
namespace IkgtLoader.Ld
open Flat Loop

variable {c : ElfClass} {m : Memory 32} {ia : MemImageAccess} {info : ElfLoadInfo} {fuel i : ℕ}
  {st : Loader × ℕ}

/-- A new `sh_addr` leaves the other fields. -/
theorem readShdr_store_addr (c : ElfClass) (m : Memory 32) (p : BitVec 32) (v : ℕ) :
    readShdr (m.store (p + BitVec.ofNat 32 c.shAddr) c.addrSize v) p c =
      { readShdr m p c with shAddr := v % 256 ^ c.addrSize } := by
  cases c <;>
  · unfold readShdr ElfClass.shAddr ElfClass.addrSize
    simp only [Shdr.mk.injEq]
    refine ⟨field_store _ _ _ _ (by decide), ?_, ?_, ?_⟩ <;>
      exact field_store_of_disjoint _ _ _ (by decide) (by decide) (by decide)

/-- The bytes lie between the place of the section header table and the end, or are of `e_shoff`. -/
def SectionWrite (c : ElfClass) (info : ElfLoadInfo) (p : BitVec 32) (k : ℕ) : Prop :=
  ∀ b < k, InSpan (BitVec.ofNat 32 info.startAddr + BitVec.ofNat 32 c.eShoff) c.addrSize
      (p + BitVec.ofNat 32 b) ∨
    (info.sectionsAddr ≤ (p + BitVec.ofNat 32 b).toNat ∧ (p + BitVec.ofNat 32 b).toNat < info.endAddr)

/-- As many bytes as the read of a section delivers. -/
def sectionCount (ia : MemImageAccess) (sh : Shdr) : ℕ :=
  (clamp ia (BitVec.ofNat 32 sh.shOffset) (BitVec.ofNat 32 sh.shSize)).toNat

/-- The header that round `i` looks at. -/
def roundEntry (c : ElfClass) (info : ElfLoadInfo) (i : ℕ) (st : Loader × ℕ) : BitVec 32 :=
  shdrAddress c info.sectionsAddr i
    (readEhdr st.1.mem (BitVec.ofNat 32 info.startAddr) c).eShentsize

def roundShdr (c : ElfClass) (info : ElfLoadInfo) (i : ℕ) (st : Loader × ℕ) : Shdr :=
  readShdr st.1.mem (roundEntry c info i st) c

/-- Where its section goes, if no segment brings it. -/
def roundPlace (c : ElfClass) (info : ElfLoadInfo) (i : ℕ) (st : Loader × ℕ) : ℕ :=
  place c (roundShdr c info i st) st.2

/-- The round copies its section, which is read in full. -/
def RoundCopies (c : ElfClass) (ia : MemImageAccess) (info : ElfLoadInfo) (i : ℕ) (st : Loader × ℕ) :
    Prop :=
  (roundShdr c info i st).Unloaded ∧
    ReadInFull ia (roundShdr c info i st).shOffset (roundShdr c info i st).shSize

instance (c : ElfClass) (ia : MemImageAccess) (info : ElfLoadInfo) (i : ℕ) (st : Loader × ℕ) :
    Decidable (RoundCopies c ia info i st) := inferInstanceAs (Decidable (_ ∧ _))

/-- The state after the read of that section. -/
def roundRead (c : ElfClass) (ia : MemImageAccess) (info : ElfLoadInfo) (i : ℕ) (st : Loader × ℕ) :
    Loader :=
  (st.1.read ia (.loadedSection (roundPlace c info i st)) (BitVec.ofNat 32 (roundPlace c info i st))
    (roundShdr c info i st).shOffset (BitVec.ofNat 32 (roundShdr c info i st).shSize)).1

/-- What a round may end with. -/
inductive RoundEnds (c : ElfClass) (ia : MemImageAccess) (info : ElfLoadInfo) (i : ℕ)
    (st : Loader × ℕ) : Outcome (Loader × ℕ) → Prop
  | moved (ha : (roundShdr c info i st).shAddr ≠ 0) :
      RoundEnds c ia info i st (.next (st.1.store (.loadedSection (roundEntry c info i st).toNat)
        (roundEntry c info i st + BitVec.ofNat 32 c.shAddr) c.addrSize
        ((roundShdr c info i st).shAddr + info.relocationOffset), st.2))
  | empty (ha : (roundShdr c info i st).shAddr = 0) (hs : (roundShdr c info i st).shSize = 0) :
      RoundEnds c ia info i st (.next st)
  | copied (h : RoundCopies c ia info i st) (t : Loader)
      (ht : t = (roundRead c ia info i st).store (.loadedSection (roundEntry c info i st).toNat)
        (roundEntry c info i st + BitVec.ofNat 32 c.shAddr) c.addrSize (roundPlace c info i st)) :
      RoundEnds c ia info i st (.next (t, c.wrap (roundPlace c info i st +
        (readShdr t.mem (roundEntry c info i st) c).shSize)))
  | short (hu : (roundShdr c info i st).Unloaded)
      (hr : ¬ ReadInFull ia (roundShdr c info i st).shOffset (roundShdr c info i st).shSize) :
      RoundEnds c ia info i st (.quit (roundRead c ia info i st, roundPlace c info i st))

theorem roundEnds (c : ElfClass) (ia : MemImageAccess) (info : ElfLoadInfo) (i : ℕ)
    (st : Loader × ℕ) : RoundEnds c ia info i st (copySectionStep c ia info i st) := by
  have heq : copySectionStep c ia info i st =
      if (roundShdr c info i st).shAddr ≠ 0 then
        .next (st.1.store (.loadedSection (roundEntry c info i st).toNat)
          (roundEntry c info i st + BitVec.ofNat 32 c.shAddr) c.addrSize
          ((roundShdr c info i st).shAddr + info.relocationOffset), st.2)
      else if (roundShdr c info i st).shSize = 0 then .next st
      else if ¬ ReadInFull ia (roundShdr c info i st).shOffset (roundShdr c info i st).shSize then
        .quit (roundRead c ia info i st, roundPlace c info i st)
      else
        let t := (roundRead c ia info i st).store (.loadedSection (roundEntry c info i st).toNat)
          (roundEntry c info i st + BitVec.ofNat 32 c.shAddr) c.addrSize (roundPlace c info i st)
        .next (t, c.wrap (roundPlace c info i st +
          (readShdr t.mem (roundEntry c info i st) c).shSize)) := rfl
  rw [heq]
  by_cases ha : (roundShdr c info i st).shAddr ≠ 0
  · rw [if_pos ha]
    exact .moved ha
  rw [if_neg ha]
  by_cases hs : (roundShdr c info i st).shSize = 0
  · rw [if_pos hs]
    exact .empty (not_not.mp ha) hs
  rw [if_neg hs]
  by_cases hr : ReadInFull ia (roundShdr c info i st).shOffset (roundShdr c info i st).shSize
  · rw [if_neg (not_not.mpr hr)]
    exact .copied ⟨⟨not_not.mp ha, hs⟩, hr⟩ _ rfl
  · rw [if_pos hr]
    exact .short ⟨not_not.mp ha, hs⟩ hr

/-- A section that has been copied: its header in the copied table, its `sh_addr` there and what the header
said before. -/
structure CopiedSection where
  entry : BitVec 32
  addr : ℕ
  sh : Shdr

/-- No byte is of both sections. -/
def CopiedSection.Misses (x y : CopiedSection) : Prop :=
  Apart (BitVec.ofNat 32 x.addr) x.sh.shSize (BitVec.ofNat 32 y.addr) y.sh.shSize

/-- The section of a round that ends in the memory `m`, if it is copied. -/
def copiedIn (c : ElfClass) (ia : MemImageAccess) (info : ElfLoadInfo) (i : ℕ) (st : Loader × ℕ)
    (m : Memory 32) : List CopiedSection :=
  if RoundCopies c ia info i st then
    [⟨roundEntry c info i st, (readShdr m (roundEntry c info i st) c).shAddr, roundShdr c info i st⟩]
  else []

/-- The sections that the rounds from `i` on copy. -/
def copiedFrom (c : ElfClass) (ia : MemImageAccess) (info : ElfLoadInfo) :
    ℕ → ℕ → Loader × ℕ → List CopiedSection
  | 0, _, _ => []
  | fuel + 1, i, st =>
    if BelowBound 16 (loadedShnum c info) i st then
      match copySectionStep c ia info i st with
      | .next t => copiedIn c ia info i st t.1.mem ++ copiedFrom c ia info fuel (i + 1) t
      | _ => []
    else []

/-- The section of a round, where it is to go. -/
def placedIn (c : ElfClass) (ia : MemImageAccess) (info : ElfLoadInfo) (i : ℕ) (st : Loader × ℕ) :
    List CopiedSection :=
  if RoundCopies c ia info i st then
    [⟨roundEntry c info i st, roundPlace c info i st, roundShdr c info i st⟩]
  else []

/-- The header that a round moves and the bytes that it reads have room, and the section misses those
copied before. -/
@[mk_iff]
structure RoundFits (c : ElfClass) (ia : MemImageAccess) (info : ElfLoadInfo)
    (done : List CopiedSection) (i : ℕ) (st : Loader × ℕ) : Prop where
  header : (roundShdr c info i st).shAddr ≠ 0 ∨ RoundCopies c ia info i st →
    SectionWrite c info (roundEntry c info i st + BitVec.ofNat 32 c.shAddr) c.addrSize
  room : (roundShdr c info i st).Unloaded → SectionWrite c info
    (BitVec.ofNat 32 (roundPlace c info i st)) (sectionCount ia (roundShdr c info i st))
  apart : ∀ x ∈ done, ∀ y ∈ placedIn c ia info i st, x.Misses y

/-- Every round from `i` on is begun in such a state. -/
def RoundsFit (c : ElfClass) (ia : MemImageAccess) (info : ElfLoadInfo) :
    ℕ → List CopiedSection → ℕ → Loader × ℕ → Prop
  | 0, _, _, _ => True
  | fuel + 1, done, i, st =>
    BelowBound 16 (loadedShnum c info) i st → RoundFits c ia info done i st ∧
      ∀ t, copySectionStep c ia info i st = .next t →
        RoundsFit c ia info fuel (done ++ placedIn c ia info i st) (i + 1) t

section rounds
variable {o : Outcome (Loader × ℕ)} {t : Loader × ℕ} {done : List CopiedSection}

theorem roundPlace_lt (h : st.2 < 256 ^ c.addrSize) : roundPlace c info i st < 256 ^ c.addrSize := by
  unfold roundPlace place
  split
  · rw [pow_addrSize]
    exact BitVec.isLt _
  · exact h

/-- The address that a round carries on is one of the class. -/
theorem RoundEnds.next_lt (h : RoundEnds c ia info i st (.next t)) (hst : st.2 < 256 ^ c.addrSize) :
    t.2 < 256 ^ c.addrSize := by
  cases h with
  | moved ha => exact hst
  | empty ha hs => exact hst
  | copied h t ht => exact Nat.mod_lt _ (Nat.pow_pos (by decide))

/-- A section that is copied is told its place. -/
theorem RoundEnds.copiedIn_eq (h : RoundEnds c ia info i st (.next t)) (hst : st.2 < 256 ^ c.addrSize) :
    copiedIn c ia info i st t.1.mem = placedIn c ia info i st := by
  unfold copiedIn placedIn
  split
  next hcopy =>
    cases h with
    | moved ha => exact absurd hcopy.1.1 ha
    | empty ha hs => exact absurd hs hcopy.1.2
    | copied h t ht =>
      subst ht
      have haddr := congrArg Shdr.shAddr (readShdr_store_addr c (roundRead c ia info i st).mem
        (roundEntry c info i st) (roundPlace c info i st))
      dsimp only at haddr
      rw [Nat.mod_eq_of_lt (roundPlace_lt hst)] at haddr
      unfold Loader.store
      dsimp only
      rw [haddr]
  next => rfl

theorem RoundEnds.trace_subset (h : RoundEnds c ia info i st o) {e : Event} (he : e ∈ st.1.trace) :
    e ∈ o.state.1.trace := by
  have hread : e ∈ (roundRead c ia info i st).trace :=
    List.mem_cons_of_mem _ (List.mem_cons_of_mem _ (List.mem_cons_of_mem _ he))
  cases h with
  | moved ha => exact List.mem_cons_of_mem _ he
  | empty ha hs => exact he
  | copied h t ht =>
    subst ht
    exact List.mem_cons_of_mem _ hread
  | short hu hr => exact hread

/-- The write of a section that is copied. -/
theorem RoundEnds.write_mem (h : RoundEnds c ia info i st o) (hcopy : RoundCopies c ia info i st) :
    .write (.loadedSection (roundPlace c info i st)) (BitVec.ofNat 32 (roundPlace c info i st))
      (roundShdr c info i st).shSize ∈ o.state.1.trace := by
  cases h with
  | moved ha => exact absurd hcopy.1.1 ha
  | empty ha hs => exact absurd hs hcopy.1.2
  | copied h t ht =>
    subst ht
    refine List.mem_cons_of_mem _ ?_
    have hread : Event.write (.loadedSection (roundPlace c info i st))
        (BitVec.ofNat 32 (roundPlace c info i st)) _ ∈ (roundRead c ia info i st).trace :=
      List.mem_cons_self
    rwa [show _ = (roundShdr c info i st).shSize from hcopy.2] at hread
  | short hu hr => exact absurd hcopy.2 hr

/-- What a round writes has room exactly if its header and its section have. -/
theorem RoundEnds.writesIn_iff (h : RoundEnds c ia info i st o) :
    WritesIn (SectionWrite c info) o.state.1 ↔ WritesIn (SectionWrite c info) st.1 ∧
      ((roundShdr c info i st).shAddr ≠ 0 ∨ RoundCopies c ia info i st →
        SectionWrite c info (roundEntry c info i st + BitVec.ofNat 32 c.shAddr) c.addrSize) ∧
      ((roundShdr c info i st).Unloaded → SectionWrite c info
        (BitVec.ofNat 32 (roundPlace c info i st)) (sectionCount ia (roundShdr c info i st))) := by
  have hread : WritesIn (SectionWrite c info) (roundRead c ia info i st) ↔
      WritesIn (SectionWrite c info) st.1 ∧ SectionWrite c info
        (BitVec.ofNat 32 (roundPlace c info i st)) (sectionCount ia (roundShdr c info i st)) :=
    writesIn_read
  cases h with
  | moved ha =>
    refine writesIn_store.trans (and_congr_right fun _ => ?_)
    exact ⟨fun hw => ⟨fun _ => hw, fun hu => absurd hu.1 ha⟩, fun hw => hw.1 (.inl ha)⟩
  | empty ha hs =>
    refine (and_iff_left ⟨?_, fun hu => absurd hs hu.2⟩).symm
    rintro (ha' | hcopy)
    · exact absurd ha ha'
    · exact absurd hs hcopy.1.2
  | copied h t ht =>
    subst ht
    refine writesIn_store.trans ?_
    rw [hread, and_assoc]
    refine and_congr_right fun _ => ⟨fun hw => ⟨fun _ => hw.2, fun _ => hw.1⟩, fun hw => ?_⟩
    exact ⟨hw.2 h.1, hw.1 (.inr h)⟩
  | short hu hr =>
    refine hread.trans (and_congr_right fun _ => ⟨fun hw => ⟨?_, fun _ => hw⟩, fun hw => hw.2 hu⟩)
    rintro (ha | hcopy)
    · exact absurd hu.1 ha
    · exact absurd hcopy.2 hr

/-- A list that misses what is done, behind one that does. -/
theorem pairwise_append_done {α : Type*} {R : α → α → Prop} {done now rest : List α}
    (hnow : now.Pairwise R) :
    ((now ++ rest).Pairwise R ∧ ∀ x ∈ done, ∀ y ∈ now ++ rest, R x y) ↔
      (∀ x ∈ done, ∀ y ∈ now, R x y) ∧ rest.Pairwise R ∧ ∀ x ∈ done ++ now, ∀ y ∈ rest, R x y := by
  simp only [List.pairwise_append, List.mem_append, or_imp, forall_and]
  constructor
  · rintro ⟨⟨_, hrest, hcross⟩, hdone, hdone'⟩
    exact ⟨hdone, hrest, hdone', hcross⟩
  · rintro ⟨hdone, hrest, hdone', hcross⟩
    exact ⟨⟨hnow, hrest, hcross⟩, hdone, hdone'⟩

theorem pairwise_placedIn : (placedIn c ia info i st).Pairwise CopiedSection.Misses := by
  unfold placedIn
  split
  · exact List.pairwise_singleton _ _
  · exact List.Pairwise.nil

/-- Where nothing more is copied nothing more is asked. -/
theorem nothing_copied_iff {P Q : Prop} (hq : P → Q) : (P ∧
    ([] : List CopiedSection).Pairwise CopiedSection.Misses ∧
      ∀ x ∈ done, ∀ y ∈ ([] : List CopiedSection), x.Misses y) ↔ P ∧ Q :=
  and_congr_right fun hp => iff_of_true
    ⟨List.Pairwise.nil, fun _ _ _ hy => absurd hy List.not_mem_nil⟩ (hq hp)

/-- From round `i` on the copies have room, and their sections miss each other and those before, exactly if
each round is begun in a state in which they do. -/
theorem copiedFrom_iff (hst : st.2 < 256 ^ c.addrSize) :
    (WritesIn (SectionWrite c info) (run (BelowBound 16 (loadedShnum c info))
          (copySectionStep c ia info) fuel i st).state.1 ∧
        (copiedFrom c ia info fuel i st).Pairwise CopiedSection.Misses ∧
        ∀ x ∈ done, ∀ y ∈ copiedFrom c ia info fuel i st, x.Misses y) ↔
      WritesIn (SectionWrite c info) st.1 ∧ RoundsFit c ia info fuel done i st := by
  induction fuel generalizing done i st with
  | zero =>
    unfold run copiedFrom RoundsFit
    split <;> exact nothing_copied_iff fun _ => trivial
  | succ fuel ih =>
    unfold run copiedFrom RoundsFit
    by_cases hc : BelowBound 16 (loadedShnum c info) i st
    · rw [if_pos hc, if_pos hc, imp_iff_right hc, roundFits_iff]
      have hround := roundEnds c ia info i st
      cases he : copySectionStep c ia info i st with
      | next t =>
        rw [he] at hround
        have hrest : _ ↔ WritesIn (SectionWrite c info) t.1 ∧
            RoundsFit c ia info fuel (done ++ placedIn c ia info i st) (i + 1) t :=
          ih (hround.next_lt hst)
        have hwrites : WritesIn (SectionWrite c info) t.1 ↔ _ := hround.writesIn_iff
        have hnext : (∀ u, Outcome.next t = .next u → RoundsFit c ia info fuel
            (done ++ placedIn c ia info i st) (i + 1) u) ↔
              RoundsFit c ia info fuel (done ++ placedIn c ia info i st) (i + 1) t :=
          ⟨fun h => h t rfl, fun h u hu => by cases hu; exact h⟩
        dsimp only
        rw [hround.copiedIn_eq hst, pairwise_append_done pairwise_placedIn, and_left_comm, hrest,
          hwrites, hnext]
        constructor
        · rintro ⟨hapart, ⟨hw, hheader, hroom⟩, hfit⟩
          exact ⟨hw, ⟨hheader, hroom, hapart⟩, hfit⟩
        · rintro ⟨hw, ⟨hheader, hroom, hapart⟩, hfit⟩
          exact ⟨hapart, ⟨hw, hheader, hroom⟩, hfit⟩
      | quit t =>
        rw [he] at hround
        have hwrites : WritesIn (SectionWrite c info) t.1 ↔ _ := hround.writesIn_iff
        have hnone : placedIn c ia info i st = [] := by
          cases hround with
          | short hu hr => exact if_neg fun hcopy => hr hcopy.2
        refine (nothing_copied_iff (Q := True) fun _ => trivial).trans ?_
        dsimp only [Outcome.state]
        rw [and_true, hwrites, hnone]
        refine and_congr_right fun _ => ⟨fun h => ⟨⟨h.1, h.2, ?_⟩, fun u hu => by cases hu⟩,
          fun h => ⟨h.1.1, h.1.2.1⟩⟩
        exact fun _ _ _ hy => absurd hy List.not_mem_nil
      | spent t =>
        rw [he] at hround
        cases hround
    · rw [if_neg hc, if_neg hc]
      exact nothing_copied_iff fun _ h => absurd h hc

theorem trace_subset_run {e : Event} (he : e ∈ st.1.trace) :
    e ∈ (run (BelowBound 16 (loadedShnum c info)) (copySectionStep c ia info) fuel i st).state.1.trace := by
  refine run_state (fun st : Loader × ℕ => e ∈ st.1.trace) (fun i st _ he => ?_) he
  have hround := (roundEnds c ia info i st).trace_subset he
  cases ho : copySectionStep c ia info i st <;> rw [ho] at hround <;> exact hround

/-- A section that is copied is read to its `sh_addr`, which keeps an alignment by a power of two. -/
theorem copiedFrom_spec (hst : st.2 < 256 ^ c.addrSize) : ∀ x ∈ copiedFrom c ia info fuel i st,
    .write (.loadedSection x.addr) (BitVec.ofNat 32 x.addr) x.sh.shSize ∈
        (run (BelowBound 16 (loadedShnum c info)) (copySectionStep c ia info) fuel i st).state.1.trace ∧
      ∀ k, x.sh.shAddralign = 2 ^ k → x.addr % 2 ^ k = 0 := by
  induction fuel generalizing i st with
  | zero => exact fun x hx => absurd hx List.not_mem_nil
  | succ fuel ih =>
    unfold run copiedFrom
    by_cases hc : BelowBound 16 (loadedShnum c info) i st
    · rw [if_pos hc, if_pos hc]
      have hround := roundEnds c ia info i st
      cases he : copySectionStep c ia info i st with
      | next t =>
        rw [he] at hround
        dsimp only
        rw [hround.copiedIn_eq hst]
        intro x hx
        rcases List.mem_append.mp hx with hx | hx
        · unfold placedIn at hx
          split at hx
          next hcopy =>
            rw [List.mem_singleton] at hx
            subst hx
            exact ⟨trace_subset_run (hround.write_mem hcopy), fun k hk => place_mod hk⟩
          next => exact absurd hx List.not_mem_nil
        · exact ih (hround.next_lt hst) x hx
      | quit t => exact fun x hx => absurd hx List.not_mem_nil
      | spent t => exact fun x hx => absurd hx List.not_mem_nil
    · rw [if_neg hc, if_neg hc]
      exact fun x hx => absurd hx List.not_mem_nil

end rounds

/-- The state after the optional copies from the memory `m`, its trace that of the copies alone. -/
def afterCopies (c : ElfClass) (m : Memory 32) (ia : MemImageAccess) (info : ElfLoadInfo) (fuel : ℕ) :
    Loader := (copyTables c ⟨m, []⟩ ia info fuel).1

/-- Where the rounds of `copy_sections` begin. -/
def copiesStart (c : ElfClass) (m : Memory 32) (ia : MemImageAccess) (info : ElfLoadInfo) : Loader × ℕ :=
  copyStart c (copySectionHeaderTable c ⟨m, []⟩ ia info).1 info

def copiedSections (c : ElfClass) (m : Memory 32) (ia : MemImageAccess) (info : ElfLoadInfo) (fuel : ℕ) :
    List CopiedSection :=
  copiedFrom c ia info fuel 0 (copiesStart c m ia info)

/-- The copies write between the place of the section header table and the end, apart from `e_shoff`;
each section is read to its `sh_addr`, no two overlap, and alignments by powers of two are kept. -/
structure SectionsPlaced (c : ElfClass) (m : Memory 32) (ia : MemImageAccess) (info : ElfLoadInfo)
    (fuel : ℕ) : Prop where
  inside : WritesIn (SectionWrite c info) (afterCopies c m ia info fuel)
  read : ∀ x ∈ copiedSections c m ia info fuel,
    .write (.loadedSection x.addr) (BitVec.ofNat 32 x.addr) x.sh.shSize ∈
      (afterCopies c m ia info fuel).trace
  disjoint : (copiedSections c m ia info fuel).Pairwise CopiedSection.Misses
  aligned : ∀ x ∈ copiedSections c m ia info fuel, ∀ k, x.sh.shAddralign = 2 ^ k → x.addr % 2 ^ k = 0

/-- As much of the section header table as the file holds has room behind the place of the table. -/
def TableFits (c : ElfClass) (m : Memory 32) (ia : MemImageAccess) (info : ElfLoadInfo) : Prop :=
  let eh := readEhdr m (BitVec.ofNat 32 info.startAddr) c
  headerIsValid m (BitVec.ofNat 32 info.startAddr) c →
    SectionWrite c info (BitVec.ofNat 32 info.sectionsAddr)
      (clamp ia (BitVec.ofNat 32 eh.eShoff) (tableSize eh.eShentsize eh.eShnum)).toNat

/-- The table has room, and every round of `copy_sections` is begun in a state in which its header and its
section have, apart from the sections before. -/
def CopiesFit (c : ElfClass) (m : Memory 32) (ia : MemImageAccess) (info : ElfLoadInfo) (fuel : ℕ) : Prop :=
  TableFits c m ia info ∧ RoundsFit c ia info fuel [] 0 (copiesStart c m ia info)

theorem copySections_state {s : Loader} : (copySections c s ia info fuel).1 =
    (run (BelowBound 16 (loadedShnum c info)) (copySectionStep c ia info) fuel 0
      (copyStart c s info)).state.1 := by
  rw [copySections_eq]
  cases run (BelowBound 16 (loadedShnum c info)) (copySectionStep c ia info) fuel 0
    (copyStart c s info) <;> rfl

/-- With both flags set both copies are run, whatever the first returns. -/
theorem afterCopies_eq (hh : info.copySectionHeaders = true) (hs : info.copySymbolTables = true) :
    afterCopies c m ia info fuel = (run (BelowBound 16 (loadedShnum c info)) (copySectionStep c ia info)
      fuel 0 (copiesStart c m ia info)).state.1 := by
  unfold afterCopies copyTables
  rw [if_pos (.inl hh)]
  dsimp only
  rw [if_pos hs, copySections_state]
  rfl

theorem tableFits_iff : WritesIn (SectionWrite c info) (copySectionHeaderTable c ⟨m, []⟩ ia info).1 ↔
    TableFits c m ia info := by
  have hempty : WritesIn (SectionWrite c info) ⟨m, []⟩ := fun _ _ _ hm => absurd hm List.not_mem_nil
  have hshoff : SectionWrite c info (BitVec.ofNat 32 info.startAddr + BitVec.ofNat 32 c.eShoff)
      c.addrSize := by
    have hsize : c.addrSize ≤ 8 := by cases c <;> decide
    exact fun b hb => .inl ((inSpan_add_ofNat (by omega)).mpr hb)
  unfold TableFits copySectionHeaderTable
  dsimp only
  by_cases hvalid : headerIsValid m (BitVec.ofNat 32 info.startAddr) c
  · rw [if_neg (not_not.mpr hvalid), imp_iff_right hvalid]
    split
    · rw [writesIn_read, and_iff_right hempty]
    · rw [writesIn_store, writesIn_read, and_iff_right hempty, and_iff_left hshoff]
  · rw [if_pos hvalid]
    exact iff_of_true hempty fun h => absurd h hvalid

theorem copiesStart_lt : (copiesStart c m ia info).2 < 256 ^ c.addrSize :=
  Nat.mod_lt _ (Nat.pow_pos (by decide))

/-- The copies are as they should be exactly if they fit, from any memory. -/
theorem sectionsPlaced_iff (hh : info.copySectionHeaders = true) (hs : info.copySymbolTables = true) :
    SectionsPlaced c m ia info fuel ↔ CopiesFit c m ia info fuel := by
  have hrounds : _ ↔ WritesIn (SectionWrite c info) (copiesStart c m ia info).1 ∧
      RoundsFit c ia info fuel [] 0 (copiesStart c m ia info) := copiedFrom_iff copiesStart_lt
  have htable : WritesIn (SectionWrite c info) (copiesStart c m ia info).1 ↔ _ := tableFits_iff
  rw [← afterCopies_eq hh hs, htable] at hrounds
  refine Iff.trans ?_ hrounds
  constructor
  · intro h
    exact ⟨h.inside, h.disjoint, fun _ hx => absurd hx List.not_mem_nil⟩
  · rintro ⟨hin, hpair, _⟩
    refine ⟨hin, fun x hx => ?_, hpair, fun x hx => (copiedFrom_spec copiesStart_lt x hx).2⟩
    rw [afterCopies_eq hh hs]
    exact (copiedFrom_spec copiesStart_lt x hx).1

end IkgtLoader.Ld
