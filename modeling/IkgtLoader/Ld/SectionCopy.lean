import IkgtLoader.Ld.SectionRounds

/-! `copy_sections` over a table of section headers that lies in front of the sections and behind the
loaded ELF header. -/
namespace IkgtLoader.Ld
open Flat Loop

namespace ElfClass

def shdrSize : ElfClass → ℕ
  | .elfclass32 => 40
  | .elfclass64 => 64

end ElfClass

theorem readShdr_congr {c : ElfClass} {m m' : Memory 32} {p p' : BitVec 32}
    (h : Memory.Same m p m' p' c.shdrSize) : readShdr m p c = readShdr m' p' c := by
  cases c <;>
  · unfold readShdr ElfClass.shdrSize at *
    simp only [Shdr.mk.injEq]
    refine ⟨?_, ?_, ?_, ?_⟩ <;> exact field_congr h (by decide)

theorem two_pow_le (c : ElfClass) : 2 ^ 32 ≤ 256 ^ c.addrSize := by
  cases c <;> decide

/-- A load info whose section header table of `n` entries, and the sections behind it, lie between
the loaded ELF header and the end, below the top of the addresses. -/
structure Copying (c : ElfClass) (info : ElfLoadInfo) (sh : ℕ → Shdr) (n entsize : ℕ) : Prop where
  shnum : n < 0x8000
  record : 0 < n → c.shdrSize ≤ entsize
  below : info.startAddr + c.ehdrSize ≤ info.sectionsAddr
  table : info.sectionsAddr + n * entsize ≤ info.endAddr
  top : info.endAddr < 2 ^ 32
  rises : Rises c sh (info.sectionsAddr + n * entsize) n (2 ^ 32)

/-- The copied header `i`. -/
def copiedEntry (info : ElfLoadInfo) (entsize i : ℕ) : BitVec 32 :=
  tableEntry (BitVec.ofNat 32 info.sectionsAddr) i entsize

section copying
variable {c : ElfClass} {info : ElfLoadInfo} {sh : ℕ → Shdr} {n entsize i j : ℕ} {m m' : Memory 32}
  (h : Copying c info sh n entsize)
include h

theorem Copying.entry_end (hi : i < n) :
    i * entsize + entsize ≤ n * entsize ∧ info.sectionsAddr + n * entsize ≤ 2 ^ 32 := by
  have hle : (i + 1) * entsize ≤ n * entsize := Nat.mul_le_mul_right _ hi
  rw [Nat.succ_mul] at hle
  have htable := h.table
  have htop := h.top
  exact ⟨hle, by omega⟩

theorem Copying.copiedEntry_toNat (hi : i < n) :
    (copiedEntry info entsize i).toNat = info.sectionsAddr + i * entsize := by
  obtain ⟨hend, htop⟩ := h.entry_end hi
  have hsize : 0 < entsize := by
    have := h.record (by omega)
    have : 0 < c.shdrSize := by cases c <;> decide
    omega
  unfold copiedEntry tableEntry
  rw [← BitVec.ofNat_add]
  exact toNat_ofNat_of_lt (by omega)

theorem Copying.readEhdr_kept (hm : ∀ x, x.toNat < info.sectionsAddr → m' x = m x) :
    readEhdr m' (BitVec.ofNat 32 info.startAddr) c =
      readEhdr m (BitVec.ofNat 32 info.startAddr) c := by
  have hbelow := h.below
  have htable := h.table
  have htop := h.top
  have hpos : 0 < c.ehdrSize := by cases c <;> decide
  apply readEhdr_congr
  apply Memory.Same.of_unchanged _ (by omega)
  intro x hx
  rw [inSpan_iff (by rw [toNat_ofNat_of_lt (by omega)]; omega), toNat_ofNat_of_lt (by omega)] at hx
  exact hm x (by omega)

theorem Copying.readShdr_kept (hj : j < n) (hm : ∀ x, info.sectionsAddr + j * entsize ≤ x.toNat →
      x.toNat < info.sectionsAddr + j * entsize + entsize → m' x = m x) :
    readShdr m' (copiedEntry info entsize j) c = readShdr m (copiedEntry info entsize j) c := by
  obtain ⟨hend, htop⟩ := h.entry_end hj
  have hent := h.record (by omega)
  apply readShdr_congr
  apply Memory.Same.of_unchanged _ (by omega)
  intro x hx
  rw [inSpan_iff (by rw [h.copiedEntry_toNat hj]; omega), h.copiedEntry_toNat hj] at hx
  exact hm x (by omega) (by omega)

/-- Bytes behind the table leave both. -/
theorem Copying.frame_below (hm : ∀ x, x.toNat < info.sectionsAddr + n * entsize → m' x = m x) :
    readEhdr m' (BitVec.ofNat 32 info.startAddr) c = readEhdr m (BitVec.ofNat 32 info.startAddr) c ∧
      ∀ j < n, readShdr m' (copiedEntry info entsize j) c =
        readShdr m (copiedEntry info entsize j) c := by
  refine ⟨h.readEhdr_kept fun x hx => hm x (by omega), fun j hj => ?_⟩
  obtain ⟨hend, _⟩ := h.entry_end hj
  exact h.readShdr_kept hj fun x _ hx => hm x (by omega)

/-- A new `sh_addr` in the header `i` changes nothing but bytes of that header. -/
theorem Copying.store_unchanged (hi : i < n) (v : ℕ) {x : BitVec 32}
    (hx : x.toNat < info.sectionsAddr + i * entsize ∨
      info.sectionsAddr + i * entsize + entsize ≤ x.toNat) :
    m.store (copiedEntry info entsize i + BitVec.ofNat 32 c.shAddr) c.addrSize v x = m x := by
  obtain ⟨hend, htop⟩ := h.entry_end hi
  have hsize : c.shAddr + c.addrSize ≤ c.shdrSize := by cases c <;> decide
  have hent := h.record (by omega)
  have haddr : 0 < c.addrSize := by cases c <;> decide
  have hentry := h.copiedEntry_toNat hi
  apply Memory.store_of_not_inSpan
  rw [inSpan_offset (by omega), BitVec.toNat_sub]
  have hx' := x.isLt
  omega

/-- It leaves the ELF header and the other headers. -/
theorem Copying.frame_entry (hi : i < n) (v : ℕ) :
    let t := m.store (copiedEntry info entsize i + BitVec.ofNat 32 c.shAddr) c.addrSize v
    readEhdr t (BitVec.ofNat 32 info.startAddr) c = readEhdr m (BitVec.ofNat 32 info.startAddr) c ∧
      ∀ j < n, j ≠ i → readShdr t (copiedEntry info entsize j) c =
        readShdr m (copiedEntry info entsize j) c := by
  intro t
  constructor
  · exact h.readEhdr_kept fun x hx => h.store_unchanged hi v (.inl (by omega))
  · intro j hj hne
    refine h.readShdr_kept hj fun x hx1 hx2 => h.store_unchanged hi v ?_
    rcases Nat.lt_or_gt_of_ne hne with hlt | hgt
    · have hle : (j + 1) * entsize ≤ i * entsize := Nat.mul_le_mul_right _ hlt
      rw [Nat.succ_mul] at hle
      exact .inl (by omega)
    · have hle : (i + 1) * entsize ≤ j * entsize := Nat.mul_le_mul_right _ hgt
      rw [Nat.succ_mul] at hle
      exact .inr (by omega)

end copying

/-- What is read of section `i` ends below the end. -/
def SectionFits (c : ElfClass) (ia : MemImageAccess) (info : ElfLoadInfo) (sh : ℕ → Shdr) (a i : ℕ) :
    Prop :=
  (sh i).Unloaded → ∀ b < sectionCount ia (sh i), placeOf c sh a i + b < info.endAddr

/-- The copy goes on after such a section. -/
def Shdr.Passes (ia : MemImageAccess) (sh : Shdr) : Prop :=
  sh.Unloaded → ReadInFull ia sh.shOffset sh.shSize

section writes
variable {c : ElfClass} {ia : MemImageAccess} {info : ElfLoadInfo} {sh : ℕ → Shdr} {n entsize i : ℕ}
  (h : Copying c info sh n entsize)
include h

theorem Copying.sectionWrite_entry (hi : i < n) :
    SectionWrite c info (copiedEntry info entsize i + BitVec.ofNat 32 c.shAddr) c.addrSize := by
  intro b hb
  right
  obtain ⟨hend, htop⟩ := h.entry_end hi
  have hsize : c.shAddr + c.addrSize ≤ c.shdrSize := by cases c <;> decide
  have hent := h.record (by omega)
  have htable := h.table
  have hentry := h.copiedEntry_toNat hi
  rw [add_ofNat_ofNat, BitVec.toNat_add, hentry, BitVec.toNat_ofNat]
  omega

/-- A write behind the table, of a number of bytes that may be too great. -/
theorem Copying.sectionWrite_iff {a k : ℕ} (ha : info.sectionsAddr + n * entsize ≤ a) (hlt : a < 2 ^ 32) :
    SectionWrite c info (BitVec.ofNat 32 a) k ↔ ∀ b < k, a + b < info.endAddr := by
  have hbelow := h.below
  have htop := h.top
  have htable := h.table
  have hfield : c.eShoff + c.addrSize ≤ c.ehdrSize := by cases c <;> decide
  constructor
  · intro hin b hb
    by_contra hge
    rcases Nat.lt_or_ge a info.endAddr with hlow | hhigh
    · -- the first byte at the end
      have hlast := hin (info.endAddr - a) (by omega)
      rw [← BitVec.ofNat_add, ← BitVec.ofNat_add, show a + (info.endAddr - a) = info.endAddr by omega,
        inSpan_iff (by rw [toNat_ofNat_of_lt (by omega)]; omega), toNat_ofNat_of_lt (by omega),
        toNat_ofNat_of_lt (by omega)] at hlast
      omega
    · -- the first byte of all
      have hfirst := hin 0 (by omega)
      rw [← BitVec.ofNat_add, ← BitVec.ofNat_add, Nat.add_zero,
        inSpan_iff (by rw [toNat_ofNat_of_lt (by omega)]; omega), toNat_ofNat_of_lt (by omega),
        toNat_ofNat_of_lt hlt] at hfirst
      omega
  · intro hfit b hb
    right
    have hb' := hfit b hb
    rw [← BitVec.ofNat_add, toNat_ofNat_of_lt (by omega)]
    omega

/-- The places lie behind the table and below the top. -/
theorem Copying.start_le_placeOf (hi : i < n) (hu : (sh i).Unloaded) :
    info.sectionsAddr + n * entsize ≤ placeOf c sh (info.sectionsAddr + n * entsize) i ∧
      placeOf c sh (info.sectionsAddr + n * entsize) i + (sh i).shSize < 2 ^ 32 :=
  ⟨h.rises.start_le_placeOf (two_pow_le c) hi hu, (h.rises i hi hu).2⟩

end writes

/-- The header of section `j` in the copied table names its place. -/
def NamedAt (c : ElfClass) (info : ElfLoadInfo) (sh : ℕ → Shdr) (n entsize : ℕ) (m : Memory 32) (j : ℕ) :
    Prop :=
  (readShdr m (copiedEntry info entsize j) c).shAddr = placeOf c sh (info.sectionsAddr + n * entsize) j

/-- The sections below `i` have been gone through: those without an address have their place. -/
structure CopiedUpTo (c : ElfClass) (info : ElfLoadInfo) (sh : ℕ → Shdr) (n entsize i : ℕ)
    (st : Loader × ℕ) : Prop where
  shnum : loadedShnum c info st = n
  record : (readEhdr st.1.mem (BitVec.ofNat 32 info.startAddr) c).eShentsize = entsize
  current : st.2 = cursor c sh (info.sectionsAddr + n * entsize) i
  rest : ∀ j, i ≤ j → j < n → readShdr st.1.mem (copiedEntry info entsize j) c = sh j
  named : ∀ j < i, (sh j).Unloaded → NamedAt c info sh n entsize st.1.mem j

section round
variable {c : ElfClass} {ia : MemImageAccess} {info : ElfLoadInfo} {sh : ℕ → Shdr}
  {n entsize i : ℕ} {st t : Loader × ℕ} {o : Outcome (Loader × ℕ)}

/-- The header that a round looks at. -/
theorem shdrAddress_eq_copiedEntry (c : ElfClass) (info : ElfLoadInfo) (entsize : ℕ) (hi : i < 0x8000) :
    shdrAddress c info.sectionsAddr i entsize = copiedEntry info entsize i := by
  have hc : copiedIndex c i = (i : ℤ) := by
    cases c with
    | elfclass32 =>
      unfold copiedIndex
      dsimp only
      rw [toNat_ofNat_of_lt (by omega)]
    | elfclass64 => exact counter_of_lt (w := 16) hi
  rw [shdrAddress_eq, hc]
  unfold copiedEntry tableEntry
  norm_cast

variable (h : Copying c info sh n entsize) (hst : CopiedUpTo c info sh n entsize i st) (hi : i < n)
include h hst hi

/-- A store to `sh_addr` of the header `i` takes its section for copied. -/
theorem CopiedUpTo.store {s : Loader} {a v : ℕ} {site : Site}
    (hs : ∀ x, x.toNat < info.sectionsAddr + n * entsize → s.mem x = st.1.mem x)
    (hv : (sh i).Unloaded → v = placeOf c sh (info.sectionsAddr + n * entsize) i)
    (ha : a = cursor c sh (info.sectionsAddr + n * entsize) (i + 1)) :
    CopiedUpTo c info sh n entsize (i + 1)
      (s.store site (copiedEntry info entsize i + BitVec.ofNat 32 c.shAddr) c.addrSize v, a) := by
  obtain ⟨hehdr, hothers⟩ := h.frame_below hs
  obtain ⟨hehdr', hothers'⟩ := h.frame_entry (m := s.mem) hi v
  constructor
  · exact (congrArg Ehdr.eShnum (hehdr'.trans hehdr)).trans hst.shnum
  · exact (congrArg Ehdr.eShentsize (hehdr'.trans hehdr)).trans hst.record
  · exact ha
  · intro j hij hj
    exact (hothers' j hj (by omega)).trans ((hothers j hj).trans (hst.rest j (by omega) hj))
  · intro j hj hu
    unfold NamedAt Loader.store
    dsimp only
    rcases Nat.lt_succ_iff_lt_or_eq.mp hj with hlt | rfl
    · rw [hothers' j (by omega) (by omega), hothers j (by omega)]
      exact hst.named j hlt hu
    · have hplace := (h.rises j hi hu).2
      have hlimit := two_pow_le c
      rw [readShdr_store_addr, hv hu]
      exact Nat.mod_eq_of_lt (by omega)

/-- What the round looks at. -/
theorem CopiedUpTo.round_eq : roundEntry c info i st = copiedEntry info entsize i ∧
    roundShdr c info i st = sh i ∧
      roundPlace c info i st = placeOf c sh (info.sectionsAddr + n * entsize) i := by
  have hshnum := h.shnum
  have hentry : roundEntry c info i st = copiedEntry info entsize i := by
    unfold roundEntry
    rw [hst.record]
    exact shdrAddress_eq_copiedEntry c info entsize (by omega)
  have hshdr : roundShdr c info i st = sh i := by
    unfold roundShdr
    rw [hentry]
    exact hst.rest i le_rfl hi
  refine ⟨hentry, hshdr, ?_⟩
  unfold roundPlace placeOf
  rw [hshdr, hst.current]

/-- What it writes has room exactly if its section fits. -/
theorem CopiedUpTo.writesIn_iff (ho : RoundEnds c ia info i st o) :
    WritesIn (SectionWrite c info) o.state.1 ↔ WritesIn (SectionWrite c info) st.1 ∧
      SectionFits c ia info sh (info.sectionsAddr + n * entsize) i := by
  obtain ⟨hentry, hshdr, hplace⟩ := hst.round_eq h hi
  rw [ho.writesIn_iff, hentry, hshdr, hplace]
  refine and_congr_right fun _ => (and_iff_right fun _ => h.sectionWrite_entry hi).trans ?_
  refine forall_congr' fun hu => ?_
  obtain ⟨hge, hlt⟩ := h.start_le_placeOf hi hu
  exact h.sectionWrite_iff hge (by omega)

/-- The read of its section, as long as it stays below the top, leaves all that lies before. -/
theorem CopiedUpTo.read_below (hu : (sh i).Unloaded)
    (htop : placeOf c sh (info.sectionsAddr + n * entsize) i + sectionCount ia (sh i) ≤ 2 ^ 32)
    {x : BitVec 32} (hx : x.toNat < info.sectionsAddr + n * entsize) :
    (roundRead c ia info i st).mem x = st.1.mem x := by
  obtain ⟨_, hshdr, hplace⟩ := hst.round_eq h hi
  obtain ⟨hge, hlt⟩ := h.start_le_placeOf hi hu
  unfold roundRead
  rw [hshdr, hplace]
  apply Memory.copy_of_not_inSpan
  change ¬ InSpan _ (sectionCount ia (sh i)) x
  rw [inSpan_iff (by rw [toNat_ofNat_of_lt (by omega)]; exact htop), toNat_ofNat_of_lt (by omega)]
  omega

/-- A round that goes on has gone through its section, which was read in full if no segment brings it. -/
theorem CopiedUpTo.next (ho : RoundEnds c ia info i st (.next t)) :
    CopiedUpTo c info sh n entsize (i + 1) t ∧ (sh i).Passes ia := by
  obtain ⟨hentry, hshdr, hplace⟩ := hst.round_eq h hi
  have hskip : ¬ (sh i).Unloaded → cursor c sh (info.sectionsAddr + n * entsize) (i + 1) =
      cursor c sh (info.sectionsAddr + n * entsize) i := fun hu => by rw [cursor, if_neg hu]
  cases ho with
  | moved ha =>
    rw [hshdr] at ha
    have hu : ¬ (sh i).Unloaded := fun hu => ha hu.1
    rw [hentry]
    exact ⟨hst.store h hi (fun _ _ => rfl) (fun hu' => absurd hu' hu) (hst.current.trans (hskip hu).symm),
      fun hu' => absurd hu' hu⟩
  | empty ha hs =>
    rw [hshdr] at hs
    have hu : ¬ (sh i).Unloaded := fun hu => hu.2 hs
    refine ⟨⟨hst.shnum, hst.record, hst.current.trans (hskip hu).symm,
      fun j hij hj => hst.rest j (by omega) hj, fun j hj hu' => ?_⟩, fun hu' => absurd hu' hu⟩
    rcases Nat.lt_succ_iff_lt_or_eq.mp hj with hlt | rfl
    · exact hst.named j hlt hu'
    · exact absurd hu' hu
  | copied hcopy t ht =>
    unfold RoundCopies at hcopy
    rw [hshdr] at hcopy
    obtain ⟨hu, hread⟩ := hcopy
    obtain ⟨hge, hlt⟩ := h.start_le_placeOf hi hu
    have hcount : sectionCount ia (sh i) = (sh i).shSize := hread
    have hbelow : ∀ x, x.toNat < info.sectionsAddr + n * entsize →
        (roundRead c ia info i st).mem x = st.1.mem x :=
      fun x hx => hst.read_below h hi hu (by omega) hx
    rw [hentry, hplace] at ht
    subst ht
    refine ⟨?_, fun _ => hread⟩
    refine hst.store h hi hbelow (fun _ => rfl) ?_
    unfold Loader.store
    dsimp only
    rw [hentry, hplace, readShdr_store_addr, (h.frame_below hbelow).2 i hi, hst.rest i le_rfl hi, cursor,
      if_pos hu]
    rfl

/-- A round that ends the copy leaves the names of the sections before, as long as what it has read lies
below the end. -/
theorem CopiedUpTo.quit (ho : RoundEnds c ia info i st (.quit t)) : ¬ (sh i).Passes ia ∧
    (SectionFits c ia info sh (info.sectionsAddr + n * entsize) i → ∀ j < i, (sh j).Unloaded →
      NamedAt c info sh n entsize t.1.mem j) := by
  obtain ⟨hentry, hshdr, hplace⟩ := hst.round_eq h hi
  cases ho with
  | short hu hr =>
    rw [hshdr] at hu hr
    refine ⟨fun hp => hr (hp hu), fun hfit j hj hju => ?_⟩
    obtain ⟨hge, hlt⟩ := h.start_le_placeOf hi hu
    have htop := h.top
    have hcount : placeOf c sh (info.sectionsAddr + n * entsize) i + sectionCount ia (sh i) ≤ 2 ^ 32 := by
      rcases Nat.eq_zero_or_pos (sectionCount ia (sh i)) with hz | hpos
      · omega
      · have hlast := hfit hu (sectionCount ia (sh i) - 1) (by omega)
        omega
    unfold NamedAt
    dsimp only
    rw [(h.frame_below fun x hx => hst.read_below h hi hu hcount hx).2 j (by omega)]
    exact hst.named j hj hju

end round

/-- From section `i` on, the sections up to the first that is not read in full fit. -/
def FitFrom (c : ElfClass) (ia : MemImageAccess) (info : ElfLoadInfo) (sh : ℕ → Shdr) (a n i : ℕ) :
    Prop :=
  ∀ j, i ≤ j → j < n → (∀ k, i ≤ k → k < j → (sh k).Passes ia) → SectionFits c ia info sh a j

theorem fitFrom_succ {c : ElfClass} {ia : MemImageAccess} {info : ElfLoadInfo} {sh : ℕ → Shdr}
    {a n i : ℕ} (hi : i < n) : FitFrom c ia info sh a n i ↔
      SectionFits c ia info sh a i ∧ ((sh i).Passes ia → FitFrom c ia info sh a n (i + 1)) := by
  constructor
  · intro h
    refine ⟨h i le_rfl hi fun k h1 h2 => absurd h1 (by omega), fun hp j hij hj hpass => ?_⟩
    refine h j (by omega) hj fun k hk hkj => ?_
    rcases Nat.lt_or_eq_of_le hk with hlt | rfl
    · exact hpass k hlt hkj
    · exact hp
  · rintro ⟨hfit, hrest⟩ j hij hj hpass
    rcases Nat.lt_or_eq_of_le hij with hlt | rfl
    · exact hrest (hpass i le_rfl hlt) j hlt hj fun k hk hkj => hpass k (by omega) hkj
    · exact hfit

section run
variable {c : ElfClass} {info : ElfLoadInfo} {sh : ℕ → Shdr} {n entsize i fuel : ℕ} {st : Loader × ℕ}

/-- What holds at the end of the table and where a round ends the copy, and what the rounds pass on from
the rounds after them, holds of the loop and of the sections that it copies. -/
theorem CopiedUpTo.run_induction (h : Copying c info sh n entsize) (ia : MemImageAccess)
    (P : ℕ → Loader × ℕ → Outcome (Loader × ℕ) → List CopiedSection → Prop)
    (hdone : ∀ st, CopiedUpTo c info sh n entsize n st → P n st (.next st) [])
    (hnext : ∀ i st t o l, i < n → CopiedUpTo c info sh n entsize i st →
      RoundEnds c ia info i st (.next t) → P (i + 1) t o l →
        P i st o (placedIn c ia info i st ++ l))
    (hquit : ∀ i st t, i < n → CopiedUpTo c info sh n entsize i st →
      RoundEnds c ia info i st (.quit t) → P i st (.quit t) [])
    (hst : CopiedUpTo c info sh n entsize i st) (hi : i ≤ n) (hfuel : n ≤ i + fuel) :
    P i st (Loop.run (BelowBound 16 (loadedShnum c info)) (copySectionStep c ia info) fuel i st)
      (copiedFrom c ia info fuel i st) := by
  have hshnum := h.shnum
  have hcond : ∀ i st, i ≤ n → CopiedUpTo c info sh n entsize i st →
      (BelowBound 16 (loadedShnum c info) i st ↔ i < n) := by
    intro i st hi hst
    rw [belowBound_iff (w := 16) (show i < 0x8000 by omega), hst.shnum]
  induction fuel generalizing i st with
  | zero =>
    obtain rfl : i = n := by omega
    unfold Loop.run copiedFrom
    rw [if_neg fun hc => Nat.lt_irrefl i ((hcond i st le_rfl hst).mp hc)]
    exact hdone st hst
  | succ fuel ih =>
    unfold Loop.run copiedFrom
    rcases Nat.lt_or_eq_of_le hi with hlt | rfl
    · rw [if_pos ((hcond i st hi hst).mpr hlt), if_pos ((hcond i st hi hst).mpr hlt)]
      have hround := roundEnds c ia info i st
      cases he : copySectionStep c ia info i st with
      | next t =>
        rw [he] at hround
        have hcur : st.2 < 256 ^ c.addrSize := by
          have hcursor := h.rises.cursor_lt (two_pow_le c)
            (show info.sectionsAddr + n * entsize < 2 ^ 32 by have := h.table; have := h.top; omega) hi
          rw [hst.current]
          exact Nat.lt_of_lt_of_le hcursor (two_pow_le c)
        dsimp only
        rw [hround.copiedIn_eq hcur]
        exact hnext i st t _ _ hlt hst hround (ih (hst.next h hlt hround).1 hlt (by omega))
      | quit t =>
        rw [he] at hround
        exact hquit i st t hlt hst hround
      | spent t =>
        rw [he] at hround
        cases hround
    · rw [if_neg fun hc => Nat.lt_irrefl i ((hcond i st le_rfl hst).mp hc),
        if_neg fun hc => Nat.lt_irrefl i ((hcond i st le_rfl hst).mp hc)]
      exact hdone st hst

variable {ia : MemImageAccess} (h : Copying c info sh n entsize)
  (hst : CopiedUpTo c info sh n entsize i st) (hi : i ≤ n) (hfuel : n ≤ i + fuel)
include h hst hi hfuel

/-- The loop of `copy_sections` writes where it should exactly if the sections that it comes to fit. -/
theorem CopiedUpTo.run_writesIn : WritesIn (SectionWrite c info)
    (Loop.run (BelowBound 16 (loadedShnum c info)) (copySectionStep c ia info) fuel i st).state.1 ↔
      WritesIn (SectionWrite c info) st.1 ∧
        FitFrom c ia info sh (info.sectionsAddr + n * entsize) n i := by
  refine run_induction h ia (fun i st o _ => WritesIn (SectionWrite c info) o.state.1 ↔
    WritesIn (SectionWrite c info) st.1 ∧ FitFrom c ia info sh (info.sectionsAddr + n * entsize) n i)
    ?_ ?_ ?_ hst hi hfuel
  · exact fun st _ => (and_iff_left fun j h1 h2 => absurd h1 (by omega)).symm
  · intro i st t o l hi hst hround hrest
    have hpass := (hst.next h hi hround).2
    have hwrites : WritesIn (SectionWrite c info) t.1 ↔ _ := hst.writesIn_iff h hi hround
    rw [hrest, hwrites, fitFrom_succ hi, and_assoc, imp_iff_right hpass]
  · intro i st t hi hst hround
    have hshort := (hst.quit h hi hround).1
    rw [hst.writesIn_iff h hi hround, fitFrom_succ hi]
    exact and_congr_right fun _ => (and_iff_left fun hp => absurd hp hshort).symm

/-- The sections that are copied follow each other. -/
theorem CopiedUpTo.run_disjoint : (copiedFrom c ia info fuel i st).Pairwise CopiedSection.Misses := by
  have hrun := run_induction h ia (fun i _ _ l => l.Pairwise CopiedSection.Misses ∧
    ∀ x ∈ l, cursor c sh (info.sectionsAddr + n * entsize) i ≤ x.addr ∧
      x.addr + x.sh.shSize < 2 ^ 32) ?_ ?_ ?_ hst hi hfuel
  · exact hrun.1
  · exact fun _ _ => ⟨List.Pairwise.nil, fun _ hx => absurd hx List.not_mem_nil⟩
  · rintro i st t o l hi hst hround ⟨hpair, hrest⟩
    obtain ⟨_, hshdr, hplace⟩ := hst.round_eq h hi
    have hlimit := two_pow_le c
    have hnow : ∀ x ∈ placedIn c ia info i st, cursor c sh (info.sectionsAddr + n * entsize) i ≤ x.addr ∧
        x.addr + x.sh.shSize = cursor c sh (info.sectionsAddr + n * entsize) (i + 1) ∧
          x.addr + x.sh.shSize < 2 ^ 32 := by
      intro x hx
      unfold placedIn at hx
      split at hx
      next hcopy =>
        unfold RoundCopies at hcopy
        rw [hshdr] at hcopy
        rw [List.mem_singleton] at hx
        subst hx
        dsimp only
        rw [hshdr, hplace, h.rises.cursor_succ hlimit hi hcopy.1]
        exact ⟨h.rises.le_placeOf hlimit hi hcopy.1, rfl, (h.rises i hi hcopy.1).2⟩
      next => exact absurd hx List.not_mem_nil
    have hmono := h.rises.cursor_mono hlimit (Nat.le_succ i) hi
    refine ⟨List.pairwise_append.mpr ⟨pairwise_placedIn, hpair, fun x hx y hy => ?_⟩, fun x hx => ?_⟩
    · obtain ⟨_, hend, hlt⟩ := hnow x hx
      obtain ⟨hge, hlt'⟩ := hrest y hy
      apply apart_of_le <;> rw [toNat_ofNat_of_lt (by omega)]
      · rw [toNat_ofNat_of_lt (by omega)]
        omega
      · omega
    · rcases List.mem_append.mp hx with hx | hx
      · exact ⟨(hnow x hx).1, (hnow x hx).2.2⟩
      · exact ⟨Nat.le_trans hmono (hrest x hx).1, (hrest x hx).2⟩
  · exact fun _ _ _ _ _ _ => ⟨List.Pairwise.nil, fun _ hx => absurd hx List.not_mem_nil⟩

/-- If they fit, the copied table names their places at the end. -/
theorem CopiedUpTo.run_named (hfit : FitFrom c ia info sh (info.sectionsAddr + n * entsize) n i) :
    ∀ x ∈ copiedFrom c ia info fuel i st, (readShdr (Loop.run (BelowBound 16 (loadedShnum c info))
      (copySectionStep c ia info) fuel i st).state.1.mem x.entry c).shAddr = x.addr := by
  have hrun := run_induction h ia (fun i _ o l =>
    FitFrom c ia info sh (info.sectionsAddr + n * entsize) n i →
      (∀ j < i, (sh j).Unloaded → NamedAt c info sh n entsize o.state.1.mem j) ∧
        ∀ x ∈ l, (readShdr o.state.1.mem x.entry c).shAddr = x.addr) ?_ ?_ ?_ hst hi hfuel
  · exact (hrun hfit).2
  · exact fun st hst _ => ⟨hst.named, fun _ hx => absurd hx List.not_mem_nil⟩
  · intro i st t o l hi hst hround hrest hfit
    obtain ⟨hentry, hshdr, hplace⟩ := hst.round_eq h hi
    obtain ⟨hnamed, hl⟩ := hrest (((fitFrom_succ hi).mp hfit).2 (hst.next h hi hround).2)
    refine ⟨fun j hj => hnamed j (by omega), fun x hx => ?_⟩
    rcases List.mem_append.mp hx with hx | hx
    · unfold placedIn at hx
      split at hx
      next hcopy =>
        unfold RoundCopies at hcopy
        rw [hshdr] at hcopy
        rw [List.mem_singleton] at hx
        subst hx
        dsimp only
        rw [hentry, hplace]
        exact hnamed i (Nat.lt_succ_self i) hcopy.1
      next => exact absurd hx List.not_mem_nil
    · exact hl x hx
  · intro i st t hi hst hround hfit
    exact ⟨(hst.quit h hi hround).2 ((fitFrom_succ hi).mp hfit).1,
      fun _ hx => absurd hx List.not_mem_nil⟩

end run

end IkgtLoader.Ld
