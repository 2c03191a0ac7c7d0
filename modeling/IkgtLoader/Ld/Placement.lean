import IkgtLoader.Ld.SectionLoops

/-! Where the sections go that no segment brings, as a function of their headers. -/
namespace IkgtLoader.Ld
open Flat Loop

/-- A section that takes memory of its own. -/
def Shdr.Unloaded (sh : Shdr) : Prop := sh.shAddr = 0 ∧ sh.shSize ≠ 0

instance (sh : Shdr) : Decidable sh.Unloaded := inferInstanceAs (Decidable (_ ∧ _))

/-- Its place, if it comes next at `a`. -/
def place (c : ElfClass) (sh : Shdr) (a : ℕ) : ℕ :=
  if 1 < sh.shAddralign then alignUp c a sh.shAddralign else a

/-- The address that the sections before `i` lead to, from `a` on. -/
def cursor (c : ElfClass) (sh : ℕ → Shdr) (a : ℕ) : ℕ → ℕ
  | 0 => a
  | i + 1 =>
    if (sh i).Unloaded then c.wrap (place c (sh i) (cursor c sh a i) + (sh i).shSize)
    else cursor c sh a i

/-- The place of section `i`. -/
def placeOf (c : ElfClass) (sh : ℕ → Shdr) (a i : ℕ) : ℕ := place c (sh i) (cursor c sh a i)

/-- No sum on the way through the sections below `n` reaches the limit. -/
def Rises (c : ElfClass) (sh : ℕ → Shdr) (a n limit : ℕ) : Prop :=
  ∀ i < n, (sh i).Unloaded → cursor c sh a i + ((sh i).shAddralign - 1) < limit ∧
    placeOf c sh a i + (sh i).shSize < limit

instance (c : ElfClass) (sh : ℕ → Shdr) (a n limit : ℕ) : Decidable (Rises c sh a n limit) :=
  inferInstanceAs (Decidable (∀ i < n, _))

section place
variable {c : ElfClass} {sh : Shdr} {a b k : ℕ}

theorem pow_addrSize (c : ElfClass) : 256 ^ c.addrSize = 2 ^ (8 * c.addrSize) := by
  rw [Nat.pow_mul]

theorem le_place (h : a + (sh.shAddralign - 1) < 256 ^ c.addrSize) : a ≤ place c sh a := by
  rw [pow_addrSize] at h
  unfold place
  split
  · exact le_maskUp h
  · exact le_rfl

/-- An alignment that is a power of two is kept. -/
theorem place_mod (hk : sh.shAddralign = 2 ^ k) : place c sh a % 2 ^ k = 0 := by
  unfold place
  split
  · exact maskUp_mod (by rw [hk])
  next hle =>
    have hone : 2 ^ k = 1 := by
      have hpos : 0 < 2 ^ k := Nat.two_pow_pos k
      omega
    rw [hone, Nat.mod_one]

/-- A place moves with its address if the two ways of the move agree below the alignment. -/
theorem place_shift {x y : ℕ} (hshift : b + x = a + y) (hal : sh.shAddralign ≤ 2 ^ k)
    (hxy : x % 2 ^ k = y % 2 ^ k) (ha : a + (sh.shAddralign - 1) < 256 ^ c.addrSize)
    (hb : b + (sh.shAddralign - 1) < 256 ^ c.addrSize) : place c sh b + x = place c sh a + y := by
  rw [pow_addrSize] at ha hb
  unfold place
  split
  · exact maskUp_shift (by omega) hshift hxy ha hb
  · exact hshift

end place

section rises
variable {c : ElfClass} {sh : ℕ → Shdr} {a b n limit i j : ℕ} (h : Rises c sh a n limit)
  (hlimit : limit ≤ 256 ^ c.addrSize)
include h hlimit

theorem Rises.le_placeOf (hi : i < n) (hu : (sh i).Unloaded) : cursor c sh a i ≤ placeOf c sh a i :=
  le_place (Nat.lt_of_lt_of_le (h i hi hu).1 hlimit)

theorem Rises.cursor_succ (hi : i < n) (hu : (sh i).Unloaded) :
    cursor c sh a (i + 1) = placeOf c sh a i + (sh i).shSize := by
  have hlt := (h i hi hu).2
  rw [cursor, if_pos hu]
  exact Nat.mod_eq_of_lt (Nat.lt_of_lt_of_le hlt hlimit)

theorem Rises.cursor_mono (hij : i ≤ j) (hj : j ≤ n) : cursor c sh a i ≤ cursor c sh a j := by
  induction hij with
  | refl => exact le_rfl
  | @step m hm ih =>
    have hstep : cursor c sh a m ≤ cursor c sh a (m + 1) := by
      by_cases hu : (sh m).Unloaded
      · rw [h.cursor_succ hlimit hj hu]
        have hle := h.le_placeOf hlimit hj hu
        omega
      · rw [cursor, if_neg hu]
    exact Nat.le_trans (ih (by omega)) hstep

theorem Rises.start_le_placeOf (hi : i < n) (hu : (sh i).Unloaded) : a ≤ placeOf c sh a i :=
  Nat.le_trans (h.cursor_mono hlimit (Nat.zero_le i) (by omega)) (h.le_placeOf hlimit hi hu)

theorem Rises.end_le_cursor (hi : i < n) (hu : (sh i).Unloaded) :
    placeOf c sh a i + (sh i).shSize ≤ cursor c sh a n := by
  rw [← h.cursor_succ hlimit hi hu]
  exact h.cursor_mono hlimit hi le_rfl

theorem Rises.cursor_lt (ha : a < limit) (hi : i ≤ n) : cursor c sh a i < limit := by
  induction i with
  | zero => exact ha
  | succ i ih =>
    by_cases hu : (sh i).Unloaded
    · rw [h.cursor_succ hlimit hi hu]
      exact (h i hi hu).2
    · rw [cursor, if_neg hu]
      exact ih (by omega)

end rises

section shift
variable {c : ElfClass} {sh : ℕ → Shdr} {a b n i x y la lb : ℕ} (ha : Rises c sh a n la)
  (hla : la ≤ 256 ^ c.addrSize) (hb : Rises c sh b n lb) (hlb : lb ≤ 256 ^ c.addrSize)
  (hshift : b + x = a + y)
  (hal : ∀ i < n, (sh i).Unloaded → ∃ k, (sh i).shAddralign ≤ 2 ^ k ∧ x % 2 ^ k = y % 2 ^ k)
include ha hla hb hlb hshift hal

/-- The places move with the start if the two ways of the move agree below each alignment. -/
theorem placements_shift (hi : i ≤ n) : cursor c sh b i + x = cursor c sh a i + y ∧
    (i < n → (sh i).Unloaded → placeOf c sh b i + x = placeOf c sh a i + y) := by
  have hplace : ∀ j < n, cursor c sh b j + x = cursor c sh a j + y → (sh j).Unloaded →
      placeOf c sh b j + x = placeOf c sh a j + y := by
    intro j hj hc hu
    obtain ⟨k, hk, hxy⟩ := hal j hj hu
    exact place_shift hc hk hxy (Nat.lt_of_lt_of_le (ha j hj hu).1 hla)
      (Nat.lt_of_lt_of_le (hb j hj hu).1 hlb)
  have hcursor : cursor c sh b i + x = cursor c sh a i + y := by
    induction i with
    | zero => exact hshift
    | succ i ih =>
      have hc := ih (by omega)
      by_cases hu : (sh i).Unloaded
      · rw [ha.cursor_succ hla hi hu, hb.cursor_succ hlb hi hu]
        have hp := hplace i hi hc hu
        omega
      · rw [cursor, cursor, if_neg hu, if_neg hu]
        exact hc
  exact ⟨hcursor, fun hlt hu => hplace i hlt hcursor hu⟩

end shift

/-- The section header `i` of a table. -/
def tableShdr (c : ElfClass) (mem : Memory 32) (shdrtab : BitVec 32) (entsize i : ℕ) : Shdr :=
  readShdr mem (tableEntry shdrtab i entsize) c

/-- The index of `GET_SHDR` in the rounds before the counter wraps. -/
theorem shdr_eq_tableEntry (shdrtab : BitVec 32) (entsize : ℕ) {i : ℕ} (hi : i < 0x8000) :
    shdrtab + BitVec.ofInt 32 ((BitVec.ofNat 16 i).toInt * (entsize : ℤ)) =
      tableEntry shdrtab i entsize := by
  have hc : (BitVec.ofNat 16 i).toInt = i := counter_of_lt (w := 16) hi
  unfold tableEntry
  rw [hc]
  norm_cast

theorem sectionStep_cursor {c : ElfClass} {mem : Memory 32} {eh : Ehdr} {shdrtab : BitVec 32}
    {a i : ℕ} (hi : i < 0x8000) :
    sectionStep c mem eh shdrtab i (cursor c (tableShdr c mem shdrtab eh.eShentsize) a i) =
      .next (cursor c (tableShdr c mem shdrtab eh.eShentsize) a (i + 1)) := by
  unfold sectionStep
  rw [shdr_eq_tableEntry _ _ hi, cursor]
  dsimp only
  change (if (tableShdr c mem shdrtab eh.eShentsize i).shSize = 0 then _ else
    if (tableShdr c mem shdrtab eh.eShentsize i).shAddr ≠ 0 then _ else _) = _
  split
  next hs => rw [if_neg fun hu : Shdr.Unloaded _ => hu.2 hs]
  next hs =>
    split
    next ha => rw [if_neg fun hu : Shdr.Unloaded _ => ha hu.1]
    next ha =>
      have hu : (tableShdr c mem shdrtab eh.eShentsize i).Unloaded := ⟨not_not.mp ha, hs⟩
      rw [if_pos hu]
      rfl

/-- The loop of `get_load_info` goes through the whole table, or does not end. -/
theorem sectionLoop_next {c : ElfClass} {mem : Memory 32} {eh : Ehdr} {shdrtab : BitVec 32}
    {a fuel m : ℕ} (h : sectionLoop c mem eh shdrtab a fuel = .next m) :
    eh.eShnum < 0x8000 ∧ m = cursor c (tableShdr c mem shdrtab eh.eShentsize) a eh.eShnum := by
  have hn : eh.eShnum < 0x8000 := by
    by_contra hge
    obtain ⟨u, hu⟩ := sectionLoop_spent (Nat.le_of_not_lt hge) h
    cases hu
  refine ⟨hn, ?_⟩
  have hbody : ∀ i x, (BitVec.ofNat 16 i).toInt < (eh.eShnum : ℤ) →
      (i ≤ eh.eShnum ∧ x = cursor c (tableShdr c mem shdrtab eh.eShentsize) a i) →
      (sectionStep c mem eh shdrtab i x).All (fun x => i + 1 ≤ eh.eShnum ∧
        x = cursor c (tableShdr c mem shdrtab eh.eShentsize) a (i + 1)) (fun _ => False)
        fun _ => False := by
    rintro i _ hc ⟨hi, rfl⟩
    have hcounter : (BitVec.ofNat 16 i).toInt = i := counter_of_lt (w := 16) (Nat.lt_of_le_of_lt hi hn)
    rw [hcounter] at hc
    rw [sectionStep_cursor (Nat.lt_of_le_of_lt hi hn)]
    exact ⟨by omega, rfl⟩
  have hrun : (sectionLoop c mem eh shdrtab a fuel).All _ _ _ :=
    run_all (fun i x => i ≤ eh.eShnum ∧ x = cursor c (tableShdr c mem shdrtab eh.eShentsize) a i)
      (fun _ => False) (fun _ => False) hbody ⟨Nat.zero_le _, rfl⟩
  rw [h] at hrun
  obtain ⟨j, -, ⟨hj, rfl⟩, hstop⟩ := hrun
  have hcounter : (BitVec.ofNat 16 j).toInt = j := counter_of_lt (w := 16) (Nat.lt_of_le_of_lt hj hn)
  rw [hcounter] at hstop
  obtain rfl : j = eh.eShnum := by omega
  rfl

/-- The section headers in the file. -/
def fileShdr (c : ElfClass) (mem : Memory 32) (ia : MemImageAccess) : ℕ → Shdr :=
  tableShdr c mem (ia.image + BitVec.ofNat 32 (fileEhdr c mem ia).eShoff) (fileEhdr c mem ia).eShentsize

/-- The size of the section header table. -/
def shdrsSize (c : ElfClass) (mem : Memory 32) (ia : MemImageAccess) : ℕ :=
  (fileEhdr c mem ia).eShnum * (fileEhdr c mem ia).eShentsize

/-- An image that is accepted with both copy flags set: its end is where its sections lead to. -/
structure CountedSections (c : ElfClass) (mem : Memory 32) (ia : MemImageAccess) (info : ElfLoadInfo) :
    Prop extends HeadersAccepted c mem ia info where
  headers : info.copySectionHeaders = true
  symbols : info.copySymbolTables = true
  shdrs : clamp ia (BitVec.ofNat 32 (fileEhdr c mem ia).eShoff)
    (tableSize (fileEhdr c mem ia).eShnum (fileEhdr c mem ia).eShentsize) =
      tableSize (fileEhdr c mem ia).eShnum (fileEhdr c mem ia).eShentsize
  shnum : (fileEhdr c mem ia).eShnum < 0x8000
  finish : info.endAddr = cursor c (fileShdr c mem ia)
    (c.wrap (info.sectionsAddr + shdrsSize c mem ia)) (fileEhdr c mem ia).eShnum

theorem eShnum_lt (c : ElfClass) (mem : Memory 32) (p : BitVec 32) :
    (readEhdr mem p c).eShnum < 2 ^ 16 := by
  cases c <;> exact field_lt _ _ _ _

theorem eShentsize_lt (c : ElfClass) (mem : Memory 32) (p : BitVec 32) :
    (readEhdr mem p c).eShentsize < 2 ^ 16 := by
  cases c <;> exact field_lt _ _ _ _

theorem tableSize_toNat {a b : ℕ} (ha : a < 2 ^ 16) (hb : b < 2 ^ 16) : (tableSize a b).toNat = a * b := by
  have hmul : a * b < 2 ^ 16 * 2 ^ 16 := Nat.mul_lt_mul'' ha hb
  unfold tableSize
  exact toNat_ofNat_of_lt (by omega)

section counted
variable {c : ElfClass} {s : Loader} {ia : MemImageAccess} {info : ElfLoadInfo} {fuel : ℕ}

/-- With the sections to be copied the tail ends where its loop does. -/
theorem sectionsInfo_ok {eh : Ehdr} {maxAddr : ℕ} (hs : info.copySymbolTables = true)
    (hok : (sectionsInfo c s ia eh info maxAddr fuel).2.2.2 = .monOk) :
    clamp ia (BitVec.ofNat 32 eh.eShoff) (tableSize eh.eShnum eh.eShentsize) =
        tableSize eh.eShnum eh.eShentsize ∧
      ∃ t m, sectionsInfo c s ia eh info maxAddr fuel =
          (t, { info with sectionsAddr := alignUp c maxAddr 16 }, m, .monOk) ∧ t.mem = s.mem ∧
        sectionLoop c s.mem eh (ia.image + BitVec.ofNat 32 eh.eShoff)
          (c.wrap (alignUp c maxAddr 16 + (tableSize eh.eShnum eh.eShentsize).toNat)) fuel = .next m := by
  unfold sectionsInfo Loader.map memImageMapToMem at hok ⊢
  dsimp only at hok ⊢
  rw [if_pos hs] at hok ⊢
  split at hok
  next => cases hok
  next hn =>
    refine ⟨not_not.mp hn, ?_⟩
    rw [if_neg hn]
    split at hok
    next m hm => exact ⟨_, m, rfl, rfl, hm⟩
    next => cases hok
    next => cases hok

theorem counted_of_getLoadInfo (hok : (getLoadInfo c s ia info fuel).2.2 = .monOk)
    (hc : info.machineType = c) (h64 : 64 ≤ ia.size.toNat) (hv : headerIsValid s.mem ia.image c)
    (hh : info.copySectionHeaders = true) (hs : info.copySymbolTables = true) :
    CountedSections c s.mem ia (getLoadInfo c s ia info fuel).2.1 ∧
      (getLoadInfo c s ia info fuel).1.mem = s.mem := by
  obtain ⟨t, hm, ht, hfull, ha, he⟩ := getLoadInfo_of_ok hok
  rw [he] at hok ⊢
  have hsections : (sectionsInfo c t ia (fileEhdr c s.mem ia) info
      (sizes c (filePhdr c s.mem ia) (phdrCount c s.mem ia)).2 fuel).2.2.2 = .monOk := by
    unfold finishInfo at hok
    rw [if_pos (.inl hh)] at hok
    split at hok
    next heq => rw [heq]
    next _ heq => rw [heq]; exact hok
  obtain ⟨hshdrs, u, m, heq, hu, hloop⟩ := sectionsInfo_ok hs hsections
  unfold finishInfo
  rw [if_pos (.inl hh), heq]
  obtain ⟨hn, hm'⟩ := sectionLoop_next hloop
  have hsize : (tableSize (fileEhdr c s.mem ia).eShnum (fileEhdr c s.mem ia).eShentsize).toNat =
      shdrsSize c s.mem ia := tableSize_toNat (eShnum_lt _ _ _) (eShentsize_lt _ _ _)
  rw [hsize, hm] at hm'
  exact ⟨⟨⟨hc, h64, hv, ht, hfull, rfl, ha, rfl⟩, hh, hs, hshdrs, hn, hm'⟩, hu.trans hm⟩

/-- Every image that `elf_get_load_info` takes with the copy flags set. -/
theorem counted_of_elfGetLoadInfo (hh : info.copySectionHeaders = true)
    (hs : info.copySymbolTables = true) (hok : (elfGetLoadInfo s ia info fuel).2.2 = .monOk) :
    ∃ c, CountedSections c s.mem ia (elfGetLoadInfo s ia info fuel).2.1 ∧
      (elfGetLoadInfo s ia info fuel).1.mem = s.mem := by
  unfold elfGetLoadInfo at hok ⊢
  dsimp only at hok ⊢
  split at hok
  next => cases hok
  next hn =>
    have h64 : 64 ≤ ia.size.toNat := header_le_of_clamp (not_not.mp hn)
    rw [if_neg hn]
    split at hok
    next h1 =>
      rw [if_pos h1]
      exact ⟨.elfclass32, counted_of_getLoadInfo hok rfl h64 (headerIsValid_mapped.mp h1) hh hs⟩
    next h1 =>
      split at hok
      next h2 =>
        rw [if_neg h1, if_pos h2]
        exact ⟨.elfclass64, counted_of_getLoadInfo hok rfl h64 (headerIsValid_mapped.mp h2) hh hs⟩
      next => cases hok

end counted

end IkgtLoader.Ld
