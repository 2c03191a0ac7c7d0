import IkgtLoader.Ld.Segments

/-! What the loop over the loaded program headers leaves in memory. It reads its bounds and
its entries from the headers it is about to change. -/
namespace IkgtLoader.Ld
open Flat Loop

/-- The offset `o` from the start of the loaded image is one of `p_vaddr` or `p_paddr` of a
header below `n` that takes memory. -/
def Patched (c : ElfClass) (ph : ℕ → Phdr) (phoff n o : ℕ) : Prop :=
  ∃ i < n, (ph i).pMemsz ≠ 0 ∧ phoff + i * c.phdrSize + c.pVaddr ≤ o ∧
    o < phoff + i * c.phdrSize + c.pVaddr + 2 * c.addrSize

/-- A program header as it lies in the loaded image. -/
def loadedPhdr (c : ElfClass) (dest : BitVec 32) (phoff i : ℕ) : BitVec 32 :=
  tableEntry (dest + BitVec.ofNat 32 phoff) i c.phdrSize

/-- The headers below `n` have been moved by the relocation offset and nothing else has
changed. -/
structure HeadersAt (c : ElfClass) (ph : ℕ → Phdr) (phoff relocationOffset : ℕ)
    (dest : BitVec 32) (mem : Memory 32) (n : ℕ) (mem' : Memory 32) : Prop where
  paddr : ∀ i < n, (ph i).pMemsz ≠ 0 → field mem' (loadedPhdr c dest phoff i) c.pPaddr c.addrSize =
    c.wrap ((ph i).pPaddr + relocationOffset)
  vaddr : ∀ i < n, (ph i).pMemsz ≠ 0 → field mem' (loadedPhdr c dest phoff i) c.pVaddr c.addrSize =
    c.wrap ((ph i).pVaddr + relocationOffset)
  frame : ∀ x, ¬ Patched c ph phoff n (x - dest).toNat → mem' x = mem x

section headers
variable {c : ElfClass} {ph : ℕ → Phdr} {phoff relocationOffset i n : ℕ} {dest : BitVec 32}
  {mem m m' : Memory 32}

theorem Patched.mono {o : ℕ} (h : Patched c ph phoff i o) (hi : i ≤ n) : Patched c ph phoff n o := by
  obtain ⟨j, hj, hm, h1, h2⟩ := h
  exact ⟨j, by omega, hm, h1, h2⟩

theorem HeadersAt.zero (c : ElfClass) (ph : ℕ → Phdr) (phoff relocationOffset : ℕ)
    (dest : BitVec 32) (mem : Memory 32) :
    HeadersAt c ph phoff relocationOffset dest mem 0 mem :=
  ⟨fun i hi => absurd hi (Nat.not_lt_zero i), fun i hi => absurd hi (Nat.not_lt_zero i),
    fun _ _ => rfl⟩

theorem HeadersAt.skip (h : HeadersAt c ph phoff relocationOffset dest mem i m)
    (hm : (ph i).pMemsz = 0) : HeadersAt c ph phoff relocationOffset dest mem (i + 1) m := by
  constructor
  · intro j hj hne
    rcases Nat.lt_succ_iff_lt_or_eq.mp hj with hlt | rfl
    · exact h.paddr j hlt hne
    · exact absurd hm hne
  · intro j hj hne
    rcases Nat.lt_succ_iff_lt_or_eq.mp hj with hlt | rfl
    · exact h.vaddr j hlt hne
    · exact absurd hm hne
  · intro x hx
    exact h.frame x fun hp => hx (hp.mono (by omega))

/-- A record at `o` from the start of which nothing is patched reads as before. -/
theorem HeadersAt.same (h : HeadersAt c ph phoff relocationOffset dest mem i m) {o k : ℕ}
    (hk : o + k ≤ 2 ^ 32) (hout : ∀ j, o ≤ j → j < o + k → ¬ Patched c ph phoff i j) :
    Memory.Same m (dest + BitVec.ofNat 32 o) mem (dest + BitVec.ofNat 32 o) k := by
  apply Memory.Same.of_unchanged
  · intro x hx
    rw [inSpan_offset hk] at hx
    exact h.frame x (hout _ hx.1 hx.2)
  · omega

theorem HeadersAt.readEhdr_eq (h : HeadersAt c ph phoff relocationOffset dest mem i m)
    (hoff : c.ehdrSize ≤ phoff) : readEhdr m dest c = readEhdr mem dest c := by
  have hs : Memory.Same m (dest + BitVec.ofNat 32 0) mem (dest + BitVec.ofNat 32 0) c.ehdrSize := by
    apply h.same
    · cases c <;> decide
    · rintro j _ hj ⟨k, _, _, hk, _⟩
      omega
  rw [show dest + BitVec.ofNat 32 0 = dest from BitVec.add_zero _] at hs
  exact readEhdr_congr hs

theorem HeadersAt.readPhdr_eq (h : HeadersAt c ph phoff relocationOffset dest mem i m)
    (hi : phoff + (i + 1) * c.phdrSize ≤ 2 ^ 32) :
    readPhdr m (loadedPhdr c dest phoff i) c = readPhdr mem (loadedPhdr c dest phoff i) c := by
  unfold loadedPhdr
  rw [tableEntry_eq]
  apply readPhdr_congr
  apply h.same
  · rw [Nat.succ_mul] at hi
    omega
  · rintro j hj _ ⟨k, hk, _, _, hlt⟩
    have hle : (k + 1) * c.phdrSize ≤ i * c.phdrSize := Nat.mul_le_mul_right _ hk
    rw [Nat.succ_mul] at hle
    have hsz : c.pVaddr + 2 * c.addrSize ≤ c.phdrSize := by cases c <;> decide
    omega

/-- Both fields of one entry stored. -/
theorem HeadersAt.store (h : HeadersAt c ph phoff relocationOffset dest mem i m)
    (hi : phoff + (i + 1) * c.phdrSize ≤ 2 ^ 32) (hm : (ph i).pMemsz ≠ 0) {u : Memory 32}
    (hu : u = m.store (loadedPhdr c dest phoff i + BitVec.ofNat 32 c.pPaddr) c.addrSize
      ((ph i).pPaddr + relocationOffset))
    (hm' : m' = u.store (loadedPhdr c dest phoff i + BitVec.ofNat 32 c.pVaddr) c.addrSize
      ((ph i).pVaddr + relocationOffset)) :
    HeadersAt c ph phoff relocationOffset dest mem (i + 1) m' := by
  have hsz : c.pVaddr + 2 * c.addrSize ≤ c.phdrSize := by cases c <;> decide
  have hpa : c.pPaddr = c.pVaddr + c.addrSize := by cases c <;> rfl
  have hsmall : c.addrSize ≤ 2 ^ 32 := by cases c <;> decide
  have hrec : c.phdrSize ≤ 2 ^ 32 := by cases c <;> decide
  have hi' := hi
  rw [Nat.succ_mul] at hi'
  have hout : ∀ x, ¬ (phoff + i * c.phdrSize + c.pVaddr ≤ (x - dest).toNat ∧
      (x - dest).toNat < phoff + i * c.phdrSize + c.pVaddr + 2 * c.addrSize) → m' x = m x := by
    intro x hx
    have h1 : ¬ InSpan (loadedPhdr c dest phoff i + BitVec.ofNat 32 c.pPaddr) c.addrSize x := by
      unfold loadedPhdr
      rw [tableEntry_eq, add_ofNat_ofNat, inSpan_offset (by omega)]
      omega
    have h2 : ¬ InSpan (loadedPhdr c dest phoff i + BitVec.ofNat 32 c.pVaddr) c.addrSize x := by
      unfold loadedPhdr
      rw [tableEntry_eq, add_ofNat_ofNat, inSpan_offset (by omega)]
      omega
    rw [hm', Memory.store_of_not_inSpan _ _ h2, hu, Memory.store_of_not_inSpan _ _ h1]
  -- the entries below lie before the two fields
  have hbelow : ∀ j < i, Memory.Same m' (loadedPhdr c dest phoff j) m (loadedPhdr c dest phoff j)
      c.phdrSize := by
    intro j hj
    have hle : (j + 1) * c.phdrSize ≤ i * c.phdrSize := Nat.mul_le_mul_right _ hj
    rw [Nat.succ_mul] at hle
    apply Memory.Same.of_unchanged _ hrec
    intro x hx
    unfold loadedPhdr at hx
    rw [tableEntry_eq, inSpan_offset (by omega)] at hx
    apply hout
    omega
  constructor
  · intro j hj hne
    rcases Nat.lt_succ_iff_lt_or_eq.mp hj with hlt | rfl
    · rw [field_congr (hbelow j hlt) (by omega)]
      exact h.paddr j hlt hne
    · rw [hm', field_store_of_disjoint _ _ _ (by omega) (by omega) (by omega), hu,
        field_store _ _ _ _ hsmall]
      rfl
  · intro j hj hne
    rcases Nat.lt_succ_iff_lt_or_eq.mp hj with hlt | rfl
    · rw [field_congr (hbelow j hlt) (by omega)]
      exact h.vaddr j hlt hne
    · rw [hm', field_store _ _ _ _ hsmall]
      rfl
  · intro x hx
    rw [hout x fun hin => hx ⟨i, by omega, hm, hin⟩]
    exact h.frame x fun hp => hx (hp.mono (by omega))

/-- One round over the loaded headers. -/
theorem HeadersAt.patchStep {info : ElfLoadInfo} {s : Loader} {eh : Ehdr}
    (h : HeadersAt c ph phoff info.relocationOffset dest mem i s.mem)
    (heh : readEhdr mem dest c = eh) (hent : eh.ePhentsize = c.phdrSize)
    (hph : readPhdr mem (loadedPhdr c dest phoff i) c = ph i) (hoff : c.ehdrSize ≤ phoff)
    (hi : phoff + (i + 1) * c.phdrSize ≤ 2 ^ 32) :
    ∃ t, patchStep c info dest phoff (dest + BitVec.ofNat 32 phoff) i s = .next t ∧
      HeadersAt c ph phoff info.relocationOffset dest mem (i + 1) t.mem := by
  have hread := (h.readPhdr_eq hi).trans hph
  unfold Ld.patchStep
  dsimp only
  rw [h.readEhdr_eq hoff, heh, hent, show tableEntry (dest + BitVec.ofNat 32 phoff) i c.phdrSize =
    loadedPhdr c dest phoff i from rfl, hread]
  by_cases hm : (ph i).pMemsz ≠ 0
  · rw [if_pos hm]
    refine ⟨_, rfl, h.store hi hm rfl ?_⟩
    have hsz : c.pVaddr + 2 * c.addrSize ≤ c.phdrSize := by cases c <;> decide
    have hpa : c.pPaddr = c.pVaddr + c.addrSize := by cases c <;> rfl
    have hrec : c.phdrSize ≤ 2 ^ 32 := by cases c <;> decide
    have hv : field (s.mem.store (loadedPhdr c dest phoff i + BitVec.ofNat 32 c.pPaddr) c.addrSize
        ((ph i).pPaddr + info.relocationOffset)) (loadedPhdr c dest phoff i) c.pVaddr c.addrSize =
          (ph i).pVaddr := by
      rw [field_store_of_disjoint _ _ _ (by omega) (by omega) (by omega), field_pVaddr, hread]
    rw [← hv]
    rfl
  · rw [if_neg hm]
    exact ⟨s, rfl, h.skip (not_not.mp hm)⟩

/-- The loop over headers that lie behind the ELF header. -/
theorem patchHeaders_spec {info : ElfLoadInfo} {s : Loader} {eh : Ehdr}
    (hstart : info.startAddr = dest.toNat) (heh : readEhdr s.mem dest c = eh)
    (hoff : c.ehdrSize ≤ eh.ePhoff) (hent : eh.ePhentsize = c.phdrSize)
    (hn : int16Bound eh.ePhnum = n) (hend : eh.ePhoff + n * c.phdrSize ≤ 2 ^ 32)
    (hph : ∀ i < n, readPhdr s.mem (loadedPhdr c dest eh.ePhoff i) c = ph i) :
    ∃ t, patchHeaders c s info = .next t ∧
      HeadersAt c ph eh.ePhoff info.relocationOffset dest s.mem n t.mem := by
  have hdest : BitVec.ofNat 32 info.startAddr = dest := by
    rw [hstart, BitVec.ofNat_toNat, BitVec.setWidth_eq]
  have htab : BitVec.ofNat 32 (info.startAddr + eh.ePhoff) = dest + BitVec.ofNat 32 eh.ePhoff := by
    rw [BitVec.ofNat_add, hdest]
  unfold patchHeaders
  dsimp only
  rw [hdest, heh, htab]
  let I : ℕ → Loader → Prop := fun i t =>
    HeadersAt c ph eh.ePhoff info.relocationOffset dest s.mem i t.mem
  have hcond : ∀ i t, I i t → (phdrCond c t.mem dest i ↔ i < n) := by
    intro i t h
    unfold phdrCond
    rw [h.readEhdr_eq hoff, heh, hn]
  have hbody : ∀ i t, i < n → I i t → ∃ u,
      Ld.patchStep c info dest eh.ePhoff (dest + BitVec.ofNat 32 eh.ePhoff) i t = .next u ∧
        I (i + 1) u := by
    intro i t hi h
    have hle : (i + 1) * c.phdrSize ≤ n * c.phdrSize := Nat.mul_le_mul_right _ hi
    exact h.patchStep heh hent (hph i hi) hoff (by omega)
  have hfuel : n ≤ 0 + int16Rounds := by
    rw [← hn]
    unfold int16Bound int16Rounds
    split <;> omega
  exact run_count I hcond hbody (Nat.zero_le _) hfuel (HeadersAt.zero c ph _ _ dest s.mem)

end headers

end IkgtLoader.Ld
