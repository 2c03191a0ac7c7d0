import IkgtLoader.Ld.Correctness
import IkgtLoader.Ld.DynamicTables

/-! One image linked at two bases and loaded at one place. The two runs are compared in
lockstep; they agree where the table pointers are right. -/
namespace IkgtLoader.Ld
open Flat Loop

/-- Nothing has been relocated yet. -/
def NoTarget (s : Loader) : Prop := ∀ r p n, Event.write (.target r) p n ∉ s.trace

section noTarget
variable {c : ElfClass} {s : Loader} {ia : MemImageAccess} {info : ElfLoadInfo}

theorem NoTarget.emit (h : NoTarget s) {e : Event} (he : ∀ r p n, Event.write (.target r) p n ≠ e) :
    NoTarget (s.emit e) := by
  intro r p n hm
  rcases List.mem_cons.mp hm with heq | ht
  · exact he r p n heq
  · exact h r p n ht

theorem NoTarget.silent (h : NoTarget s) {t : Loader} (hs : Silent s t) : NoTarget t :=
  fun r p n hm => h r p n ((hs _ _ _).mp hm)

theorem NoTarget.loadSegment (h : NoTarget s) (r : ℕ) (ph : Phdr) :
    (loadSegment ia r ph s).All NoTarget NoTarget NoTarget := by
  have hr : NoTarget (s.read ia (.segment ph.pPaddr) (relocated ph.pPaddr r) ph.pOffset
      (BitVec.ofNat 32 ph.loadFilesz)).1 := by
    intro r p n hm
    simp only [Loader.read, List.mem_cons, Event.write.injEq, reduceCtorEq, false_and,
      false_or] at hm
    exact h r p n hm
  unfold Ld.loadSegment
  dsimp only
  split
  · exact hr
  · split
    · exact hr.emit fun _ _ _ he => by cases he
    · exact hr

theorem NoTarget.segmentStep (r : ℕ) (ehdr phdrtab phsize : BitVec 32) (phoff i : ℕ)
    {st : Loader × Option (BitVec 32)} (h : NoTarget st.1) :
    (segmentStep c ia r ehdr phoff phdrtab phsize i st).All (fun t => NoTarget t.1)
      (fun t => NoTarget t.1) (fun t => NoTarget t.1) := by
  obtain ⟨s, dyn⟩ := st
  have he : NoTarget ((s.emit (.entry phsize.toNat (i * (readEhdr s.mem ehdr c).ePhentsize)
      c.phdrSize)).emit (.take (phoff + i * (readEhdr s.mem ehdr c).ePhentsize) c.phdrSize)) :=
    NoTarget.silent h (((Silent.refl s).entry _ _ _).take _ _)
  unfold Ld.segmentStep
  dsimp only
  split
  · exact he
  · split
    · exact he
    · rw [Outcome.all_map]
      exact he.loadSegment r _

theorem NoTarget.loadSegments (h : NoTarget s) (c : ElfClass) (ia : MemImageAccess)
    (info : ElfLoadInfo) :
    (loadSegments c s ia info).All (fun t => NoTarget t.1) (fun t => NoTarget t.1)
      (fun t => NoTarget t.1) := by
  have hh := h.silent (silent_mapHeader c s ia)
  unfold Ld.loadSegments
  split
  next he => rw [he] at hh; exact hh
  next s₁ ehdr he =>
    rw [he] at hh
    have hp := NoTarget.silent hh (silent_mapPhdrs s₁ ia (readEhdr s₁.mem ehdr c))
    dsimp only
    split
    next hp' => rw [hp'] at hp; exact hp
    next hp' =>
      rw [hp'] at hp
      exact run_keeps (fun st : Loader × Option (BitVec 32) => NoTarget st.1)
        (fun i _ hs => NoTarget.segmentStep _ _ _ _ _ i hs) hp

theorem NoTarget.patchHeaders (h : NoTarget s) (c : ElfClass) (info : ElfLoadInfo) :
    (patchHeaders c s info).All NoTarget NoTarget NoTarget := by
  refine run_keeps NoTarget (fun i t ht => ?_) h
  unfold patchStep
  dsimp only
  split
  · exact (NoTarget.emit ht fun _ _ _ he => by cases he).emit fun _ _ _ he => by cases he
  · exact ht

end noTarget

/-- A link range whose bytes lie in the file from `p` on, outside the table of program
headers. -/
def LinkedBytes (c : ElfClass) (mem : Memory 32) (ia : MemImageAccess) (start a n : ℕ)
    (p : BitVec 32) : Prop :=
  ∃ j < (fileEhdr c mem ia).ePhnum, (filePhdr c mem ia j).Loadable ∧
    (filePhdr c mem ia j).pPaddr ≤ a ∧
    a + n ≤ (filePhdr c mem ia j).pPaddr + (filePhdr c mem ia j).loadFilesz ∧
    p = ia.image +
      BitVec.ofNat 32 ((filePhdr c mem ia j).pOffset + (a - (filePhdr c mem ia j).pPaddr)) ∧
    (a - start + n ≤ (fileEhdr c mem ia).ePhoff ∨
      (fileEhdr c mem ia).ePhoff + (fileEhdr c mem ia).ePhnum * c.phdrSize ≤ a - start)

section loaded
variable {c : ElfClass} {mem m : Memory 32} {ia : MemImageAccess} {start r window : ℕ}
  {dest : BitVec 32}

/-- The loaded copy of a link range holds the bytes of the file. -/
theorem LoadedAt.same (h : LoadedAt c mem ia start dest r m)
    (hp : Placed (filePhdr c mem ia) (fileEhdr c mem ia).ePhnum start window ia.size.toNat)
    {a n : ℕ} {p : BitVec 32} (hb : LinkedBytes c mem ia start a n p) :
    Memory.Same m (dest + BitVec.ofNat 32 (a - start)) mem p n := by
  obtain ⟨j, hj, hl, hlo, hhi, rfl, hout⟩ := hb
  intro k hk
  have h1 := hp.low j hj hl
  have h2 := (filePhdr c mem ia j).loadFilesz_le
  have hby := h.bytes j hj hl (a - (filePhdr c mem ia j).pPaddr + k) (by omega) ?_
  · unfold Phdr.place at hby
    rw [add_ofNat_ofNat, if_pos (by omega)] at hby
    rw [add_ofNat_ofNat, add_ofNat_ofNat, show a - start + k = (filePhdr c mem ia j).pPaddr - start +
      (a - (filePhdr c mem ia j).pPaddr + k) by omega, hby, Nat.add_assoc]
  · rintro ⟨i, hi, _, hge, hlt⟩
    have hle : (i + 1) * c.phdrSize ≤ (fileEhdr c mem ia).ePhnum * c.phdrSize :=
      Nat.mul_le_mul_right _ hi
    rw [Nat.succ_mul] at hle
    have hrec : c.pVaddr + 2 * c.addrSize ≤ c.phdrSize := by cases c <;> decide
    omega

/-- The file is as it was before the load. -/
theorem LoadedAt.file (h : LoadedAt c mem ia start dest r m)
    (hp : Placed (filePhdr c mem ia) (fileEhdr c mem ia).ePhnum start window ia.size.toNat)
    (hw : window ≤ 2 ^ 32) (hap : Apart dest window ia.image ia.size.toNat) {o n : ℕ}
    (hn : o + n ≤ ia.size.toNat) :
    Memory.Same m (ia.image + BitVec.ofNat 32 o) mem (ia.image + BitVec.ofNat 32 o) n := by
  have hs := ia.size.isLt
  have hall : Memory.Same m ia.image mem ia.image ia.size.toNat :=
    .of_unchanged (fun x hx => h.frame x fun i hi hl hin => hap x (hp.inWindow hw hi hl hin) hx)
      (by omega)
  exact hall.offset hn

end loaded

theorem dynamicPhdr_some {ph : ℕ → Phdr} {l n : ℕ} (hl : l < n) (hd : (ph l).pType = PT_DYNAMIC)
    (hlast : ∀ i, l < i → i < n → (ph i).pType ≠ PT_DYNAMIC) (phdrtab : BitVec 32) (entsize : ℕ) :
    dynamicPhdr ph phdrtab entsize n = some (tableEntry phdrtab l entsize) := by
  induction n with
  | zero => omega
  | succ n ih =>
    rw [dynamicPhdr]
    rcases Nat.lt_succ_iff_lt_or_eq.mp hl with hlt | rfl
    · rw [if_neg (hlast n hlt (by omega))]
      exact ih hlt fun i hi hn => hlast i hi (by omega)
    · rw [if_pos hd]

section run
variable {c : ElfClass} {mem : Memory 32} {ia : MemImageAccess} {info : ElfLoadInfo}
  {dest : BitVec 32}

/-- The header of the dynamic section: the last of its type, with its bytes in the file. -/
structure DynamicAt (c : ElfClass) (mem : Memory 32) (ia : MemImageAccess) (l : ℕ) : Prop where
  index : l < (fileEhdr c mem ia).ePhnum
  type : (filePhdr c mem ia l).pType = PT_DYNAMIC
  last : ∀ i, l < i → i < (fileEhdr c mem ia).ePhnum → (filePhdr c mem ia i).pType ≠ PT_DYNAMIC
  range : (filePhdr c mem ia l).pOffset + (filePhdr c mem ia l).pFilesz ≤ ia.size.toNat

/-- A load with a dynamic section ends with the relocation. -/
theorem Linked.dynamicRun (hw : Linked c mem ia info.startAddr) (ha : Accepted c mem ia info)
    (hfit : info.endAddr - info.startAddr ≤ 2 ^ 32)
    (hap : Apart dest (info.endAddr - info.startAddr) ia.image ia.size.toNat) {l : ℕ}
    (hd : DynamicAt c mem ia l) {s : Loader} (hs : s.mem = mem) (hno : NoTarget s) (fuel : ℕ) :
    ∃ t, NoTarget t ∧
      LoadedAt c mem ia info.startAddr dest (info.relocate dest).relocationOffset t.mem ∧
      loadExecutable c s ia (info.relocate dest) fuel =
        doRelocation c t ia (info.relocate dest) (filePhdr c mem ia l) := by
  have hn := ha.phdrCount_eq
  have he := hw.endsBelow ha
  obtain ⟨s₁, t, hrun, hpatch, hat⟩ := hw.loops ha.toHeadersAccepted he hfit hap hs
  rw [dynamicPhdr_some hd.index hd.type hd.last] at hrun
  have h1 := hno.loadSegments c ia (info.relocate dest)
  rw [hrun] at h1
  have h2 := NoTarget.patchHeaders h1 c (info.relocate dest)
  rw [hpatch] at h2
  refine ⟨t, h2, hat, ?_⟩
  have hph : readPhdr t.mem (tableEntry (filePhdrtab c mem ia) l c.phdrSize) c =
      filePhdr c mem ia l := by
    have hl := hw.loads ha.toHeadersAccepted he hfit hap
    have hin := hl.table l (hn ▸ hd.index)
    have hsame := hat.file (hn ▸ hl.placed) hfit hap hin
    rw [← add_ofNat_ofNat] at hsame
    unfold filePhdr
    rw [← hw.entsize]
    exact readPhdr_congr hsame
  unfold Ld.loadExecutable
  rw [hrun]
  dsimp only
  rw [hpatch]
  dsimp only
  rw [hph]
  generalize doRelocation c t ia (info.relocate dest) (filePhdr c mem ia l) = r
  obtain ⟨u, status⟩ := r
  cases status with
  | monOk => exact ha.copyTables_eq u fuel
  | monError => rfl
  | runaway => rfl

end run

/-- Two loads in the middle of their relocations. Outside the words that are relocated the
memories are still what they were; the words done so far are the same. -/
structure Lockstep (mem mem' : Memory 32) (T : BitVec 32 → Prop) (s t : Loader) : Prop where
  frame : ∀ x, ¬ T x → s.mem x = mem x
  frame' : ∀ x, ¬ T x → t.mem x = mem' x
  words : ∀ r p n, Event.write (.target r) p n ∈ s.trace ∨ Event.write (.target r) p n ∈ t.trace →
    Memory.Same s.mem p t.mem p n

section lockstep
variable {mem mem' : Memory 32} {T : BitVec 32 → Prop} {s t : Loader}

/-- Both loads write one word, and the same value remains in it. -/
theorem Lockstep.write (h : Lockstep mem mem' T s t) {s₁ t₁ : Loader} {a : BitVec 32} {n : ℕ}
    (hn : n ≤ 2 ^ 32) (hT : ∀ x, InSpan a n x → T x)
    (hs : ∀ x, ¬ InSpan a n x → s₁.mem x = s.mem x) (ht : ∀ x, ¬ InSpan a n x → t₁.mem x = t.mem x)
    (heq : ∀ x, InSpan a n x → s₁.mem x = t₁.mem x)
    (hw : ∀ r p k, Event.write (.target r) p k ∈ s₁.trace →
      (p = a ∧ k = n) ∨ Event.write (.target r) p k ∈ s.trace)
    (hw' : ∀ r p k, Event.write (.target r) p k ∈ t₁.trace →
      (p = a ∧ k = n) ∨ Event.write (.target r) p k ∈ t.trace) : Lockstep mem mem' T s₁ t₁ := by
  constructor
  · intro x hx
    exact (hs x fun hin => hx (hT x hin)).trans (h.frame x hx)
  · intro x hx
    exact (ht x fun hin => hx (hT x hin)).trans (h.frame' x hx)
  · intro r p k hmem j hj
    have hcases : (p = a ∧ k = n) ∨
        (Event.write (.target r) p k ∈ s.trace ∨ Event.write (.target r) p k ∈ t.trace) := by
      rcases hmem with hm | hm
      · exact (hw r p k hm).imp_right .inl
      · exact (hw' r p k hm).imp_right .inr
    rcases hcases with ⟨rfl, rfl⟩ | hold
    · exact heq _ ((inSpan_add_ofNat (by omega)).mpr hj)
    · by_cases hin : InSpan a n (p + BitVec.ofNat 32 j)
      · exact heq _ hin
      · rw [hs _ hin, ht _ hin]
        exact h.words r p k hold j hj

theorem Lockstep.store (h : Lockstep mem mem' T s t) {a : BitVec 32} {n v v' : ℕ} (r r' : ℕ)
    (hn : n ≤ 2 ^ 32) (hT : ∀ x, InSpan a n x → T x) (hv : v % 256 ^ n = v' % 256 ^ n) :
    Lockstep mem mem' T (s.store (.target r) a n v) (t.store (.target r') a n v') := by
  apply h.write hn hT
  · exact fun x hx => Memory.store_of_not_inSpan _ _ hx
  · exact fun x hx => Memory.store_of_not_inSpan _ _ hx
  · exact fun x hx => Memory.store_congr _ _ hn hv hx
  all_goals
    intro r₁ p k hm
    rcases List.mem_cons.mp hm with he | hm
    · cases he
      exact .inl ⟨rfl, rfl⟩
    · exact .inr hm

/-- A word stored twice: the first value does not matter. -/
theorem Lockstep.store_store (h : Lockstep mem mem' T s t) {a : BitVec 32} {n u u' v v' : ℕ}
    (r r' : ℕ) (hn : n ≤ 2 ^ 32) (hT : ∀ x, InSpan a n x → T x) (hv : v % 256 ^ n = v' % 256 ^ n) :
    Lockstep mem mem' T ((s.store (.target r) a n u).store (.target r) a n v)
      ((t.store (.target r') a n u').store (.target r') a n v') := by
  apply h.write hn hT
  · exact fun x hx => (Memory.store_of_not_inSpan _ _ hx).trans (Memory.store_of_not_inSpan _ _ hx)
  · exact fun x hx => (Memory.store_of_not_inSpan _ _ hx).trans (Memory.store_of_not_inSpan _ _ hx)
  · exact fun x hx => Memory.store_congr _ _ hn hv hx
  all_goals
    intro r₁ p k hm
    rcases List.mem_cons.mp hm with he | hm
    · cases he
      exact .inl ⟨rfl, rfl⟩
    · rcases List.mem_cons.mp hm with he | hm
      · cases he
        exact .inl ⟨rfl, rfl⟩
      · exact .inr hm

/-- A record outside the relocated words. -/
theorem field_outside {m : Memory 32} (h : ∀ x, ¬ T x → m x = mem x) {p : BitVec 32} {k o n : ℕ}
    (hk : k ≤ 2 ^ 32) (hT : ∀ x, InSpan p k x → ¬ T x) (ho : o + n ≤ k) :
    field m p o n = field mem p o n :=
  field_congr (.of_unchanged (fun x hx => h x (hT x hx)) hk) ho

end lockstep

/-- The symbol that a RELA entry of ELF64 names. -/
def relaSymbol (mem : Memory 32) (rela symtab : BitVec 32) (i : ℕ) : BitVec 32 :=
  symtab + BitVec.ofNat 32 (field mem (tableEntry rela i 24) 12 4) * 24

/-- Two loaded RELA tables of which the second has `shift` added to every address, and a set
`T` that holds the relocated words and nothing of the tables. -/
structure RelaAt (shift relocationOffset : ℕ) (mem mem' : Memory 32) (T : BitVec 32 → Prop)
    (rela symtab : BitVec 32) (count : ℕ) : Prop where
  offset : ∀ i < count, field mem' (tableEntry rela i 24) 0 8 =
    wrap64 (field mem (tableEntry rela i 24) 0 8 + shift)
  info : ∀ i < count, field mem' (tableEntry rela i 24) 8 8 = field mem (tableEntry rela i 24) 8 8
  index : ∀ i < count, field mem' (tableEntry rela i 24) 12 4 = field mem (tableEntry rela i 24) 12 4
  addend : ∀ i < count, field mem' (tableEntry rela i 24) 16 8 =
    if field mem (tableEntry rela i 24) 8 8 % 256 = 8 then
      wrap64 (field mem (tableEntry rela i 24) 16 8 + shift)
    else field mem (tableEntry rela i 24) 16 8
  apart : ∀ i < count, ∀ x, InSpan (tableEntry rela i 24) 24 x → ¬ T x
  target : ∀ i < count, field mem (tableEntry rela i 24) 8 8 % 256 = 1 ∨
    field mem (tableEntry rela i 24) 8 8 % 256 = 8 → ∀ x,
      InSpan (relocated (field mem (tableEntry rela i 24) 0 8) relocationOffset) 8 x → T x
  symbol : ∀ i < count, field mem (tableEntry rela i 24) 8 8 % 256 = 1 →
    (∀ x, InSpan (relaSymbol mem rela symtab i) 24 x → ¬ T x) ∧
      field mem' (relaSymbol mem rela symtab i) 8 8 =
        wrap64 (field mem (relaSymbol mem rela symtab i) 8 8 + shift)

section rela
variable {shift r r' count : ℕ} {mem mem' : Memory 32} {T : BitVec 32 → Prop}
  {rela symtab : BitVec 32} {s t : Loader}

/-- The shift of an address and that of the offset cancel. -/
theorem shifted_relocated (hr : wrap64 (shift + r') = wrap64 r) (v : ℕ) :
    relocated (wrap64 (v + shift)) r' = relocated v r := by
  unfold relocated wrap64 at *
  apply BitVec.eq_of_toNat_eq
  rw [BitVec.toNat_ofNat, BitVec.toNat_ofNat]
  omega

theorem RelaAt.step (h : RelaAt shift r mem mem' T rela symtab count)
    (hr : wrap64 (shift + r') = wrap64 r) {i : ℕ} (hi : i < count)
    (hl : Lockstep mem mem' T s t) :
    (rela64Step rela symtab r i s).Rel (Lockstep mem mem' T) (rela64Step rela symtab r' i t) := by
  have hent : ∀ m : Memory 32, (∀ x, ¬ T x → m x = mem x) → ∀ o n, o + n ≤ 24 →
      field m (tableEntry rela i 24) o n = field mem (tableEntry rela i 24) o n :=
    fun m hm o n ho => field_outside hm (by decide) (h.apart i hi) ho
  have hent' : ∀ m : Memory 32, (∀ x, ¬ T x → m x = mem' x) → ∀ o n, o + n ≤ 24 →
      field m (tableEntry rela i 24) o n = field mem' (tableEntry rela i 24) o n :=
    fun m hm o n ho => field_outside hm (by decide) (h.apart i hi) ho
  unfold rela64Step
  dsimp only
  rw [hent _ hl.frame 0 8 (by decide), hent' _ hl.frame' 0 8 (by decide),
    hent _ hl.frame 8 8 (by decide), hent' _ hl.frame' 8 8 (by decide),
    hent _ hl.frame 16 8 (by decide), hent' _ hl.frame' 16 8 (by decide),
    h.offset i hi, h.info i hi, h.addend i hi]
  rw [← relocated, ← relocated, shifted_relocated hr]
  have htgt := h.target i hi
  have hsym := h.symbol i hi
  generalize field mem (tableEntry rela i 24) 0 8 = o at htgt ⊢
  generalize field mem (tableEntry rela i 24) 16 8 = addend
  generalize hty : field mem (tableEntry rela i 24) 8 8 % 256 = ty at htgt hsym ⊢
  have hv : (wrap64 (addend + shift) + r') % 256 ^ 8 = (addend + r) % 256 ^ 8 := by
    unfold wrap64 at *
    omega
  obtain rfl | rfl | rfl | ⟨h1, h8, h0⟩ : ty = 1 ∨ ty = 8 ∨ ty = 0 ∨ (ty ≠ 1 ∧ ty ≠ 8 ∧ ty ≠ 0) := by
    omega
  · -- a symbol: the first store is undone by the second, which adds its value
    obtain ⟨hout, hval⟩ := hsym rfl
    have hx := htgt (.inl rfl)
    refine hl.store_store o _ (by decide) hx ?_
    have hf : ∀ v x, ¬ T x → s.mem.store (relocated o r) 8 v x = mem x := fun v x hn =>
      (Memory.store_of_not_inSpan _ _ fun hin => hn (hx x hin)).trans (hl.frame x hn)
    have hf' : ∀ v x, ¬ T x → t.mem.store (relocated o r) 8 v x = mem' x := fun v x hn =>
      (Memory.store_of_not_inSpan _ _ fun hin => hn (hx x hin)).trans (hl.frame' x hn)
    change (field (s.mem.store _ 8 _) _ 0 8 + field (s.mem.store _ 8 _) (symtab + BitVec.ofNat 32
      (field (s.mem.store _ 8 _) (tableEntry rela i 24) 12 4) * 24) 8 8) % _ =
        (field (t.mem.store _ 8 _) _ 0 8 + field (t.mem.store _ 8 _) (symtab + BitVec.ofNat 32
          (field (t.mem.store _ 8 _) (tableEntry rela i 24) 12 4) * 24) 8 8) % _
    rw [hent _ (hf _) 12 4 (by decide), hent' _ (hf' _) 12 4 (by decide), h.index i hi,
      ← relaSymbol, field_outside (hf _) (by decide) hout (by decide),
      field_outside (hf' _) (by decide) hout (by decide), hval, field_stored _ _ _ (by decide),
      field_stored _ _ _ (by decide), if_neg (by decide)]
    generalize field mem (relaSymbol mem rela symtab i) 8 8 = st
    unfold wrap64 at *
    omega
  · exact hl.store o _ (by decide) (htgt (.inr rfl)) hv.symm
  · exact hl
  · split
    · exact absurd rfl h1
    · exact absurd rfl h8
    · exact absurd rfl h0
    · exact hl

end rela

/-- The dynamic section in the file. -/
def fileDynamic (c : ElfClass) (mem : Memory 32) (ia : MemImageAccess) (l : ℕ) : BitVec 32 :=
  ia.image + BitVec.ofNat 32 (filePhdr c mem ia l).pOffset

/-- The number of its entries. -/
def dynCount (c : ElfClass) (mem : Memory 32) (ia : MemImageAccess) (l : ℕ) : ℕ :=
  (filePhdr c mem ia l).pFilesz / (2 * c.addrSize)

/-- The second file is the first one linked `shift` bytes higher, as far as the headers and the
dynamic section go. -/
structure Rebased (c : ElfClass) (shift : ℕ) (mem mem' : Memory 32) (ia : MemImageAccess) (l : ℕ) :
    Prop where
  same : shift = 0 → mem' = mem
  ehdr : fileEhdr c mem' ia =
    { fileEhdr c mem ia with eEntry := c.wrap ((fileEhdr c mem ia).eEntry + shift) }
  phdr : ∀ i < (fileEhdr c mem ia).ePhnum, filePhdr c mem' ia i =
    { filePhdr c mem ia i with
      pVaddr := c.wrap ((filePhdr c mem ia i).pVaddr + shift)
      pPaddr := (filePhdr c mem ia i).pPaddr + shift }
  tag : ∀ k < dynCount c mem ia l, (dynEntry c mem' (fileDynamic c mem ia l) k).1 =
    (dynEntry c mem (fileDynamic c mem ia l) k).1
  pointer : ∀ k < dynCount c mem ia l,
    (dynEntry c mem (fileDynamic c mem ia l) k).1 ∈ c.tableTags →
      (dynEntry c mem' (fileDynamic c mem ia l) k).2 =
        c.wrap ((dynEntry c mem (fileDynamic c mem ia l) k).2 + shift)
  value : ∀ k < dynCount c mem ia l,
    (dynEntry c mem (fileDynamic c mem ia l) k).1 ∈ c.sizeTags →
      (dynEntry c mem' (fileDynamic c mem ia l) k).2 =
        (dynEntry c mem (fileDynamic c mem ia l) k).2

/-- The same for a RELA table of ELF64 and the symbols it names, with the entry `i` at `p i` and
its symbol at `q i` in the file. No relocated word lies in a table. -/
structure RebasedRela (shift : ℕ) (mem mem' : Memory 32) (ia : MemImageAccess)
    (rela symtab count : ℕ) (p q : ℕ → BitVec 32) : Prop where
  entry : ∀ i < count, LinkedBytes .elfclass64 mem ia 0 (rela + i * 24) 24 (p i)
  offset : ∀ i < count, field mem' (p i) 0 8 = wrap64 (field mem (p i) 0 8 + shift)
  info : ∀ i < count, field mem' (p i) 8 8 = field mem (p i) 8 8
  index : ∀ i < count, field mem' (p i) 12 4 = field mem (p i) 12 4
  addend : ∀ i < count, field mem' (p i) 16 8 =
    if field mem (p i) 8 8 % 256 = 8 then wrap64 (field mem (p i) 16 8 + shift)
    else field mem (p i) 16 8
  symbol : ∀ i < count, field mem (p i) 8 8 % 256 = 1 →
    LinkedBytes .elfclass64 mem ia 0 (symtab + field mem (p i) 12 4 * 24) 24 (q i) ∧
      field mem' (q i) 8 8 = wrap64 (field mem (q i) 8 8 + shift)
  word : ∀ j < count, field mem (p j) 8 8 % 256 = 1 ∨ field mem (p j) 8 8 % 256 = 8 →
    field mem (p j) 0 8 + 8 ≤ 2 ^ 32 ∧
    ∀ i < count,
      (field mem (p j) 0 8 + 8 ≤ rela + i * 24 ∨ rela + i * 24 + 24 ≤ field mem (p j) 0 8) ∧
      (field mem (p i) 8 8 % 256 = 1 →
        field mem (p j) 0 8 + 8 ≤ symtab + field mem (p i) 12 4 * 24 ∨
          symtab + field mem (p i) 12 4 * 24 + 24 ≤ field mem (p j) 0 8)

section rebased
variable {c : ElfClass} {shift : ℕ} {mem mem' : Memory 32} {ia : MemImageAccess} {l : ℕ}

theorem Rebased.linkedBytes (h : Rebased c shift mem mem' ia l) {a n : ℕ} {p : BitVec 32}
    (hb : LinkedBytes c mem ia 0 a n p) : LinkedBytes c mem' ia shift (a + shift) n p := by
  obtain ⟨j, hj, hl, hlo, hhi, hp, hout⟩ := hb
  have hph := h.phdr j hj
  refine ⟨j, ?_, ?_, ?_, ?_, ?_, ?_⟩
  · rw [h.ehdr]
    exact hj
  · rw [hph]
    exact hl
  · rw [hph]
    dsimp only
    omega
  · rw [hph]
    change a + shift + n ≤ (filePhdr c mem ia j).pPaddr + shift + (filePhdr c mem ia j).loadFilesz
    omega
  · rw [hp, hph, Nat.add_sub_add_right]
  · rw [h.ehdr, Nat.add_sub_cancel]
    exact hout

/-- The words that the entries of a loaded RELA table name. -/
def RelocatedWord (mem : Memory 32) (rela : BitVec 32) (r count : ℕ) (x : BitVec 32) : Prop :=
  ∃ j < count, (field mem (tableEntry rela j 24) 8 8 % 256 = 1 ∨
    field mem (tableEntry rela j 24) 8 8 % 256 = 8) ∧
      InSpan (relocated (field mem (tableEntry rela j 24) 0 8) r) 8 x

/-- The tables of the file are the tables in memory, in both loads. -/
theorem RebasedRela.relaAt {rela symtab count window window' r r' : ℕ} {p q : ℕ → BitVec 32}
    {m m' : Memory 32} {dest : BitVec 32} (ht : RebasedRela shift mem mem' ia rela symtab count p q)
    (h : Rebased .elfclass64 shift mem mem' ia l)
    (hA : LoadedAt .elfclass64 mem ia 0 dest r m) (hB : LoadedAt .elfclass64 mem' ia shift dest r' m')
    (hpA : Placed (filePhdr .elfclass64 mem ia) (fileEhdr .elfclass64 mem ia).ePhnum 0 window
      ia.size.toNat)
    (hpB : Placed (filePhdr .elfclass64 mem' ia) (fileEhdr .elfclass64 mem' ia).ePhnum shift window'
      ia.size.toNat) (hw : window ≤ 2 ^ 32) :
    RelaAt shift (wrap64 (dest.toNat + (2 ^ 64 - 0))) m m'
      (RelocatedWord m (dest + BitVec.ofNat 32 rela) (wrap64 (dest.toNat + (2 ^ 64 - 0))) count)
      (dest + BitVec.ofNat 32 rela) (dest + BitVec.ofNat 32 symtab) count := by
  have hent : ∀ i, tableEntry (dest + BitVec.ofNat 32 rela) i 24 =
      dest + BitVec.ofNat 32 (rela + i * 24) := fun i => tableEntry_eq _ _ _ _
  have hloc : ∀ {a n p}, LinkedBytes .elfclass64 mem ia 0 a n p →
      Memory.Same m (dest + BitVec.ofNat 32 a) mem p n ∧
        Memory.Same m' (dest + BitVec.ofNat 32 a) mem' p n ∧ a + n ≤ 2 ^ 32 := by
    intro a n p hb
    have h1 := hA.same hpA hb
    have h2 := hB.same hpB (h.linkedBytes hb)
    rw [Nat.sub_zero] at h1
    rw [Nat.add_sub_cancel] at h2
    obtain ⟨j, hj, hl, _, hhi, _⟩ := hb
    have h3 := hpA.high j hj hl
    have h4 := (filePhdr .elfclass64 mem ia j).loadFilesz_le
    exact ⟨h1, h2, by omega⟩
  have hread : ∀ i < count, ∀ o n, o + n ≤ 24 →
      field m (tableEntry (dest + BitVec.ofNat 32 rela) i 24) o n = field mem (p i) o n ∧
        field m' (tableEntry (dest + BitVec.ofNat 32 rela) i 24) o n = field mem' (p i) o n := by
    intro i hi o n ho
    obtain ⟨h1, h2, _⟩ := hloc (ht.entry i hi)
    rw [hent]
    exact ⟨field_congr h1 ho, field_congr h2 ho⟩
  have hsym : ∀ i < count, relaSymbol m (dest + BitVec.ofNat 32 rela) (dest + BitVec.ofNat 32 symtab) i
      = dest + BitVec.ofNat 32 (symtab + field mem (p i) 12 4 * 24) := by
    intro i hi
    unfold relaSymbol
    rw [(hread i hi 12 4 (by decide)).1, BitVec.ofNat_add, BitVec.ofNat_mul, BitVec.add_assoc]
    rfl
  have hword : ∀ j < count, relocated (field mem (p j) 0 8) (wrap64 (dest.toNat + (2 ^ 64 - 0))) =
      dest + BitVec.ofNat 32 (field mem (p j) 0 8) := by
    intro j hj
    exact relocated_eq dest (Nat.zero_le _) (field_lt mem (p j) 0 8)
  constructor
  · intro i hi
    rw [(hread i hi 0 8 (by decide)).1, (hread i hi 0 8 (by decide)).2, ht.offset i hi]
  · intro i hi
    rw [(hread i hi 8 8 (by decide)).1, (hread i hi 8 8 (by decide)).2, ht.info i hi]
  · intro i hi
    rw [(hread i hi 12 4 (by decide)).1, (hread i hi 12 4 (by decide)).2, ht.index i hi]
  · intro i hi
    rw [(hread i hi 16 8 (by decide)).1, (hread i hi 16 8 (by decide)).2,
      (hread i hi 8 8 (by decide)).1, ht.addend i hi]
  · rintro i hi x hx ⟨j, hj, hty, hin⟩
    rw [(hread j hj 8 8 (by decide)).1] at hty
    rw [(hread j hj 0 8 (by decide)).1, hword j hj] at hin
    rw [hent] at hx
    obtain ⟨htop, hdis⟩ := ht.word j hj hty
    obtain ⟨_, _, hlim⟩ := hloc (ht.entry i hi)
    exact apart_offset (hdis i hi).1 htop hlim x hin hx
  · intro i hi hty x hx
    exact ⟨i, hi, hty, hx⟩
  · intro i hi hty
    have hty' := hty
    rw [(hread i hi 8 8 (by decide)).1] at hty'
    obtain ⟨hb, hval⟩ := ht.symbol i hi hty'
    obtain ⟨h1, h2, hlim⟩ := hloc hb
    rw [hsym i hi]
    constructor
    · rintro x hx ⟨j, hj, htj, hin⟩
      rw [(hread j hj 8 8 (by decide)).1] at htj
      rw [(hread j hj 0 8 (by decide)).1, hword j hj] at hin
      obtain ⟨htop, hdis⟩ := ht.word j hj htj
      exact apart_offset ((hdis i hi).2 hty') htop hlim x hin hx
    · rw [field_congr h1 (show 8 + 8 ≤ 24 by decide), field_congr h2 (show 8 + 8 ≤ 24 by decide), hval]

theorem mapDynamic_eq {ph : Phdr} (hr : ph.pOffset + ph.pFilesz ≤ ia.size.toNat) (s : Loader) :
    ∃ t : Loader, t.mem = s.mem ∧ Silent s t ∧ mapDynamic s ia ph =
      (t, BitVec.ofNat 32 ph.pFilesz, some (ia.image + BitVec.ofNat 32 ph.pOffset)) := by
  have hsil := silent_mapDynamic s ia ph
  unfold mapDynamic Loader.map memImageMapToMem at hsil ⊢
  dsimp only at hsil ⊢
  rw [clamp_of_fits hr, if_neg (not_not.mpr rfl)] at hsil ⊢
  refine ⟨_, ?_, hsil, rfl⟩
  rfl

/-- Without tables nothing is relocated. -/
theorem doRelocation_noTables {info : ElfLoadInfo} {ph : Phdr}
    (hr : ph.pOffset + ph.pFilesz ≤ ia.size.toNat) (s : Loader)
    (hno : NoTables c s.mem (ia.image + BitVec.ofNat 32 ph.pOffset)
      (ph.pFilesz / (2 * c.addrSize))) :
    ∃ t, Silent s t ∧ doRelocation c s ia info ph = (t, .monError) := by
  have hsz : (BitVec.ofNat 32 ph.pFilesz).toNat = ph.pFilesz :=
    toNat_ofNat_of_lt (by have := ia.size.isLt; omega)
  obtain ⟨t, hm, hsil, hmap⟩ := mapDynamic_eq hr s
  have hnull : ∀ tag ∈ c.tableTags, (scanDynamic c t.mem info.startAddr
      (ia.image + BitVec.ofNat 32 ph.pOffset) (ph.pFilesz / (2 * c.addrSize))).value tag = 0 := by
    intro tag ht
    rw [scanDynamic_table c _ _ _ _ ht, hm, hno tag ht]
    rfl
  refine ⟨t, hsil, ?_⟩
  cases c with
  | elfclass32 =>
    have h1 := hnull DT_RELA (by decide)
    have h2 := hnull DT_REL (by decide)
    change _ = 0 at h1 h2
    change elf32DoRelocation s ia info ph = _
    unfold elf32DoRelocation
    rw [hmap]
    dsimp only
    rw [hsz]
    rw [if_neg, if_neg]
    · exact fun h => h.1 h2
    · exact fun h => h.1 h1
  | elfclass64 =>
    have h1 := hnull DT_RELA (by decide)
    change _ = 0 at h1
    change elf64DoRelocation s ia info ph = _
    unfold elf64DoRelocation
    rw [hmap]
    dsimp only
    rw [hsz, if_pos]
    exact .inl h1

/-- Every word that either load has relocated holds the same value in both. -/
def SameWords (s t : Loader) : Prop :=
  ∀ r p n, Event.write (.target r) p n ∈ s.trace ∨ Event.write (.target r) p n ∈ t.trace →
    Memory.Same s.mem p t.mem p n

theorem sameWords_of_noTarget {s t : Loader} (hs : NoTarget s) (ht : NoTarget t) : SameWords s t :=
  fun r p n h => absurd h (not_or.mpr ⟨hs r p n, ht r p n⟩)

theorem relocate_rel {R : Loader → Loader → Prop} {step step' : ℕ → Loader → Outcome Loader}
    {n : ℕ} {s t : Loader}
    (hstep : ∀ i s t, i < n → R s t → (step i s).Rel R (step' i t)) (h : R s t) :
    (relocate step n s).2 = (relocate step' n t).2 ∧
      R (relocate step n s).1 (relocate step' n t).1 := by
  have hr : (Loop.run (fun i _ => i < n) step n 0 s).Rel R
      (Loop.run (fun i _ => i < n) step' n 0 t) := by
    apply run_rel R _ hstep h
    exact fun _ _ _ _ => Iff.rfl
  unfold relocate
  cases hs : Loop.run (fun i _ => i < n) step n 0 s <;>
    cases ht : Loop.run (fun i _ => i < n) step' n 0 t <;> rw [hs, ht] at hr
  all_goals first | exact ⟨rfl, hr⟩ | exact hr.elim

/-- Both loads of an ELF64 image at the point where they relocate. -/
theorem relocation_agree {info info' : ElfLoadInfo} {ph ph' : Phdr} {dest : BitVec 32}
    {d : DynInfo} {s t : Loader} (hs : NoTarget s) (ht : NoTarget t)
    (hr : ph.pOffset + ph.pFilesz ≤ ia.size.toNat) (ho : ph'.pOffset = ph.pOffset)
    (hf : ph'.pFilesz = ph.pFilesz) (hstart : info.startAddr = dest.toNat)
    (hstart' : info'.startAddr = dest.toNat)
    (hoff : wrap64 (shift + info'.relocationOffset) = wrap64 info.relocationOffset)
    (hd : scanDynamic .elfclass64 s.mem dest.toNat (ia.image + BitVec.ofNat 32 ph.pOffset)
      (ph.pFilesz / 16) = d)
    (hd' : scanDynamic .elfclass64 t.mem dest.toNat (ia.image + BitVec.ofNat 32 ph.pOffset)
      (ph.pFilesz / 16) = d)
    (htab : ∀ rela symtab, dynLast .elfclass64 s.mem (ia.image + BitVec.ofNat 32 ph.pOffset) DT_RELA
        (ph.pFilesz / 16) = some rela →
      dynLast .elfclass64 s.mem (ia.image + BitVec.ofNat 32 ph.pOffset) DT_SYMTAB
        (ph.pFilesz / 16) = some symtab →
      ∃ T, RelaAt shift info.relocationOffset s.mem t.mem T (dest + BitVec.ofNat 32 rela)
        (dest + BitVec.ofNat 32 symtab) (entryCount d.relaSz d.relaEntsz)) :
    (elf64DoRelocation s ia info ph).2 = (elf64DoRelocation t ia info' ph').2 ∧
      SameWords (elf64DoRelocation s ia info ph).1 (elf64DoRelocation t ia info' ph').1 := by
  have hsz : (BitVec.ofNat 32 ph.pFilesz).toNat = ph.pFilesz :=
    toNat_ofNat_of_lt (by have := ia.size.isLt; omega)
  have hptr : ∀ tag ∈ ElfClass.elfclass64.tableTags, d.value tag ≠ 0 → ∃ v,
      dynLast .elfclass64 s.mem (ia.image + BitVec.ofNat 32 ph.pOffset) tag (ph.pFilesz / 16) =
        some v ∧ d.value tag = dest + BitVec.ofNat 32 v := by
    intro tag htag hne
    rw [← hd, scanDynamic_table .elfclass64 _ _ _ _ htag] at hne ⊢
    cases hv : dynLast .elfclass64 s.mem (ia.image + BitVec.ofNat 32 ph.pOffset) tag
        (ph.pFilesz / 16) with
    | none => exact absurd (by rw [hv]; rfl) hne
    | some v =>
      refine ⟨v, rfl, ?_⟩
      rw [tablePtr, Nat.add_comm, BitVec.ofNat_add, BitVec.ofNat_toNat, BitVec.setWidth_eq]
  have hr' : ph'.pOffset + ph'.pFilesz ≤ ia.size.toNat := by rwa [ho, hf]
  obtain ⟨s₁, hm, hsil, hmap⟩ := mapDynamic_eq hr s
  obtain ⟨t₁, hm', hsil', hmap'⟩ := mapDynamic_eq hr' t
  have hnone := sameWords_of_noTarget (hs.silent hsil) (ht.silent hsil')
  unfold elf64DoRelocation
  rw [hmap, hmap', ho, hf]
  dsimp only
  rw [hsz, hstart, hstart', hm, hm', hd, hd']
  split
  · exact ⟨rfl, hnone⟩
  next hok =>
    rw [not_or, not_or, not_or] at hok
    obtain ⟨rela, h1, hrela⟩ := hptr DT_RELA (by decide) hok.1
    obtain ⟨symtab, h2, hsym⟩ := hptr DT_SYMTAB (by decide) hok.2.2.1
    change d.rela = _ at hrela
    change d.symtab = _ at hsym
    obtain ⟨T, hat⟩ := htab rela symtab h1 h2
    have hlock : Lockstep s.mem t.mem T s₁ t₁ :=
      ⟨fun x _ => congrFun hm x, fun x _ => congrFun hm' x, hnone⟩
    rw [hrela, hsym]
    have hend : (relocate (rela64Step _ _ info.relocationOffset) _ s₁).2 =
        (relocate (rela64Step _ _ info'.relocationOffset) _ t₁).2 ∧ Lockstep s.mem t.mem T
          (relocate (rela64Step _ _ info.relocationOffset) _ s₁).1
          (relocate (rela64Step _ _ info'.relocationOffset) _ t₁).1 :=
      relocate_rel (fun i u v hi hl => hat.step hoff hi hl) hlock
    exact ⟨hend.1, hend.2.words⟩

end rebased

end IkgtLoader.Ld
