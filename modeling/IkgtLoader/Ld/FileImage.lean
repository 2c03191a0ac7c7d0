import Mathlib.Data.List.GetD
import Mathlib.Data.List.Pairwise

/-! `image_access_file.c`: an image in a file, and the chunks of it that have been mapped. The width is
that of `size_t` and of `long`. -/
namespace IkgtLoader.Ld

variable {w : ℕ}

/-- `mem_chunk_t`, with what its buffer holds. -/
structure MemChunk (w : ℕ) where
  offset : BitVec w
  length : BitVec w
  buffer : ℕ → BitVec 8

/-- `file_image_access_t`; the file is its content and the place where it is read next. -/
structure FileImageAccess (w : ℕ) where
  content : List (BitVec 8)
  position : ℕ
  memoryList : List (MemChunk w)

def fileImageCreate (w : ℕ) (content : List (BitVec 8)) : FileImageAccess w := ⟨content, 0, []⟩

/-- `fseek` with `SEEK_SET`, which refuses an offset that is negative as a `long`. -/
def FileImageAccess.fseek (fia : FileImageAccess w) (offset : BitVec w) : Option (FileImageAccess w) :=
  if offset.msb then none else some { fia with position := offset.toNat }

/-- The bytes that `fread` stores; there may be fewer than asked for. -/
def FileImageAccess.fread (fia : FileImageAccess w) (bytes : BitVec w) :
    FileImageAccess w × List (BitVec 8) :=
  let data := (fia.content.drop fia.position).take bytes.toNat
  ({ fia with position := fia.position + data.length }, data)

/-- The bytes that are stored at `dest`; their number is returned. -/
def fileImageRead (fia : FileImageAccess w) (srcOffset bytes : BitVec w) :
    FileImageAccess w × List (BitVec 8) :=
  match fia.fseek srcOffset with
  | none => (fia, [])
  | some fia => fia.fread bytes

/-- The number of bytes mapped, and the buffer. What `malloc` hands out holds some bytes already. -/
def fileImageMapToMem (fia : FileImageAccess w) (srcOffset bytes : BitVec w)
    (allocated : ℕ → BitVec 8) : FileImageAccess w × BitVec w × (ℕ → BitVec 8) :=
  match fia.memoryList.find? fun chunk => chunk.offset = srcOffset ∧ chunk.length = bytes with
  | some chunk => (fia, bytes, chunk.buffer)
  | none =>
    let (fia, data) := fileImageRead fia srcOffset bytes
    let chunk : MemChunk w := ⟨srcOffset, bytes, fun k => data.getD k (allocated k)⟩
    ({ fia with memoryList := chunk :: fia.memoryList }, BitVec.ofNat w data.length, chunk.buffer)

/-- A call on an image. -/
inductive FileCall (w : ℕ) where
  | read (srcOffset bytes : BitVec w)
  | mapToMem (srcOffset bytes : BitVec w) (allocated : ℕ → BitVec 8)

def FileCall.run (fia : FileImageAccess w) : FileCall w → FileImageAccess w
  | .read srcOffset bytes => (fileImageRead fia srcOffset bytes).1
  | .mapToMem srcOffset bytes allocated => (fileImageMapToMem fia srcOffset bytes allocated).1

/-- A call that maps does what a fresh read would do. -/
def FileCall.Faithful (fia : FileImageAccess w) : FileCall w → Prop
  | .read _ _ => True
  | .mapToMem srcOffset bytes allocated =>
    let (_, bytesMapped, buffer) := fileImageMapToMem fia srcOffset bytes allocated
    let data := (fileImageRead fia srcOffset bytes).2
    bytesMapped.toNat = data.length ∧ ∀ k (h : k < data.length), buffer k = data[k]

/-- So do all the calls of a sequence. -/
def AllFaithful (fia : FileImageAccess w) : List (FileCall w) → Prop
  | [] => True
  | call :: calls => call.Faithful fia ∧ AllFaithful (call.run fia) calls

/-- The range can be read in full. -/
def ReadsInFull (content : List (BitVec 8)) (srcOffset bytes : BitVec w) : Prop :=
  bytes = 0 ∨ srcOffset.msb = false ∧ srcOffset.toNat + bytes.toNat ≤ content.length

/-- The range that a call maps. -/
def FileCall.range : FileCall w → Option (BitVec w × BitVec w)
  | .read _ _ => none
  | .mapToMem srcOffset bytes _ => some (srcOffset, bytes)

/-- The bytes of a range, as far as the file has them. -/
def rangeBytes (content : List (BitVec 8)) (srcOffset bytes : BitVec w) : List (BitVec 8) :=
  if srcOffset.msb then [] else (content.drop srcOffset.toNat).take bytes.toNat

section read
variable (fia : FileImageAccess w) (srcOffset bytes : BitVec w)

/-- What is read does not depend on the calls before. -/
theorem fileImageRead_bytes : (fileImageRead fia srcOffset bytes).2 =
    rangeBytes fia.content srcOffset bytes := by
  unfold fileImageRead FileImageAccess.fseek rangeBytes
  cases srcOffset.msb <;> rfl

@[simp] theorem fileImageRead_content :
    (fileImageRead fia srcOffset bytes).1.content = fia.content := by
  unfold fileImageRead FileImageAccess.fseek
  cases srcOffset.msb <;> rfl

@[simp] theorem fileImageRead_memoryList :
    (fileImageRead fia srcOffset bytes).1.memoryList = fia.memoryList := by
  unfold fileImageRead FileImageAccess.fseek
  cases srcOffset.msb <;> rfl

theorem rangeBytes_length_le (content : List (BitVec 8)) :
    (rangeBytes content srcOffset bytes).length ≤ bytes.toNat := by
  unfold rangeBytes
  split
  next => exact Nat.zero_le _
  next => exact List.length_take_le _ _

theorem rangeBytes_length_eq_iff (content : List (BitVec 8)) :
    bytes.toNat = (rangeBytes content srcOffset bytes).length ↔
      ReadsInFull content srcOffset bytes := by
  have hzero : bytes = 0 ↔ bytes.toNat = 0 := by
    rw [← BitVec.toNat_inj]
    simp
  unfold rangeBytes ReadsInFull
  rw [hzero]
  split
  next h => simp [h]
  next h =>
    rw [List.length_take, List.length_drop]
    simp only [h, true_and]
    omega

end read

/-- The buffers hold what the file holds, as far as it goes. -/
def Cached (fia : FileImageAccess w) : Prop :=
  ∀ chunk ∈ fia.memoryList, ∀ k (h : k < (rangeBytes fia.content chunk.offset chunk.length).length),
    chunk.buffer k = (rangeBytes fia.content chunk.offset chunk.length)[k]

/-- The ranges that have been mapped. -/
def FileImageAccess.Mapped (fia : FileImageAccess w) (r : BitVec w × BitVec w) : Prop :=
  ∃ chunk ∈ fia.memoryList, (chunk.offset, chunk.length) = r

section map
variable {fia : FileImageAccess w} {srcOffset bytes : BitVec w}

/-- A range that has been mapped is found again. -/
theorem fileImageMapToMem_mapped (allocated : ℕ → BitVec 8) (h : fia.Mapped (srcOffset, bytes)) :
    ∃ chunk ∈ fia.memoryList, (chunk.offset, chunk.length) = (srcOffset, bytes) ∧
      fileImageMapToMem fia srcOffset bytes allocated = (fia, bytes, chunk.buffer) := by
  obtain ⟨chunk, hmem, hkey⟩ := h
  obtain ⟨rfl, rfl⟩ := Prod.mk.inj hkey
  unfold fileImageMapToMem
  cases hfind : fia.memoryList.find? fun c => c.offset = chunk.offset ∧ c.length = chunk.length with
  | none =>
    have hmiss := List.find?_eq_none.mp hfind chunk hmem
    simp at hmiss
  | some found =>
    have hfound := List.find?_some hfind
    simp only [decide_eq_true_eq] at hfound
    exact ⟨found, List.mem_of_find?_eq_some hfind, Prod.ext hfound.1 hfound.2, rfl⟩

/-- Another is read, and remembered. -/
theorem fileImageMapToMem_fresh {allocated : ℕ → BitVec 8} (h : ¬ fia.Mapped (srcOffset, bytes)) :
    fileImageMapToMem fia srcOffset bytes allocated =
      ({ (fileImageRead fia srcOffset bytes).1 with
          memoryList := ⟨srcOffset, bytes, fun k =>
            (rangeBytes fia.content srcOffset bytes).getD k (allocated k)⟩ :: fia.memoryList },
        BitVec.ofNat w (rangeBytes fia.content srcOffset bytes).length,
        fun k => (rangeBytes fia.content srcOffset bytes).getD k (allocated k)) := by
  unfold fileImageMapToMem
  cases hfind : fia.memoryList.find? fun c => c.offset = srcOffset ∧ c.length = bytes with
  | none =>
    dsimp only
    rw [fileImageRead_bytes, fileImageRead_memoryList]
  | some found =>
    have hfound := List.find?_some hfind
    simp only [decide_eq_true_eq] at hfound
    exact absurd ⟨found, List.mem_of_find?_eq_some hfind, Prod.ext hfound.1 hfound.2⟩ h

/-- What a call does to the image: nothing that counts, or a chunk is added for the range that it maps. -/
theorem FileCall.run_cases (fia : FileImageAccess w) (call : FileCall w) :
    (call.run fia).content = fia.content ∧
      ((call.run fia).memoryList = fia.memoryList ∧ (∀ r, call.range = some r → fia.Mapped r) ∨
        ∃ chunk, (call.run fia).memoryList = chunk :: fia.memoryList ∧
          call.range = some (chunk.offset, chunk.length) ∧
          ∀ k (h : k < (rangeBytes fia.content chunk.offset chunk.length).length),
            chunk.buffer k = (rangeBytes fia.content chunk.offset chunk.length)[k]) := by
  cases call with
  | read srcOffset bytes =>
    exact ⟨fileImageRead_content fia srcOffset bytes, .inl ⟨fileImageRead_memoryList fia srcOffset bytes,
      fun r hr => by cases hr⟩⟩
  | mapToMem srcOffset bytes allocated =>
    change (fileImageMapToMem fia srcOffset bytes allocated).1.content = _ ∧
      ((fileImageMapToMem fia srcOffset bytes allocated).1.memoryList = _ ∧ _ ∨
        ∃ chunk, (fileImageMapToMem fia srcOffset bytes allocated).1.memoryList = _ ∧ _)
    by_cases h : fia.Mapped (srcOffset, bytes)
    · obtain ⟨_, _, _, hmap⟩ := fileImageMapToMem_mapped allocated h
      rw [hmap]
      exact ⟨rfl, .inl ⟨rfl, fun r hr => by cases hr; exact h⟩⟩
    · rw [fileImageMapToMem_fresh h]
      exact ⟨fileImageRead_content fia srcOffset bytes, .inr ⟨_, rfl, rfl, fun k hk =>
        List.getD_eq_getElem _ _ hk⟩⟩

theorem FileCall.run_mapped (call : FileCall w) (r : BitVec w × BitVec w) :
    (call.run fia).Mapped r ↔ fia.Mapped r ∨ call.range = some r := by
  unfold FileImageAccess.Mapped
  obtain ⟨_, hsame | ⟨chunk, hlist, hrange, _⟩⟩ := call.run_cases fia
  · rw [hsame.1]
    exact ⟨.inl, fun h => h.elim id (hsame.2 r)⟩
  · rw [hlist, hrange, Option.some_inj]
    simp only [List.mem_cons, or_and_right, exists_or, exists_eq_left]
    exact or_comm

theorem FileCall.run_cached (call : FileCall w) (h : Cached fia) : Cached (call.run fia) := by
  unfold Cached
  obtain ⟨hcontent, hsame | ⟨chunk, hlist, _, hbuffer⟩⟩ := call.run_cases fia
  · rw [hcontent, hsame.1]
    exact h
  · rw [hcontent, hlist]
    exact List.forall_mem_cons.mpr ⟨hbuffer, h⟩

/-- A call is faithful unless it maps a range again that cannot be read in full. -/
theorem FileCall.faithful_iff (call : FileCall w) (h : Cached fia) : call.Faithful fia ↔
    ∀ r, call.range = some r → fia.Mapped r → ReadsInFull fia.content r.1 r.2 := by
  cases call with
  | read srcOffset bytes => exact iff_of_true trivial fun r hr => by cases hr
  | mapToMem srcOffset bytes allocated =>
    unfold FileCall.Faithful FileCall.range
    dsimp only
    rw [fileImageRead_bytes]
    by_cases hmapped : fia.Mapped (srcOffset, bytes)
    · obtain ⟨chunk, hmem, hkey, hmap⟩ := fileImageMapToMem_mapped allocated hmapped
      obtain ⟨rfl, rfl⟩ := Prod.mk.inj hkey
      rw [hmap]
      dsimp only
      rw [rangeBytes_length_eq_iff]
      constructor
      · rintro ⟨hfull, _⟩ r hr _
        cases hr
        exact hfull
      · exact fun hfull => ⟨hfull _ rfl hmapped, h chunk hmem⟩
    · have hle := rangeBytes_length_le srcOffset bytes fia.content
      rw [fileImageMapToMem_fresh hmapped]
      refine iff_of_true ⟨?_, fun k hk => List.getD_eq_getElem _ _ hk⟩ fun r hr hm => ?_
      · dsimp only
        rw [BitVec.toNat_ofNat, Nat.mod_eq_of_lt (Nat.lt_of_le_of_lt hle bytes.isLt)]
      · cases hr
        exact absurd hm hmapped

end map

/-- The calls on an image with chunks: none maps again what cannot be read in full. -/
theorem allFaithful_iff {fia : FileImageAccess w} (calls : List (FileCall w)) (h : Cached fia) :
    AllFaithful fia calls ↔
      (∀ call ∈ calls, ∀ r, call.range = some r → fia.Mapped r → ReadsInFull fia.content r.1 r.2) ∧
      calls.Pairwise fun call call' => ∀ r, call.range = some r → call'.range = some r →
        ReadsInFull fia.content r.1 r.2 := by
  induction calls generalizing fia with
  | nil => simp [AllFaithful]
  | cons call calls ih =>
    have hcontent := (call.run_cases fia).1
    rw [AllFaithful, call.faithful_iff h, ih (call.run_cached h), hcontent, List.forall_mem_cons,
      List.pairwise_cons]
    simp only [call.run_mapped]
    constructor
    · rintro ⟨hcall, hrest, hpair⟩
      exact ⟨⟨hcall, fun c hc r hr hm => hrest c hc r hr (.inl hm)⟩,
        fun c hc r hr hr' => hrest c hc r hr' (.inr hr), hpair⟩
    · rintro ⟨⟨hcall, hrest⟩, hnew, hpair⟩
      refine ⟨hcall, fun c hc r hr hm => ?_, hpair⟩
      rcases hm with hm | hm
      · exact hrest c hc r hr hm
      · exact hnew c hc r hm hr

/-- Mapping is reading, over all the calls on an image, exactly if no call maps the range of an earlier
one that cannot be read in full. -/
theorem fileImage_faithful_iff (content : List (BitVec 8)) (calls : List (FileCall w)) :
    AllFaithful (fileImageCreate w content) calls ↔
      calls.Pairwise fun call call' => ∀ r, call.range = some r → call'.range = some r →
        ReadsInFull content r.1 r.2 := by
  have hcached : Cached (fileImageCreate w content) := fun chunk hmem => by cases hmem
  rw [allFaithful_iff calls hcached]
  refine and_iff_right fun call _ r _ hmapped => ?_
  obtain ⟨chunk, hmem, _⟩ := hmapped
  cases hmem

/-- Four bytes of a file of three, mapped twice: the second call claims to have mapped them all. -/
theorem fileImage_short_again :
    let first : FileCall 32 := .mapToMem 0 4 fun _ => 0xcc
    let fia := first.run (fileImageCreate 32 [1, 2, 3])
    (fileImageMapToMem fia 0 4 fun _ => 0xcc).2.1 = 4 ∧ (fileImageRead fia 0 4).2.length = 3 ∧
      ¬ AllFaithful (fileImageCreate 32 [1, 2, 3]) [first, first] := by
  refine ⟨by decide, by decide, ?_⟩
  rintro ⟨_, ⟨hcount, _⟩, _⟩
  exact absurd hcount (by decide)

end IkgtLoader.Ld
