import IkgtLoader.Flat.Schedule
import IkgtLoader.PreOs.Memory

/-! The discipline a client expects of the loader heap, over every sequence of requests,
and the exact condition on a request under which the allocators keep it. -/
namespace IkgtLoader
open Flat

/-- A call of one of the two allocators. -/
inductive Request
  | allocateMemory (size : BitVec 32)
  | monPageAlloc (pages : BitVec 32)

namespace Request

/-- Requested bytes, over the naturals. -/
def bytes : Request → ℕ
  | .allocateMemory size => size.toNat
  | .monPageAlloc pages => pages.toNat * 4096

def serve (s : Machine) : Request → Machine × BitVec 32
  | .allocateMemory size => IkgtLoader.allocateMemory s size
  | .monPageAlloc pages => IkgtLoader.monPageAlloc s pages

/-- Where the request would be served, over the naturals. -/
def address (s : Machine) : Request → ℕ
  | .allocateMemory _ => s.heapCurrent.toNat
  | .monPageAlloc _ => (s.heapCurrent.toNat + 4095) / 4096 * 4096

end Request

structure Block where
  base : BitVec 32
  bytes : ℕ

/-- What a client expects of one request, `blocks` being those handed out before. -/
structure Sound (blocks : List Block) (s : Machine) (r : Request) : Prop where
  refused : (r.serve s).2 = NULL → (r.serve s).1 = s
  inside : (r.serve s).2 ≠ NULL → s.heapBase.toNat ≤ (r.serve s).2.toNat ∧
    (r.serve s).2.toNat + r.bytes ≤ s.heapTops.toNat
  apart : (r.serve s).2 ≠ NULL → ∀ b ∈ blocks, Apart (r.serve s).2 r.bytes b.base b.bytes
  zeroed : (r.serve s).2 ≠ NULL → ∀ x, InSpan (r.serve s).2 r.bytes x → (r.serve s).1.mem x = 0
  aligned : ∀ pages, r = .monPageAlloc pages → (r.serve s).2.toNat % 4096 = 0
  kept : ∀ b ∈ blocks, ∀ x, InSpan b.base b.bytes x → (r.serve s).1.mem x = s.mem x

/-- A request that the limit test lets through neither passes `2^32` nor is served at
address zero, unless it is empty there. -/
def NoWrap (s : Machine) (r : Request) : Prop :=
  (r.address s + r.bytes) % 2 ^ 32 ≤ s.heapTops.toNat →
    (0 < r.address s ∧ r.address s + r.bytes < 2 ^ 32) ∨
      (s.heapCurrent.toNat = 0 ∧ r.bytes % 2 ^ 32 = 0)

instance (s : Machine) (r : Request) : Decidable (NoWrap s r) :=
  inferInstanceAs (Decidable (_ → _ ∨ _))

/-- A heap together with the blocks handed out so far. -/
structure Client where
  machine : Machine
  blocks : List Block

def Client.step (c : Client) (r : Request) : Client where
  machine := (r.serve c.machine).1
  blocks := if (r.serve c.machine).2 = NULL then c.blocks
    else ⟨(r.serve c.machine).2, r.bytes⟩ :: c.blocks

/-- The heap invariant: bounds in order, and every block below the current position. -/
structure Client.Inv (c : Client) : Prop where
  base_le : c.machine.heapBase.toNat ≤ c.machine.heapCurrent.toNat
  le_tops : c.machine.heapCurrent.toNat ≤ c.machine.heapTops.toNat
  below : ∀ b ∈ c.blocks, b.base.toNat + b.bytes ≤ c.machine.heapCurrent.toNat

/-- Both requests end in `reserve`, at an address and size that are the natural ones
modulo `2^32`. -/
theorem serve_eq_reserve (s : Machine) (r : Request) :
    ∃ a n : BitVec 32, r.serve s = reserve s a n ∧ a.toNat = r.address s % 2 ^ 32 ∧
      n.toNat = r.bytes % 2 ^ 32 := by
  cases r with
  | allocateMemory size =>
    have hc := s.heapCurrent.isLt
    have hn := size.isLt
    exact ⟨s.heapCurrent, size, rfl, (Nat.mod_eq_of_lt hc).symm, (Nat.mod_eq_of_lt hn).symm⟩
  | monPageAlloc pages =>
    refine ⟨alignForward s.heapCurrent, pages * PAGE_SIZE, rfl, ?_, ?_⟩
    · rw [toNat_alignForward]
      simp only [Request.address]
      have := s.heapCurrent.isLt
      omega
    · simp [Request.bytes, BitVec.toNat_mul]

theorem le_address {s : Machine} (r : Request) : s.heapCurrent.toNat ≤ r.address s := by
  cases r with
  | allocateMemory size => exact le_rfl
  | monPageAlloc pages => simp only [Request.address]; omega

theorem address_le {s : Machine} (r : Request) : r.address s ≤ 2 ^ 32 := by
  have := s.heapCurrent.isLt
  cases r with
  | allocateMemory size => simp only [Request.address]; omega
  | monPageAlloc pages => simp only [Request.address]; omega

/-- What one request can do: leave the machine alone, or bump it past the block. -/
theorem serve_cases (s : Machine) (r : Request) :
    (s.heapTops.toNat < (r.address s + r.bytes) % 2 ^ 32 ∧ r.serve s = (s, NULL)) ∨
      ((r.address s + r.bytes) % 2 ^ 32 ≤ s.heapTops.toNat ∧ ∃ a n : BitVec 32,
        a.toNat = r.address s % 2 ^ 32 ∧ n.toNat = r.bytes % 2 ^ 32 ∧
        r.serve s = ({ s with heapCurrent := a + n, mem := zeroMem s.mem a n }, a)) := by
  obtain ⟨a, n, he, ha, hn⟩ := serve_eq_reserve s r
  have hsum : (a + n).toNat = (r.address s + r.bytes) % 2 ^ 32 := by
    rw [BitVec.toNat_add, ha, hn, ← Nat.add_mod]
  by_cases h : s.heapTops < a + n
  · left
    exact ⟨by rwa [BitVec.lt_def, hsum] at h, he.trans (reserve_refused s a n h)⟩
  · right
    refine ⟨?_, a, n, ha, hn, he.trans (reserve_served s a n h)⟩
    rw [BitVec.lt_def, hsum] at h
    exact Nat.le_of_not_lt h

/-- A request accepted without wrapping, with its block at its natural address. -/
theorem serve_of_noWrap {s : Machine} {r : Request} {a n : BitVec 32}
    (ha : a.toNat = r.address s % 2 ^ 32) (hn : n.toNat = r.bytes % 2 ^ 32)
    (h : r.address s + r.bytes < 2 ^ 32) : a.toNat = r.address s ∧ n.toNat = r.bytes := by
  omega

theorem pageAligned_of_address {s : Machine} {a : BitVec 32} (pages : BitVec 32)
    (ha : a.toNat = (Request.monPageAlloc pages).address s % 2 ^ 32) : a.toNat % 4096 = 0 := by
  simp only [Request.address] at ha
  omega

/-- The empty request at address zero is indistinguishable from a refusal. -/
theorem serve_null_of_zero {s : Machine} {r : Request} {a n : BitVec 32}
    (ha : a.toNat = r.address s % 2 ^ 32) (hn : n.toNat = r.bytes % 2 ^ 32)
    (hz : s.heapCurrent.toNat = 0) (hb : r.bytes % 2 ^ 32 = 0) :
    (({ s with heapCurrent := a + n, mem := zeroMem s.mem a n } : Machine), a) = (s, NULL) := by
  have ha0 : r.address s = 0 := by
    cases r with
    | allocateMemory size => exact hz
    | monPageAlloc pages => simp [Request.address, hz]
  have ea : a = 0#32 := BitVec.eq_of_toNat_eq (ha.trans (by rw [ha0]; rfl))
  have en : n = 0#32 := BitVec.eq_of_toNat_eq (hn.trans hb)
  have ec : s.heapCurrent = 0#32 := BitVec.eq_of_toNat_eq hz
  subst ea en
  rw [show 0#32 + 0#32 = s.heapCurrent from ec.symm]
  rfl

theorem sound_of_null {blocks : List Block} {s : Machine} {r : Request}
    (h : r.serve s = (s, NULL)) : Sound blocks s r where
  refused _ := by rw [h]
  inside hn := absurd (by rw [h]) hn
  apart hn := absurd (by rw [h]) hn
  zeroed hn := absurd (by rw [h]) hn
  aligned _ _ := by rw [h]; rfl
  kept _ _ _ _ := by rw [h]

theorem sound_of_noWrap {c : Client} (hc : c.Inv) {r : Request} (h : NoWrap c.machine r) :
    Sound c.blocks c.machine r := by
  rcases serve_cases c.machine r with ⟨_, he⟩ | ⟨hacc, a, n, ha, hn, he⟩
  · exact sound_of_null he
  rcases h hacc with ⟨hpos, hlt⟩ | ⟨hz, hb⟩
  · obtain ⟨ea, en⟩ := serve_of_noWrap ha hn hlt
    have hle := le_address (s := c.machine) r
    have hbase := hc.base_le
    have ht : c.machine.heapTops.toNat < 2 ^ 32 := c.machine.heapTops.isLt
    have hbelow : ∀ b ∈ c.blocks, Apart b.base b.bytes a r.bytes := fun b hb =>
      apart_of_le (by have := hc.below b hb; omega) (by omega)
    have hne : a ≠ NULL := by
      rintro rfl
      rw [ea.symm] at hpos
      exact absurd hpos (by simp)
    refine ⟨?_, ?_, ?_, ?_, ?_, ?_⟩ <;> rw [he]
    · exact fun h0 => absurd h0 hne
    · intro _
      dsimp only
      omega
    · exact fun _ b hb => (hbelow b hb).symm
    · intro _ x hx
      change c.machine.mem.fill a 0 n.toNat x = 0
      rw [Memory.fill_apply _ a x 0 (Nat.le_of_lt n.isLt), en, if_pos hx]
    · rintro pages rfl
      exact pageAligned_of_address pages ha
    · intro b hb x hx
      refine Memory.fill_of_not_inSpan c.machine.mem 0 ?_
      rw [en]
      exact hbelow b hb x hx
  · exact sound_of_null (he.trans (serve_null_of_zero ha hn hz hb))

/-- A request that keeps the discipline did not wrap: the block it reports is inside the
heap, and a reported refusal has changed nothing. -/
theorem noWrap_of_sound {c : Client} {r : Request} (h : Sound c.blocks c.machine r) :
    NoWrap c.machine r := by
  intro hacc
  rcases serve_cases c.machine r with ⟨hrej, _⟩ | ⟨_, a, n, ha, hn, he⟩
  · omega
  have hle := le_address (s := c.machine) r
  have hub := address_le (s := c.machine) r
  by_cases h0 : a = NULL
  · right
    have hm := h.refused (by rw [he]; exact h0)
    rw [he] at hm
    have hcur : (a + n).toNat = c.machine.heapCurrent.toNat :=
      congrArg (fun m : Machine => m.heapCurrent.toNat) hm
    have ea : a.toNat = 0 := by rw [h0]; rfl
    rw [BitVec.toNat_add] at hcur
    have hlt := c.machine.heapCurrent.isLt
    cases r with
    | allocateMemory size =>
      simp only [Request.address, Request.bytes] at *
      omega
    | monPageAlloc pages =>
      simp only [Request.address, Request.bytes] at *
      omega
  · left
    have hin := h.inside (by rw [he]; exact h0)
    rw [he] at hin
    have hpos : 0 < a.toNat := Nat.pos_of_ne_zero fun hz => h0 (BitVec.eq_of_toNat_eq hz)
    have ht := c.machine.heapTops.isLt
    dsimp only at hin
    omega

theorem Client.Inv.step {c : Client} (hc : c.Inv) {r : Request} (h : NoWrap c.machine r) :
    (c.step r).Inv := by
  rcases serve_cases c.machine r with ⟨_, he⟩ | ⟨hacc, a, n, ha, hn, he⟩
  · simpa [Client.step, he] using hc
  rcases h hacc with ⟨hpos, hlt⟩ | ⟨hz, hb⟩
  · obtain ⟨ea, en⟩ := serve_of_noWrap ha hn hlt
    have hle := le_address (s := c.machine) r
    have hbase := hc.base_le
    have hsum : (a + n).toNat = r.address c.machine + r.bytes := by
      rw [BitVec.toNat_add, ea, en, Nat.mod_eq_of_lt hlt]
    have hne : a ≠ NULL := by
      rintro rfl
      rw [ea.symm] at hpos
      exact absurd hpos (by simp)
    simp only [Client.step, he, hne, if_false]
    refine ⟨?_, ?_, ?_⟩
    · dsimp only; omega
    · dsimp only; omega
    · intro b hb
      dsimp only
      rcases List.mem_cons.mp hb with rfl | hb
      · dsimp only; omega
      · have := hc.below b hb
        omega
  · rw [serve_null_of_zero ha hn hz hb] at he
    simpa [Client.step, he] using hc

/-- The client that owns the heap just initialised. -/
def Client.initial (mem : Memory 32) (heapBaseAddress heapBytes : BitVec 32) : Client :=
  ⟨initializeMemoryManager mem heapBaseAddress heapBytes, []⟩

theorem Client.initial_inv (mem : Memory 32) (base bytes : BitVec 32)
    (h : base.toNat + bytes.toNat < 2 ^ 32) : (Client.initial mem base bytes).Inv where
  base_le := le_rfl
  le_tops := by
    simp only [Client.initial, initializeMemoryManager, BitVec.toNat_add]
    omega
  below := by simp [Client.initial]

/-- Along every sequence of requests that do not wrap, the bounds stay in order, and the
next request is served soundly exactly when it does not wrap either. -/
theorem heap_discipline (mem : Memory 32) (base bytes : BitVec 32)
    (h : base.toNat + bytes.toNat < 2 ^ 32) (requests : List Request)
    (hr : Schedule.Admits Client.step (fun c r => NoWrap c.machine r)
      (Client.initial mem base bytes) requests) :
    let c := Schedule.run Client.step (Client.initial mem base bytes) requests
    c.machine.heapBase.toNat ≤ c.machine.heapCurrent.toNat ∧
      c.machine.heapCurrent.toNat ≤ c.machine.heapTops.toNat ∧
      ∀ r, Sound c.blocks c.machine r ↔ NoWrap c.machine r := by
  have hinv : (Schedule.run Client.step (Client.initial mem base bytes) requests).Inv :=
    Schedule.run_invariant Client.Inv (fun _ _ hc hw => hc.step hw) (Client.initial_inv mem base bytes h) hr
  exact ⟨hinv.base_le, hinv.le_tops, fun r => ⟨noWrap_of_sound, sound_of_noWrap hinv⟩⟩

/-- A command line buffer and a page from a heap of sixteen pages. -/
theorem heap_discipline_two_requests :
    let c := Schedule.run Client.step (Client.initial (fun _ => 0x5a) 0x1000 0x10000)
      [.allocateMemory 0x210, .monPageAlloc 1]
    c.machine.heapBase.toNat ≤ c.machine.heapCurrent.toNat ∧
      c.machine.heapCurrent.toNat ≤ c.machine.heapTops.toNat ∧
      ∀ r, Sound c.blocks c.machine r ↔ NoWrap c.machine r :=
  heap_discipline (fun _ => 0x5a) 0x1000 0x10000 (by decide)
    [.allocateMemory 0x210, .monPageAlloc 1] (by decide +kernel)

/-- A size near `2^32` wraps in the limit test: the request is served, and the position
drops below the base of the heap. -/
theorem allocateMemory_wraps :
    let c := (Client.initial (fun _ => 0x5a) 0x1000 0x1000).step (.allocateMemory 0xffffffff)
    c.machine.heapCurrent.toNat < c.machine.heapBase.toNat ∧
      (Client.initial (fun _ => 0x5a) 0x1000 0x1000).Inv ∧
      ¬ Sound [] (Client.initial (fun _ => 0x5a) 0x1000 0x1000).machine
        (.allocateMemory 0xffffffff) := by
  refine ⟨by decide +kernel, Client.initial_inv _ _ _ (by decide), fun h => ?_⟩
  have hin := (h.inside (by decide +kernel)).2
  exact absurd hin (by decide +kernel)

end IkgtLoader
