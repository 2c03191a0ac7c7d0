import IkgtLoader.StartAp.Procs
import Mathlib.Data.Nat.Count
import Mathlib.Order.Interval.Finset.Nat

/-! Repeated calls of `startap_main` on one loaded image: the first boot and the resumes from
S3. The presence array is never cleared and an error code is used as a count. -/
namespace IkgtLoader.StartAp
open Schedule

/-- The globals that outlive a call and that the counting reads. -/
structure Globals where
  apPresenceArray : ℕ → BitVec 8
  gApsCounter : BitVec 32
  gReadyCounter : BitVec 32

def Globals.initial : Globals := ⟨fun _ => 0, 0, 0⟩

/-- One call: its arguments, and the processors that answer the SIPI before they are
enumerated. -/
structure Call (size : ℕ) where
  init32 : Option Init32Struct
  postOsLaunch : Bool
  reports : Finset (BitVec 8)
  ne_zero : ∀ a ∈ reports, a ≠ 0
  below_size : ∀ a ∈ reports, a.toNat < size

/-- What a call does with the count. The field `number_of_processors_at_boot_time` has `w`
bits; `wait` holds the two counters that `ap_procs_run` compares first. -/
structure Launch (w : ℕ) where
  applicationProcesors : BitVec 32
  numberOfProcessors : Option (BitVec w)
  wait : Option (BitVec 32 × BitVec 32)

/-- The loop of `bsp_enumerate_aps` after its first `n` rounds. -/
def enumerated (apPresenceArray : ℕ → BitVec 8) : ℕ → (ℕ → BitVec 8) × BitVec 8
  | 0 => (apPresenceArray, 0)
  | n + 1 =>
    let (slots, apNum) := enumerated apPresenceArray n
    if slots (n + 1) ≠ 0 then (Function.update slots (n + 1) (apNum + 1), apNum + 1)
    else (slots, apNum)

/-- Every processor sets its slot to 1. -/
def reported (reports : Finset (BitVec 8)) (apPresenceArray : ℕ → BitVec 8) (j : ℕ) : BitVec 8 :=
  if ∃ a ∈ reports, a.toNat = j then 1 else apPresenceArray j

/-- `ap_procs_startup` with its caller's test for NULL; -1 is the error code. -/
def apProcsStartup (size : ℕ) (g : Globals) (p : Init32Struct) (reports : Finset (BitVec 8)) :
    Globals × BitVec 32 :=
  if p.i32LowMemoryPage = 0 then (g, -1)
  else
    let (slots, apNum) := enumerated (reported reports g.apPresenceArray) (size - 1)
    (⟨slots, apNum.setWidth 32, 0⟩, apNum.setWidth 32)

variable {size : ℕ}

/-- The processors that a call has started; without a low page no SIPI is sent. -/
def Call.started (c : Call size) : Finset (BitVec 8) :=
  match c.init32 with
  | none => ∅
  | some p => if p.i32LowMemoryPage = 0 then ∅ else c.reports

def startapMain (w : ℕ) (g : Globals) (c : Call size) : Globals × Launch w :=
  let (g, applicationProcesors) :=
    match c.init32 with
    | none => (g, 0)
    | some p => apProcsStartup size g p c.reports
  let number := if c.postOsLaunch then none else some ((applicationProcesors + 1).setWidth w)
  if 0 < applicationProcesors then
    ({ g with gReadyCounter := g.gReadyCounter + BitVec.ofNat 32 c.started.card },
      ⟨applicationProcesors, number, some (g.gReadyCounter, g.gApsCounter)⟩)
  else (g, ⟨applicationProcesors, number, none⟩)

/-- The call counts the processors it has started and no others. -/
structure CountsAfresh (w : ℕ) (g : Globals) (c : Call size) : Prop where
  used : (startapMain w g c).2.applicationProcesors.toNat = c.started.card
  number : ∀ v, (startapMain w g c).2.numberOfProcessors = some v →
    v = BitVec.ofNat w (c.started.card + 1)
  wait : ∀ ready aps, (startapMain w g c).2.wait = some (ready, aps) → ∀ k ≤ c.started.card,
    ready + BitVec.ofNat 32 k = aps ↔ k = c.started.card

/-- The call is given a low page if it is to start processors, and all that were started
before report again. -/
def Call.Repeats (seen : Finset (BitVec 8)) (c : Call size) : Prop :=
  ∀ p, c.init32 = some p → p.i32LowMemoryPage ≠ 0 ∧ seen ⊆ c.reports

section enumerate
variable (slots : ℕ → BitVec 8)

theorem enumerated_above {n j : ℕ} (h : n < j) : (enumerated slots n).1 j = slots j := by
  induction n with
  | zero => rfl
  | succ n ih =>
    have hn := ih (by omega)
    rw [enumerated]
    dsimp only
    split
    · exact (Function.update_of_ne (by omega) _ _).trans hn
    · exact hn

/-- The counter of the loop, and which slots are taken, as long as eight bits are enough. -/
theorem enumerated_spec {n : ℕ} (h : Nat.count (fun j => slots (j + 1) ≠ 0) n ≤ 255) :
    (enumerated slots n).2.toNat = Nat.count (fun j => slots (j + 1) ≠ 0) n ∧
      ∀ j, (enumerated slots n).1 j ≠ 0 ↔ slots j ≠ 0 := by
  induction n with
  | zero => exact ⟨rfl, fun j => Iff.rfl⟩
  | succ n ih =>
    rw [Nat.count_succ] at h ⊢
    obtain ⟨hnum, hslot⟩ := ih (by omega)
    rw [enumerated]
    dsimp only
    rw [enumerated_above slots (Nat.lt_succ_self n)]
    by_cases hz : slots (n + 1) = 0
    · rw [if_neg (not_not.mpr hz), if_neg (not_not.mpr hz)]
      exact ⟨hnum, hslot⟩
    · rw [if_pos hz] at h ⊢
      rw [if_pos hz]
      have hnext : ((enumerated slots n).2 + 1).toNat =
          Nat.count (fun j => slots (j + 1) ≠ 0) n + 1 := by
        rw [BitVec.toNat_add, hnum]
        exact Nat.mod_eq_of_lt (show _ + 1 < 2 ^ 8 by omega)
      refine ⟨hnext, fun j => ?_⟩
      dsimp only
      by_cases hj : j = n + 1
      · subst hj
        rw [Function.update_self]
        refine iff_of_true (fun hc => ?_) hz
        rw [hc] at hnext
        exact absurd hnext (Nat.succ_ne_zero _).symm
      · rw [Function.update_of_ne hj]
        exact hslot j

end enumerate

section started
variable {seen : Finset (BitVec 8)}

/-- Distinct bytes other than 0. -/
theorem card_le_of_ne_zero (h : ∀ a ∈ seen, a ≠ 0) : seen.card ≤ 255 := by
  have hc : seen.card ≤ (Finset.Icc 1 255).card := by
    refine Finset.card_le_card_of_injOn BitVec.toNat ?_ fun a _ b _ => BitVec.eq_of_toNat_eq
    intro a ha
    have hne : a.toNat ≠ 0 := fun hz => h a ha (BitVec.eq_of_toNat_eq hz)
    have hlt := a.isLt
    exact Finset.mem_coe.mpr (Finset.mem_Icc.mpr (by omega))
  simpa using hc

/-- The loop counts the processors whose slots are taken. -/
theorem count_slots {slots : ℕ → BitVec 8} (hne : ∀ a ∈ seen, a ≠ 0)
    (hsize : ∀ a ∈ seen, a.toNat < size)
    (hslots : ∀ j, 1 ≤ j → (slots j ≠ 0 ↔ ∃ a ∈ seen, a.toNat = j)) :
    Nat.count (fun j => slots (j + 1) ≠ 0) (size - 1) = seen.card := by
  have hpos : ∀ a ∈ seen, 1 ≤ a.toNat := by
    intro a ha
    have hz : a.toNat ≠ 0 := fun hz => hne a ha (BitVec.eq_of_toNat_eq hz)
    omega
  have himage : (Finset.range (size - 1)).filter (fun j => slots (j + 1) ≠ 0) =
      seen.image fun a => a.toNat - 1 := by
    ext j
    rw [Finset.mem_filter, Finset.mem_range, Finset.mem_image, hslots _ (by omega)]
    constructor
    · rintro ⟨_, a, ha, he⟩
      exact ⟨a, ha, by omega⟩
    · rintro ⟨a, ha, rfl⟩
      have h1 := hpos a ha
      have h2 := hsize a ha
      exact ⟨by omega, a, ha, by omega⟩
  rw [Nat.count_eq_card_filter_range, himage]
  refine Finset.card_image_of_injOn fun a ha b hb hab => BitVec.eq_of_toNat_eq ?_
  have h1 := hpos a ha
  have h2 := hpos b hb
  omega

/-- The slots that are taken are those of the processors started so far. -/
structure SlotsOf (size : ℕ) (seen : Finset (BitVec 8)) (g : Globals) : Prop where
  ne_zero : ∀ a ∈ seen, a ≠ 0
  below_size : ∀ a ∈ seen, a.toNat < size
  slot : ∀ j, 1 ≤ j → (g.apPresenceArray j ≠ 0 ↔ ∃ a ∈ seen, a.toNat = j)

theorem slotsOf_initial : SlotsOf size ∅ .initial where
  ne_zero a ha := absurd ha (Finset.notMem_empty a)
  below_size a ha := absurd ha (Finset.notMem_empty a)
  slot _ _ := iff_of_false (fun h => h rfl) fun ⟨a, ha, _⟩ => Finset.notMem_empty a ha

variable {g : Globals} {c : Call size}

theorem SlotsOf.reported (h : SlotsOf size seen g) (c : Call size) {j : ℕ} (hj : 1 ≤ j) :
    reported c.reports g.apPresenceArray j ≠ 0 ↔ ∃ a ∈ seen ∪ c.reports, a.toNat = j := by
  unfold StartAp.reported
  split
  next hr =>
    obtain ⟨a, ha, he⟩ := hr
    exact iff_of_true (by decide) ⟨a, Finset.mem_union_right _ ha, he⟩
  next hr =>
    rw [h.slot j hj]
    constructor
    · rintro ⟨a, ha, he⟩
      exact ⟨a, Finset.mem_union_left _ ha, he⟩
    · rintro ⟨a, ha, he⟩
      rcases Finset.mem_union.mp ha with hs | hc
      · exact ⟨a, hs, he⟩
      · exact absurd ⟨a, hc, he⟩ hr

/-- A startup counts all processors ever started, and their slots are the ones taken then. -/
theorem SlotsOf.startup (h : SlotsOf size seen g) (c : Call size) {p : Init32Struct}
    (hp : p.i32LowMemoryPage ≠ 0) :
    (apProcsStartup size g p c.reports).2.toNat = (seen ∪ c.reports).card ∧
      SlotsOf size (seen ∪ c.reports) (apProcsStartup size g p c.reports).1 ∧
      (apProcsStartup size g p c.reports).1.gReadyCounter = 0 ∧
      (apProcsStartup size g p c.reports).1.gApsCounter =
        (apProcsStartup size g p c.reports).2 := by
  have hne : ∀ a ∈ seen ∪ c.reports, a ≠ 0 := fun a ha =>
    (Finset.mem_union.mp ha).elim (h.ne_zero a) (c.ne_zero a)
  have hsize : ∀ a ∈ seen ∪ c.reports, a.toNat < size := fun a ha =>
    (Finset.mem_union.mp ha).elim (h.below_size a) (c.below_size a)
  have hcount := count_slots hne hsize fun j hj => h.reported c hj
  have hle := card_le_of_ne_zero hne
  obtain ⟨hnum, hslot⟩ := enumerated_spec (StartAp.reported c.reports g.apPresenceArray)
    (n := size - 1) (by omega)
  unfold apProcsStartup
  rw [if_neg hp]
  dsimp only
  refine ⟨?_, ⟨hne, hsize, fun j hj => ?_⟩, rfl, rfl⟩
  · rw [BitVec.toNat_setWidth, hnum, hcount]
    omega
  · rw [hslot j, h.reported c hj]

end started

section call
variable {seen : Finset (BitVec 8)} {g : Globals} {w : ℕ} {c : Call size}

/-- The count of a call, and what it leaves behind. -/
theorem startapMain_eq (w : ℕ) (g : Globals) (c : Call size) (g' : Globals) (n : BitVec 32)
    (h : (match c.init32 with
      | none => (g, 0)
      | some p => apProcsStartup size g p c.reports) = (g', n)) :
    (startapMain w g c).1.apPresenceArray = g'.apPresenceArray ∧
      (startapMain w g c).2 = ⟨n, if c.postOsLaunch then none else some ((n + 1).setWidth w),
        if 0 < n then some (g'.gReadyCounter, g'.gApsCounter) else none⟩ := by
  unfold startapMain
  rw [h]
  dsimp only
  split
  · exact ⟨rfl, rfl⟩
  · exact ⟨rfl, rfl⟩

theorem setWidth_add_one {n : BitVec 32} {k : ℕ} (hn : n.toNat = k) (hk : k ≤ 255) :
    (n + 1).setWidth w = BitVec.ofNat w (k + 1) := by
  apply BitVec.eq_of_toNat_eq
  rw [BitVec.toNat_setWidth, BitVec.toNat_add, BitVec.toNat_ofNat, hn]
  congr 1
  change (_ + 1) % 2 ^ 32 = _
  omega

theorem countsAfresh_zero (h : (match c.init32 with
      | none => (g, 0)
      | some p => apProcsStartup size g p c.reports) = (g, 0)) (hs : c.started = ∅) :
    CountsAfresh w g c := by
  obtain ⟨_, hl⟩ := startapMain_eq w g c _ _ h
  have hcard : c.started.card = 0 := by rw [hs, Finset.card_empty]
  constructor
  · rw [hl, hcard]
    rfl
  · intro v hv
    rw [hl] at hv
    rw [hcard]
    dsimp only at hv
    split at hv
    · cases hv
    · cases hv
      exact setWidth_add_one rfl (Nat.zero_le _)
  · intro ready aps hw
    rw [hl] at hw
    cases hw

/-- A call counts afresh exactly if it is given a low page and nobody is missing. -/
theorem SlotsOf.countsAfresh_iff (h : SlotsOf size seen g) (w : ℕ) (c : Call size) :
    CountsAfresh w g c ↔ c.Repeats seen := by
  cases hi : c.init32 with
  | none =>
    refine iff_of_true (countsAfresh_zero (by rw [hi]) ?_) fun p hp => ?_
    · unfold Call.started
      rw [hi]
    · rw [hi] at hp
      cases hp
  | some p =>
    have hrep : c.Repeats seen ↔ p.i32LowMemoryPage ≠ 0 ∧ seen ⊆ c.reports := by
      constructor
      · exact fun hr => hr p hi
      · intro hr q hq
        rw [hi] at hq
        cases hq
        exact hr
    rw [hrep]
    by_cases hp : p.i32LowMemoryPage = 0
    · -- the error code is taken for a count
      refine iff_of_false (fun hc => ?_) fun hr => hr.1 hp
      have hstart : c.started = ∅ := by
        unfold Call.started
        rw [hi]
        exact if_pos hp
      obtain ⟨_, hl⟩ := startapMain_eq w g c g (-1) (by
        rw [hi]
        exact if_pos hp)
      have hu := hc.used
      rw [hl, hstart, Finset.card_empty] at hu
      exact absurd hu (show (-1 : BitVec 32).toNat ≠ 0 by decide)
    · have hstart : c.started = c.reports := by
        unfold Call.started
        rw [hi]
        exact if_neg hp
      obtain ⟨hcount, _, hready, haps⟩ := h.startup c hp
      obtain ⟨_, hl⟩ := startapMain_eq w g c (apProcsStartup size g p c.reports).1
        (apProcsStartup size g p c.reports).2 (by rw [hi])
      have hle : c.reports.card ≤ 255 := card_le_of_ne_zero c.ne_zero
      constructor
      · intro hc
        refine ⟨hp, ?_⟩
        have hu := hc.used
        rw [hl, hstart] at hu
        dsimp only at hu
        rw [hcount] at hu
        have hsubset : c.reports ⊆ seen ∪ c.reports := Finset.subset_union_right
        have heq := Finset.eq_of_subset_of_card_le hsubset hu.le
        rw [heq]
        exact Finset.subset_union_left
      · rintro ⟨_, hsub⟩
        rw [Finset.union_eq_right.mpr hsub] at hcount
        constructor
        · rw [hl, hstart]
          exact hcount
        · intro v hv
          rw [hl] at hv
          dsimp only at hv
          split at hv
          · cases hv
          · cases hv
            rw [hstart]
            exact setWidth_add_one hcount hle
        · intro ready aps hw k hk
          rw [hl] at hw
          dsimp only at hw
          split at hw
          · cases hw
            rw [hstart] at hk ⊢
            rw [hready, haps, show (0 : BitVec 32) + BitVec.ofNat 32 k = BitVec.ofNat 32 k from
              BitVec.zero_add _, ← hcount, ← BitVec.toNat_inj, BitVec.toNat_ofNat]
            omega
          · cases hw

theorem SlotsOf.startapMain (h : SlotsOf size seen g) (w : ℕ) (c : Call size) :
    SlotsOf size (seen ∪ c.started) (startapMain w g c).1 := by
  cases hi : c.init32 with
  | none =>
    obtain ⟨hs, _⟩ := startapMain_eq w g c g 0 (by rw [hi])
    unfold Call.started
    rw [hi]
    dsimp only
    rw [Finset.union_empty]
    exact ⟨h.ne_zero, h.below_size, fun j hj => by rw [hs]; exact h.slot j hj⟩
  | some p =>
    by_cases hp : p.i32LowMemoryPage = 0
    · obtain ⟨hs, _⟩ := startapMain_eq w g c g (-1) (by
        rw [hi]
        exact if_pos hp)
      unfold Call.started
      rw [hi]
      dsimp only
      rw [if_pos hp, Finset.union_empty]
      exact ⟨h.ne_zero, h.below_size, fun j hj => by rw [hs]; exact h.slot j hj⟩
    · obtain ⟨_, hslots, _⟩ := h.startup c hp
      obtain ⟨hs, _⟩ := startapMain_eq w g c (apProcsStartup size g p c.reports).1
        (apProcsStartup size g p c.reports).2 (by rw [hi])
      unfold Call.started
      rw [hi]
      dsimp only
      rw [if_neg hp]
      exact ⟨hslots.ne_zero, hslots.below_size, fun j hj => by rw [hs]; exact hslots.slot j hj⟩

end call

/-- In every sequence of calls all of them count afresh exactly if each one that is to start
processors is given a low page and hears again of every processor started before. -/
theorem counts_afresh_iff (size w : ℕ) (calls : List (Call size)) :
    Admits (fun g c => (startapMain w g c).1) (CountsAfresh w) .initial calls ↔
      Admits (fun seen c => seen ∪ c.started) (fun seen c => c.Repeats seen) ∅ calls :=
  admits_iff_of_rel (fun g seen => SlotsOf size seen g) (fun _ _ c h => h.startapMain w c)
    (fun _ _ c h => h.countsAfresh_iff w c) slotsOf_initial calls

section steps
variable {cfg : Config} {s : State}

/-- The rounds of the loop are the steps of the bootstrap processor. -/
theorem run_enumerate (hb : s.bsp = .enumerate 1 0) {n : ℕ} (hn : n < cfg.size) :
    run (step cfg) s (List.replicate n .bsp) = { s with
      bsp := .enumerate (n + 1) (enumerated s.apPresenceArray n).2
      apPresenceArray := (enumerated s.apPresenceArray n).1 } := by
  induction n with
  | zero =>
    rw [List.replicate_zero, run_nil, Nat.zero_add]
    unfold enumerated
    dsimp only
    rw [← hb]
  | succ n ih =>
    rw [List.replicate_succ', run_append, ih (by omega), run_cons, run_nil]
    simp only [step]
    unfold stepBsp
    dsimp only
    rw [if_pos hn, enumerated]
    dsimp only
    split
    · rfl
    · rfl

theorem reported_cons (a : BitVec 8) (l : List (BitVec 8)) (slots : ℕ → BitVec 8) :
    reported l.toFinset (Function.update slots a.toNat 1) =
      reported (a :: l).toFinset slots := by
  funext j
  unfold reported
  simp only [List.mem_toFinset, List.mem_cons, exists_eq_or_imp]
  by_cases hl : ∃ b ∈ l, b.toNat = j
  · rw [if_pos hl, if_pos (.inr hl)]
  · rw [if_neg hl]
    by_cases ha : a.toNat = j
    · rw [if_pos (.inl ha), ha, Function.update_self]
    · rw [if_neg (not_or.mpr ⟨ha, hl⟩), Function.update_of_ne (Ne.symm ha)]

/-- The reports are steps of the processors that wait for the SIPI. -/
theorem run_reports {l : List (BitVec 8)} (hl : l.Nodup) (hmem : ∀ a ∈ l, a ∈ cfg.aps)
    (hwait : ∀ a ∈ l, s.ap a = .waitSipi) (hsipi : s.sipiSent = true) :
    (run (step cfg) s (l.map .ap)).apPresenceArray = reported l.toFinset s.apPresenceArray ∧
      (run (step cfg) s (l.map .ap)).bsp = s.bsp := by
  induction l generalizing s with
  | nil => exact ⟨funext fun j => (if_neg fun ⟨a, ha, _⟩ => by cases ha).symm, rfl⟩
  | cons a l ih =>
    have hstep : step cfg s (.ap a) = { s.setAp a .waitLock1 with
        apPresenceArray := Function.update s.apPresenceArray a.toNat 1 } := by
      simp only [step]
      unfold stepAp
      rw [if_pos (hmem a List.mem_cons_self), hwait a List.mem_cons_self]
      dsimp only
      rw [if_pos hsipi]
    obtain ⟨hnot, hl'⟩ := List.nodup_cons.mp hl
    rw [List.map_cons, run_cons, hstep]
    have hih := ih hl' (fun b hb => hmem b (List.mem_cons_of_mem a hb))
      (s := { s.setAp a .waitLock1 with
        apPresenceArray := Function.update s.apPresenceArray a.toNat 1 }) (fun b hb => ?_) hsipi
    · rw [hih.1, hih.2]
      exact ⟨reported_cons a l s.apPresenceArray, rfl⟩
    · have hne : b ≠ a := fun h => hnot (h ▸ hb)
      exact (Function.update_of_ne hne _ _).trans (hwait b (List.mem_cons_of_mem a hb))

theorem step_stall (hb : s.bsp = .stall) : step cfg s .bsp = { s with bsp := .enumerate 1 0 } := by
  obtain ⟨bsp, _⟩ := s
  cases hb
  rfl

theorem step_enumerated {n : BitVec 8} (hb : s.bsp = .enumerate cfg.size n) :
    (run (step cfg) s [.bsp, .bsp]).bsp = .launch (n.setWidth 32) := by
  have hdone : step cfg s .bsp = { s with bsp := .storeCount n } := by
    obtain ⟨bsp, _⟩ := s
    cases hb
    exact if_neg (lt_irrefl cfg.size)
  rw [run_cons, hdone]
  rfl

/-- The steps of a call that starts processors lead to the count of `apProcsStartup`. -/
theorem run_startup {p : Init32Struct} (hb : s.bsp = .startup) (hp : cfg.init32 = some p)
    (hpage : p.i32LowMemoryPage ≠ 0) (hsize : 1 ≤ cfg.size) {l : List (BitVec 8)} (hl : l.Nodup)
    (hmem : ∀ a ∈ l, a ∈ cfg.aps) (hwait : ∀ a ∈ l, s.ap a = .waitSipi) {g : Globals}
    (hg : g.apPresenceArray = s.apPresenceArray) :
    (run (step cfg) s ([.bsp] ++ l.map .ap ++ [.bsp] ++ List.replicate (cfg.size - 1) .bsp ++
      [.bsp, .bsp])).bsp = .launch (apProcsStartup cfg.size g p l.toFinset).2 := by
  rw [run_append, run_append, run_append, run_append,
    show run (step cfg) s [.bsp] = step cfg s .bsp from rfl]
  have hfirst : step cfg s .bsp =
      { apIntializeEnvironment s with bsp := .stall, sipiSent := true } := by
    simp only [step]
    unfold stepBsp
    rw [hb, hp]
    exact if_neg hpage
  obtain ⟨hslots, hbsp⟩ := run_reports (s := step cfg s .bsp) hl hmem
    (by rw [hfirst]; exact hwait) (by rw [hfirst])
  generalize run (step cfg) (step cfg s .bsp) (l.map .ap) = t at hslots hbsp ⊢
  rw [hfirst] at hslots hbsp
  have hsecond : run (step cfg) t [.bsp] = { t with bsp := .enumerate 1 0 } := step_stall hbsp
  rw [hsecond, run_enumerate rfl (by omega), Nat.sub_add_cancel hsize, step_enumerated rfl, hslots]
  unfold apProcsStartup
  rw [if_neg hpage, hg]
  rfl

end steps

/-- A startup of the processors in `reports`, with a low page. -/
def startup (reports : Finset (BitVec 8)) (hne : ∀ a ∈ reports, a ≠ 0)
    (hsize : ∀ a ∈ reports, a.toNat < 8) : Call 8 where
  init32 := some ⟨0x8000, 7, 0, fun _ => 0⟩
  postOsLaunch := false
  reports := reports
  ne_zero := hne
  below_size := hsize

/-- Two processors at the first boot, one after the resume: both are counted again, and the
barrier of `ap_procs_run` waits for two. Without a low page the error code is the count. -/
theorem resume_counts_stale :
    (startapMain 16 (startapMain 16 .initial (startup {1, 2} (by decide) (by decide))).1
      (startup {1} (by decide) (by decide))).2 = ⟨2, some 3, some (0, 2)⟩ ∧
    ¬ Admits (fun g c => (startapMain 16 g c).1) (CountsAfresh 16) .initial
      [startup {1, 2} (by decide) (by decide), startup {1} (by decide) (by decide)] ∧
    (startapMain 16 .initial { startup ∅ (by decide) (by decide) with
      init32 := some ⟨0, 7, 0, fun _ => 0⟩ }).2 = ⟨-1, some 0, some (0, 0)⟩ := by
  have hlaunch : (startapMain 16 (startapMain 16 .initial (startup {1, 2} (by decide)
      (by decide))).1 (startup {1} (by decide) (by decide))).2 = ⟨2, some 3, some (0, 2)⟩ := by
    rfl
  refine ⟨hlaunch, fun h => ?_, rfl⟩
  have hu := h.2.1.used
  rw [hlaunch] at hu
  exact absurd hu (by decide)

end IkgtLoader.StartAp
