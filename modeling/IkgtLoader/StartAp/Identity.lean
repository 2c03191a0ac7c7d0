import IkgtLoader.StartAp.Procs
import Mathlib.Order.Interval.Finset.Nat

/-! Which ordinal an application processor reads. The invariant holds as long as no
processor reports to a slot that the enumeration is already done with. -/
namespace IkgtLoader.StartAp

/-- Processors that have reported to a slot below `n`. -/
def State.count (cfg : Config) (s : State) (n : ℕ) : ℕ :=
  (cfg.aps.filter fun a => s.Reported a ∧ a.toNat < n).card

theorem count_congr {cfg : Config} {s t : State} {n : ℕ}
    (h : ∀ a ∈ cfg.aps, a.toNat < n → (s.Reported a ↔ t.Reported a)) :
    s.count cfg n = t.count cfg n := by
  unfold State.count
  congr 1
  refine Finset.filter_congr fun a ha => ?_
  constructor
  · exact fun ⟨hr, hn⟩ => ⟨(h a ha hn).mp hr, hn⟩
  · exact fun ⟨hr, hn⟩ => ⟨(h a ha hn).mpr hr, hn⟩

theorem count_mono (cfg : Config) (s : State) {m n : ℕ} (h : m ≤ n) :
    s.count cfg m ≤ s.count cfg n :=
  Finset.card_le_card fun a ha => by
    simp only [Finset.mem_filter] at ha ⊢
    exact ⟨ha.1, ha.2.1, by omega⟩

theorem count_succ_of_reported {cfg : Config} {s : State} {a : BitVec 8} (ha : a ∈ cfg.aps)
    (hr : s.Reported a) : s.count cfg (a.toNat + 1) = s.count cfg a.toNat + 1 := by
  have he : (cfg.aps.filter fun b => s.Reported b ∧ b.toNat < a.toNat + 1) =
      insert a (cfg.aps.filter fun b => s.Reported b ∧ b.toNat < a.toNat) := by
    ext b
    simp only [Finset.mem_filter, Finset.mem_insert]
    constructor
    · rintro ⟨hb, hrb, hlt⟩
      by_cases hab : b.toNat = a.toNat
      · exact Or.inl (BitVec.eq_of_toNat_eq hab)
      · exact Or.inr ⟨hb, hrb, by omega⟩
    · rintro (rfl | ⟨hb, hrb, hlt⟩)
      · exact ⟨ha, hr, by omega⟩
      · exact ⟨hb, hrb, by omega⟩
  unfold State.count
  rw [he, Finset.card_insert_of_notMem (by simp)]

theorem count_succ_of_absent {cfg : Config} {s : State} {i : ℕ}
    (h : ∀ a ∈ cfg.aps, s.Reported a → a.toNat ≠ i) :
    s.count cfg (i + 1) = s.count cfg i := by
  unfold State.count
  congr 1
  refine Finset.filter_congr fun a ha => ?_
  constructor
  · exact fun ⟨hr, hn⟩ => ⟨hr, by have := h a ha hr; omega⟩
  · exact fun ⟨hr, hn⟩ => ⟨hr, by omega⟩

/-- No ordinal leaves eight bits: APIC ids are distinct bytes and 0 is not one of them. -/
theorem count_le {cfg : Config} {s : State} (h : ∀ a ∈ cfg.aps, s.Reported a → 1 ≤ a.toNat)
    (n : ℕ) : s.count cfg n ≤ 255 := by
  have hc : s.count cfg n ≤ (Finset.Icc 1 255).card := by
    refine Finset.card_le_card_of_injOn BitVec.toNat ?_ fun a _ b _ => BitVec.eq_of_toNat_eq
    intro a ha
    have ha := Finset.mem_filter.mp ha
    have hlt := a.isLt
    exact Finset.mem_coe.mpr (Finset.mem_Icc.mpr ⟨h a ha.1 ha.2.1, by omega⟩)
  simpa using hc

/-- Slots done with hold ordinals, slots still ahead of the cursor hold the flag. -/
structure Inv (cfg : Config) (s : State) : Prop where
  slot : ∀ a ∈ cfg.aps, s.Reported a → 1 ≤ a.toNat ∧ (s.apPresenceArray a.toNat).toNat =
    if a.toNat < s.bsp.cursor cfg.size then s.count cfg (a.toNat + 1) else 1
  empty : ∀ j, (∀ a ∈ cfg.aps, s.Reported a → a.toNat ≠ j) → s.apPresenceArray j = 0
  apNum : ∀ i n, s.bsp = .enumerate i n → 1 ≤ i ∧ n.toNat = s.count cfg i
  quiet : s.bsp = .startup → s.sipiSent = false ∧ ∀ a, ¬ s.Reported a
  state : s.mpBootstrapState = .apsEnumerated →
    s.bsp = .waitReady ∨ s.bsp = .runReturned ∨ s.bsp = .startApplication
  released : ∀ a, (s.ap a).Released → s.mpBootstrapState = .apsEnumerated
  ordered : ∀ a e, (s.ap a).ecx? = some e → e = (s.apPresenceArray a.toNat).setWidth 32
  stack : ∀ a p, (s.ap a).esp? = some p → ∃ e, (s.ap a).ecx? = some e ∧ p = loadEsp cfg e
  member : ∀ a, s.Reported a → a ∈ cfg.aps

theorem inv_initial (cfg : Config) : Inv cfg initial where
  slot _ _ hr := absurd rfl hr
  empty _ _ := rfl
  apNum _ _ h := by cases h
  quiet _ := ⟨rfl, fun _ hr => hr rfl⟩
  state h := by cases h
  released _ h := h.elim
  ordered _ _ h := by cases h
  stack _ _ h := by cases h
  member _ hr := absurd rfl hr

namespace Inv
variable {cfg : Config} {s : State}

theorem one_le_cursor (h : Inv cfg s) {a : BitVec 8} (ha : a ∈ cfg.aps) :
    1 ≤ s.bsp.cursor cfg.size := by
  have hsize := cfg.below_size a ha
  cases hb : s.bsp with
  | enumerate i n => exact (h.apNum i n hb).1
  | _ => simp only [BspPc.cursor]; omega

theorem slot_ne_zero (h : Inv cfg s) {a : BitVec 8} (ha : a ∈ cfg.aps) (hr : s.Reported a) :
    s.apPresenceArray a.toNat ≠ 0 := by
  intro hz
  obtain ⟨_, hs⟩ := h.slot a ha hr
  rw [hz, count_succ_of_reported ha hr] at hs
  split_ifs at hs <;> simp at hs

/-- The processor whose slot is not empty. -/
theorem exists_of_slot (h : Inv cfg s) {j : ℕ} (hj : s.apPresenceArray j ≠ 0) :
    ∃ a ∈ cfg.aps, s.Reported a ∧ a.toNat = j := by
  by_contra hn
  push Not at hn
  exact hj (h.empty j hn)

/-- A step of the bootstrap processor that leaves the array and the processors alone. -/
theorem setBsp (h : Inv cfg s) (pc : BspPc) (st : MpBootstrapState)
    (hcur : ∀ a ∈ cfg.aps, s.Reported a →
      (a.toNat < pc.cursor cfg.size ↔ a.toNat < s.bsp.cursor cfg.size))
    (hnum : ∀ i n, pc = .enumerate i n → 1 ≤ i ∧ n.toNat = s.count cfg i)
    (hpc : pc ≠ .startup)
    (hst : st = .apsEnumerated → pc = .waitReady ∨ pc = .runReturned ∨ pc = .startApplication)
    (hrel : ∀ a, (s.ap a).Released → st = .apsEnumerated) (f d g r : BitVec 32)
    (b : Bool) :
    Inv cfg { s with
      bsp := pc, mpBootstrapState := st, gUserFunc := f, gAnyDataForUserFunc := d,
      gApsCounter := g, gReadyCounter := r, sipiSent := b } where
  slot a ha hr := by
    obtain ⟨h1, h2⟩ := h.slot a ha hr
    refine ⟨h1, h2.trans ?_⟩
    simp only [hcur a ha hr]
    rfl
  empty := h.empty
  apNum := hnum
  quiet hs := absurd hs hpc
  state := hst
  released := hrel
  ordered := h.ordered
  stack := h.stack
  member := h.member

theorem count_le (h : Inv cfg s) (n : ℕ) : s.count cfg n ≤ 255 :=
  StartAp.count_le (fun a ha hr => (h.slot a ha hr).1) n

theorem no_ecx (h : Inv cfg s) (hs : s.mpBootstrapState ≠ .apsEnumerated) {a : BitVec 8}
    {e : BitVec 32} : (s.ap a).ecx? ≠ some e :=
  fun he => hs (h.released a (ApPc.released_of_ecx he))

theorem state_ne (h : Inv cfg s) (h1 : s.bsp ≠ .waitReady) (h2 : s.bsp ≠ .runReturned)
    (h3 : s.bsp ≠ .startApplication) : s.mpBootstrapState ≠ .apsEnumerated := by
  intro hs
  rcases h.state hs with hb | hb | hb
  · exact h1 hb
  · exact h2 hb
  · exact h3 hb

/-- One slot of `bsp_enumerate_aps`: a non-empty slot gets the next ordinal. -/
theorem enumerate (h : Inv cfg s) {i : ℕ} {n : BitVec 8} (hb : s.bsp = .enumerate i n)
    (hi : s.apPresenceArray i ≠ 0) :
    Inv cfg { s with
      bsp := .enumerate (i + 1) (n + 1)
      apPresenceArray := Function.update s.apPresenceArray i (n + 1) } := by
  obtain ⟨h1, hn⟩ := h.apNum i n hb
  obtain ⟨b, hbm, hbr, rfl⟩ := h.exists_of_slot hi
  have hcount := count_succ_of_reported hbm hbr
  have hle := h.count_le (b.toNat + 1)
  have hnum : (n + 1).toNat = s.count cfg (b.toNat + 1) := by
    rw [BitVec.toNat_add, hn, hcount, Nat.mod_eq_of_lt]
    · rfl
    · simp only [BitVec.reduceToNat]
      omega
  have hst := h.state_ne (by simp [hb]) (by simp [hb]) (by simp [hb])
  refine ⟨?_, ?_, ?_, (fun hs => by cases hs), fun hs => absurd hs hst,
    fun a hr => absurd (h.released a hr) hst, fun a e he => absurd he (h.no_ecx hst), h.stack, h.member⟩
  · intro a ha hr
    obtain ⟨ha1, ha2⟩ := h.slot a ha hr
    refine ⟨ha1, ?_⟩
    by_cases hab : a.toNat = b.toNat
    · simp only [hab, Function.update_self, BspPc.cursor, Nat.lt_succ_self, if_true]
      exact hnum
    · simp only [Function.update_of_ne hab, BspPc.cursor]
      rw [ha2, hb]
      have hiff : a.toNat < b.toNat + 1 ↔ a.toNat < b.toNat := by omega
      simp only [BspPc.cursor, hiff]
      rfl
  · intro j hj
    have hne : j ≠ b.toNat := fun he => hj b hbm hbr he.symm
    simp only [Function.update_of_ne hne]
    exact h.empty j hj
  · rintro i' n' he
    cases he
    exact ⟨by omega, hnum⟩

theorem stepBsp (h : Inv cfg s) : Inv cfg (StartAp.stepBsp cfg s) := by
  have hsize : ∀ pc : BspPc, pc.cursor cfg.size = s.bsp.cursor cfg.size → ∀ a ∈ cfg.aps,
      s.Reported a → (a.toNat < pc.cursor cfg.size ↔ a.toNat < s.bsp.cursor cfg.size) :=
    fun pc he a _ _ => by rw [he]
  cases hb : s.bsp with
  | startup =>
    obtain ⟨_, hq⟩ := h.quiet hb
    have hst := h.state_ne (by simp [hb]) (by simp [hb]) (by simp [hb])
    simp only [StartAp.stepBsp, hb]
    cases cfg.init32 with
    | none =>
      exact h.setBsp (.launch 0) s.mpBootstrapState (fun a _ hr => absurd hr (hq a))
        (fun _ _ he => by cases he) (by simp) (fun hs => absurd hs hst)
        (fun a hr => absurd (h.released a hr) hst) _ _ _ _ _
    | some p =>
      dsimp only
      split
      · exact h.setBsp (.launch (-1)) s.mpBootstrapState (fun a _ hr => absurd hr (hq a))
          (fun _ _ he => by cases he) (by simp) (fun hs => absurd hs hst)
          (fun a hr => absurd (h.released a hr) hst) _ _ _ _ _
      · exact h.setBsp .stall .init (fun a _ hr => absurd hr (hq a))
          (fun _ _ he => by cases he) (by simp) (fun hs => by cases hs)
          (fun a hr => absurd (h.released a hr) hst) _ _ _ _ _
  | stall =>
    have hst := h.state_ne (by simp [hb]) (by simp [hb]) (by simp [hb])
    simp only [StartAp.stepBsp, hb]
    refine h.setBsp (.enumerate 1 0) s.mpBootstrapState (hsize _ (by rw [hb]; rfl)) ?_ (by simp)
      (fun hs => absurd hs hst) (fun a hr => absurd (h.released a hr) hst) _ _ _ _ _
    rintro i n he
    cases he
    refine ⟨le_rfl, ?_⟩
    symm
    refine Finset.card_eq_zero.mpr (Finset.filter_eq_empty_iff.mpr ?_)
    rintro a ha ⟨hr, hlt⟩
    have := (h.slot a ha hr).1
    omega
  | enumerate i n =>
    have hst := h.state_ne (by simp [hb]) (by simp [hb]) (by simp [hb])
    simp only [StartAp.stepBsp, hb]
    split
    · split
      next hi => exact h.enumerate hb hi
      next hi =>
        obtain ⟨h1, hn⟩ := h.apNum i n hb
        have habs : ∀ a ∈ cfg.aps, s.Reported a → a.toNat ≠ i := by
          rintro a ha hr rfl
          exact hi (h.slot_ne_zero ha hr)
        refine h.setBsp (.enumerate (i + 1) n) s.mpBootstrapState ?_ ?_ (by simp)
          (fun hs => absurd hs hst) (fun a hr => absurd (h.released a hr) hst) _ _ _ _ _
        · intro a ha hr
          have := habs a ha hr
          simp only [hb, BspPc.cursor]
          omega
        · rintro i' n' he
          cases he
          exact ⟨by omega, by rw [count_succ_of_absent habs]; exact hn⟩
    · refine h.setBsp (.storeCount n) s.mpBootstrapState ?_ (fun _ _ he => by cases he) (by simp)
        (fun hs => absurd hs hst) (fun a hr => absurd (h.released a hr) hst) _ _ _ _ _
      intro a ha hr
      have := cfg.below_size a ha
      simp only [hb, BspPc.cursor]
      omega
  | storeCount n =>
    have hst := h.state_ne (by simp [hb]) (by simp [hb]) (by simp [hb])
    simp only [StartAp.stepBsp, hb]
    exact h.setBsp (.launch (n.setWidth 32)) s.mpBootstrapState (hsize _ (by rw [hb]; rfl))
      (fun _ _ he => by cases he) (by simp) (fun hs => absurd hs hst)
      (fun a hr => absurd (h.released a hr) hst) _ _ _ _ _
  | launch n =>
    have hst := h.state_ne (by simp [hb]) (by simp [hb]) (by simp [hb])
    simp only [StartAp.stepBsp, hb]
    split
    · exact h.setBsp .setUserFunc s.mpBootstrapState (hsize _ (by rw [hb]; rfl))
        (fun _ _ he => by cases he) (by simp) (fun hs => absurd hs hst)
        (fun a hr => absurd (h.released a hr) hst) _ _ _ _ _
    · exact h.setBsp .startApplication s.mpBootstrapState (hsize _ (by rw [hb]; rfl))
        (fun _ _ he => by cases he) (by simp) (fun _ => Or.inr (Or.inr rfl))
        (fun a hr => absurd (h.released a hr) hst) _ _ _ _ _
  | setUserFunc =>
    have hst := h.state_ne (by simp [hb]) (by simp [hb]) (by simp [hb])
    simp only [StartAp.stepBsp, hb]
    exact h.setBsp .setAnyData s.mpBootstrapState (hsize _ (by rw [hb]; rfl))
      (fun _ _ he => by cases he) (by simp) (fun hs => absurd hs hst)
      (fun a hr => absurd (h.released a hr) hst) _ _ _ _ _
  | setAnyData =>
    have hst := h.state_ne (by simp [hb]) (by simp [hb]) (by simp [hb])
    simp only [StartAp.stepBsp, hb]
    exact h.setBsp .setState s.mpBootstrapState (hsize _ (by rw [hb]; rfl))
      (fun _ _ he => by cases he) (by simp) (fun hs => absurd hs hst)
      (fun a hr => absurd (h.released a hr) hst) _ _ _ _ _
  | setState =>
    simp only [StartAp.stepBsp, hb]
    exact h.setBsp .waitReady .apsEnumerated (hsize _ (by rw [hb]; rfl))
      (fun _ _ he => by cases he) (by simp) (fun _ => Or.inl rfl) (fun _ _ => rfl) _ _ _ _ _
  | waitReady =>
    simp only [StartAp.stepBsp, hb]
    split
    · exact h
    · exact h.setBsp .runReturned s.mpBootstrapState (hsize _ (by rw [hb]; rfl))
        (fun _ _ he => by cases he) (by simp) (fun _ => Or.inr (Or.inl rfl))
        h.released _ _ _ _ _
  | runReturned =>
    simp only [StartAp.stepBsp, hb]
    exact h.setBsp .startApplication s.mpBootstrapState (hsize _ (by rw [hb]; rfl))
      (fun _ _ he => by cases he) (by simp) (fun _ => Or.inr (Or.inr rfl))
      h.released _ _ _ _ _
  | startApplication =>
    simp only [StartAp.stepBsp, hb]
    exact h

end Inv

theorem setAp_ap_of_ne {s : State} {a b : BitVec 8} {pc : ApPc} (h : b ≠ a) :
    (s.setAp a pc).ap b = s.ap b := by
  simp [State.setAp, Function.update_of_ne h]

@[simp] theorem setAp_ap_self {s : State} {a : BitVec 8} {pc : ApPc} :
    (s.setAp a pc).ap a = pc := by
  simp [State.setAp]

/-- A processor that moves on after its report is still one that has reported. -/
theorem reported_setAp {s : State} {a b : BitVec 8} {pc : ApPc} (ha : s.Reported a)
    (hpc : pc ≠ .waitSipi) : (s.setAp a pc).Reported b ↔ s.Reported b := by
  by_cases hab : b = a
  · subst hab
    simp only [State.Reported, setAp_ap_self]
    exact ⟨fun _ => ha, fun _ => hpc⟩
  · simp [State.Reported, setAp_ap_of_ne hab]

namespace Inv
variable {cfg : Config} {s : State}

theorem setAp (h : Inv cfg s) {a : BitVec 8} (ha : s.Reported a) (pc : ApPc)
    (hpc : pc ≠ .waitSipi)
    (hrel : pc.Released → s.mpBootstrapState = .apsEnumerated)
    (hord : ∀ e, pc.ecx? = some e → e = (s.apPresenceArray a.toNat).setWidth 32)
    (hstack : ∀ p, pc.esp? = some p → ∃ e, pc.ecx? = some e ∧ p = loadEsp cfg e)
    (r : BitVec 32) : Inv cfg { s.setAp a pc with gReadyCounter := r } where
  slot b hb hr := by
    obtain ⟨h1, h2⟩ := h.slot b hb ((reported_setAp ha hpc).mp hr)
    have hc : s.count cfg (b.toNat + 1) =
        State.count cfg { s.setAp a pc with gReadyCounter := r } (b.toNat + 1) :=
      count_congr fun c _ _ => (reported_setAp ha hpc).symm
    refine ⟨h1, h2.trans ?_⟩
    rw [hc]
    rfl
  empty j hj := h.empty j fun b hb hr => hj b hb ((reported_setAp ha hpc).mpr hr)
  apNum i n hb := by
    obtain ⟨h1, hn⟩ := h.apNum i n hb
    exact ⟨h1, hn.trans (count_congr fun c _ _ => (reported_setAp ha hpc).symm)⟩
  quiet hb := absurd ha ((h.quiet hb).2 a)
  state := h.state
  released b hb := by
    by_cases hba : b = a
    · subst hba
      exact hrel (by simpa using hb)
    · exact h.released b (by simpa [setAp_ap_of_ne hba] using hb)
  ordered b e he := by
    by_cases hba : b = a
    · subst hba
      exact hord e (by simpa using he)
    · exact h.ordered b e (by simpa [setAp_ap_of_ne hba] using he)
  stack b p hp := by
    by_cases hba : b = a
    · subst hba
      simpa using hstack p (by simpa using hp)
    · simpa [setAp_ap_of_ne hba] using h.stack b p (by simpa [setAp_ap_of_ne hba] using hp)
  member b hb := h.member b ((reported_setAp ha hpc).mp hb)

/-- The report itself: its slot must still be ahead of the cursor. -/
theorem report (h : Inv cfg s) {a : BitVec 8} (ha : a ∈ cfg.aps) (hw : s.ap a = .waitSipi)
    (hsipi : s.sipiSent = true) (hcur : s.bsp.cursor cfg.size ≤ a.toNat) :
    Inv cfg { s.setAp a .waitLock1 with
      apPresenceArray := Function.update s.apPresenceArray a.toNat 1 } := by
  let t : State := { s.setAp a .waitLock1 with
    apPresenceArray := Function.update s.apPresenceArray a.toNat 1 }
  have hrep : ∀ b, b ≠ a → (t.Reported b ↔ s.Reported b) := fun b hb => by
    simp only [State.Reported]
    exact not_congr (by rw [show t.ap b = s.ap b from setAp_ap_of_ne hb])
  have hcount : ∀ n, n ≤ a.toNat → t.count cfg n = s.count cfg n := fun n hn =>
    count_congr fun b _ hlt => hrep b (by rintro rfl; omega)
  have hself : t.ap a = .waitLock1 := setAp_ap_self
  have hone := h.one_le_cursor ha
  have hne : ∀ {b : BitVec 8}, b ≠ a → b.toNat ≠ a.toNat :=
    fun hb he => hb (BitVec.eq_of_toNat_eq he)
  show Inv cfg t
  refine ⟨?_, ?_, ?_, ?_, h.state, ?_, ?_, ?_, ?_⟩
  · intro b hb hr
    by_cases hba : b = a
    · subst hba
      refine ⟨by omega, ?_⟩
      rw [if_neg (show ¬ b.toNat < t.bsp.cursor cfg.size from Nat.not_lt.mpr hcur)]
      simp [t]
    · obtain ⟨h1, h2⟩ := h.slot b hb ((hrep b hba).mp hr)
      refine ⟨h1, ?_⟩
      rw [show t.apPresenceArray b.toNat = s.apPresenceArray b.toNat from
        Function.update_of_ne (hne hba) _ _, h2]
      by_cases hlt : b.toNat < s.bsp.cursor cfg.size
      · rw [if_pos hlt, if_pos (show b.toNat < t.bsp.cursor cfg.size from hlt),
          hcount _ (by omega)]
      · rw [if_neg hlt, if_neg (show ¬ b.toNat < t.bsp.cursor cfg.size from hlt)]
  · intro j hj
    have hja : j ≠ a.toNat := fun he => hj a ha (by simp [State.Reported, hself]) he.symm
    rw [show t.apPresenceArray j = s.apPresenceArray j from Function.update_of_ne hja _ _]
    refine h.empty j fun b hb hr => ?_
    by_cases hba : b = a
    · subst hba; exact absurd hw hr
    · exact hj b hb ((hrep b hba).mpr hr)
  · intro i n hb
    obtain ⟨h1, hn⟩ := h.apNum i n hb
    refine ⟨h1, hn.trans (hcount i ?_).symm⟩
    have : s.bsp = .enumerate i n := hb
    rw [this] at hcur
    exact hcur
  · intro hb
    exact absurd hsipi (by simp [(h.quiet hb).1])
  · intro b hb
    by_cases hba : b = a
    · subst hba; rw [hself] at hb; exact hb.elim
    · rw [show t.ap b = s.ap b from setAp_ap_of_ne hba] at hb
      exact h.released b hb
  · intro b e he
    by_cases hba : b = a
    · subst hba; rw [hself] at he; cases he
    · rw [show t.ap b = s.ap b from setAp_ap_of_ne hba] at he
      rw [show t.apPresenceArray b.toNat = s.apPresenceArray b.toNat from
        Function.update_of_ne (hne hba) _ _]
      exact h.ordered b e he
  · intro b p hp
    by_cases hba : b = a
    · subst hba; rw [hself] at hp; cases hp
    · rw [show t.ap b = s.ap b from setAp_ap_of_ne hba] at hp ⊢
      exact h.stack b p hp
  · intro b hb
    by_cases hba : b = a
    · exact hba ▸ ha
    · exact h.member b ((hrep b hba).mp hb)

theorem ordered_of (h : Inv cfg s) {a : BitVec 8} {pc : ApPc} (hp : s.ap a = pc) {e : BitVec 32}
    (he : pc.ecx? = some e) : e = (s.apPresenceArray a.toNat).setWidth 32 := by
  subst hp; exact h.ordered a e he

theorem stack_of (h : Inv cfg s) {a : BitVec 8} {pc : ApPc} (hp : s.ap a = pc) {p : BitVec 32}
    (he : pc.esp? = some p) : ∃ e, pc.ecx? = some e ∧ p = loadEsp cfg e := by
  subst hp; exact h.stack a p he

theorem stepAp (h : Inv cfg s) {a : BitVec 8} (ha : a ∈ cfg.aps)
    (hg : s.ap a = .waitSipi → s.sipiSent = true → s.bsp.cursor cfg.size ≤ a.toNat) :
    Inv cfg (StartAp.stepAp cfg s a) := by
  have hrep : s.ap a ≠ .waitSipi → s.Reported a := id
  cases hp : s.ap a with
  | waitSipi =>
    simp only [StartAp.stepAp, hp]
    split
    next hs => exact h.report ha hp hs (hg hp hs)
    next => exact h
  | waitLock1 =>
    simp only [StartAp.stepAp, hp]
    split
    next hs =>
      exact h.setAp (hrep (by simp [hp])) .stage2 (by simp) (fun _ => hs) (fun e he => by cases he)
        (fun p he => by cases he) s.gReadyCounter
    next => exact h
  | stage2 =>
    have hs := h.released a (by rw [hp]; trivial)
    simp only [StartAp.stepAp, hp]
    refine h.setAp (hrep (by simp [hp])) _ (by simp) (fun _ => hs) (fun e he => ?_)
      (fun p he => by cases he) s.gReadyCounter
    cases he
    rfl
  | ordered ecx =>
    have hs := h.released a (by rw [hp]; trivial)
    simp only [StartAp.stepAp, hp]
    refine h.setAp (hrep (by simp [hp])) (.entered ecx (loadEsp cfg ecx)) (by simp) (fun _ => hs)
      (fun e he => h.ordered_of hp he) (fun p he => ?_) s.gReadyCounter
    cases he
    exact ⟨ecx, rfl, rfl⟩
  | entered ecx esp =>
    have hs := h.released a (by rw [hp]; trivial)
    simp only [StartAp.stepAp, hp]
    exact h.setAp (hrep (by simp [hp])) (.ready ecx esp) (by simp) (fun _ => hs)
      (fun e he => h.ordered_of hp he)
      (fun p he => h.stack_of hp he) _
  | ready ecx esp =>
    have hs := h.released a (by rw [hp]; trivial)
    simp only [StartAp.stepAp, hp]
    exact h.setAp (hrep (by simp [hp])) (.pushed ecx esp s.gAnyDataForUserFunc) (by simp) (fun _ => hs)
      (fun e he => h.ordered_of hp he)
      (fun p he => h.stack_of hp he) s.gReadyCounter
  | pushed ecx esp d =>
    have hs := h.released a (by rw [hp]; trivial)
    simp only [StartAp.stepAp, hp]
    exact h.setAp (hrep (by simp [hp])) (.user ecx esp s.gUserFunc d) (by simp) (fun _ => hs)
      (fun e he => h.ordered_of hp he)
      (fun p he => h.stack_of hp he) s.gReadyCounter
  | user ecx esp f d =>
    simp only [StartAp.stepAp, hp]
    exact h

end Inv

/-- A report comes in time when its slot is still ahead of the enumeration. Slot 0 never is. -/
def InTime (cfg : Config) (s : State) : Actor → Prop
  | .bsp => True
  | .ap a => s.ap a = .waitSipi → s.sipiSent = true → s.bsp.cursor cfg.size ≤ a.toNat

instance (cfg : Config) (s : State) : (c : Actor) → Decidable (InTime cfg s c)
  | .bsp => isTrue trivial
  | .ap a => inferInstanceAs (Decidable (s.ap a = .waitSipi → s.sipiSent = true →
      s.bsp.cursor cfg.size ≤ a.toNat))

theorem Inv.step {cfg : Config} {s : State} (h : Inv cfg s) {c : Actor} (hc : InTime cfg s c) :
    Inv cfg (step cfg s c) := by
  cases c with
  | bsp => exact h.stepBsp
  | ap a =>
    by_cases ha : a ∈ cfg.aps
    · simpa only [StartAp.step, if_pos ha] using h.stepAp ha hc
    · simpa only [StartAp.step, if_neg ha] using h

theorem inv_run {cfg : Config} {sched : List Actor}
    (h : Schedule.Admits (step cfg) (InTime cfg) initial sched) :
    Inv cfg (Schedule.run (step cfg) initial sched) :=
  Schedule.run_invariant (Inv cfg) (fun _ _ hi hc => hi.step hc) (inv_initial cfg) h

/-- Once released, the ordinal of a processor is its rank among those that have reported. -/
theorem Inv.ordinal_eq {cfg : Config} {s : State} (h : Inv cfg s) {a : BitVec 8} {e : BitVec 32}
    (he : (s.ap a).ecx? = some e) : e.toNat = s.count cfg (a.toNat + 1) := by
  have hrel := ApPc.released_of_ecx he
  have hr : s.Reported a := fun hw => by rw [hw] at hrel; exact hrel
  have ha := h.member a hr
  have hsize := cfg.below_size a ha
  obtain ⟨_, hslot⟩ := h.slot a ha hr
  have hcur : s.bsp.cursor cfg.size = cfg.size := by
    rcases h.state (h.released a hrel) with hb | hb | hb <;> simp [hb, BspPc.cursor]
  rw [h.ordered a e he, BitVec.toNat_setWidth_of_le (by omega), hslot, hcur, if_pos hsize]

theorem count_lt_count {cfg : Config} {s : State} {a b : BitVec 8} (hb : b ∈ cfg.aps)
    (hr : s.Reported b) (hlt : a.toNat < b.toNat) :
    s.count cfg (a.toNat + 1) < s.count cfg (b.toNat + 1) := by
  have hm := count_mono cfg s (show a.toNat + 1 ≤ b.toNat from hlt)
  rw [count_succ_of_reported hb hr]
  omega

theorem Inv.ordinal_ne {cfg : Config} {s : State} (h : Inv cfg s) {a b : BitVec 8}
    {e e' : BitVec 32} (hab : a ≠ b) (he : (s.ap a).ecx? = some e)
    (he' : (s.ap b).ecx? = some e') : e ≠ e' := by
  have hrep : ∀ {c : BitVec 8} {x : BitVec 32}, (s.ap c).ecx? = some x → s.Reported c :=
    fun hx hw => by rw [hw] at hx; cases hx
  rintro rfl
  have heq := (h.ordinal_eq he).symm.trans (h.ordinal_eq he')
  have hne : a.toNat ≠ b.toNat := fun hn => hab (BitVec.eq_of_toNat_eq hn)
  rcases Nat.lt_or_gt_of_ne hne with hlt | hgt
  · have := count_lt_count (h.member b (hrep he')) (hrep he') hlt
    omega
  · have := count_lt_count (h.member a (hrep he)) (hrep he) hgt
    omega

/-- No two processors are in the user function with one ordinal. -/
def State.DistinctOrdinals (s : State) : Prop :=
  ∀ a b e p f d e' p' f' d', a ≠ b → s.ap a = .user e p f d → s.ap b = .user e' p' f' d' → e ≠ e'

/-- Processors that report in time enter the user function with ordinals of their own. -/
theorem distinctOrdinals_of_inTime (cfg : Config) (sched : List Actor)
    (h : Schedule.Admits (step cfg) (InTime cfg) initial sched) :
    (Schedule.run (step cfg) initial sched).DistinctOrdinals := by
  intro a b e p f d e' p' f' d' hab ha hb
  exact (inv_run h).ordinal_ne hab (by rw [ha]; rfl) (by rw [hb]; rfl)

/-- Two processors with APIC ids 1 and 2 and an array of four slots. -/
def twoAps : Config where
  size := 4
  aps := {1, 2}
  below_size := by decide
  init32 := some { i32LowMemoryPage := 0x8000, i32NumOfAps := 2, i32Pad := 0,
                   i32Esp := fun n => if n = 0 then 0x103000 else if n = 1 then 0x105000 else 0 }
  continueApBootFunc := 0x200000
  anyData := 0x300000

/-- Up to the end of `mp_set_bootstrap_state`, after the reports of `early`. -/
def enumerateAfter (early : List Actor) : List Actor :=
  [.bsp] ++ early ++ [.bsp, .bsp, .bsp, .bsp, .bsp, .bsp, .bsp, .bsp, .bsp, .bsp]

/-- From the report on to the user function. -/
def boot (a : BitVec 8) : List Actor := List.replicate 7 (.ap a)

theorem distinctOrdinals_twoAps :
    (Schedule.run (step twoAps) initial
        (enumerateAfter [.ap 2, .ap 1] ++ boot 1 ++ boot 2)).DistinctOrdinals ∧
      (Schedule.run (step twoAps) initial
        (enumerateAfter [.ap 2, .ap 1] ++ boot 1 ++ boot 2)).ap 2 =
          .user 2 0x105000 0x200000 0x300000 :=
  ⟨distinctOrdinals_of_inTime twoAps _ (by decide +kernel), by decide +kernel⟩

/-- A processor that reports after its slot was passed keeps the flag 1 as its ordinal and
takes the stack of the processor numbered 1. -/
theorem late_report_not_distinctOrdinals :
    (Schedule.run (step twoAps) initial (enumerateAfter [.ap 1] ++ boot 1 ++ boot 2)).ap 1 =
        .user 1 0x103000 0x200000 0x300000 ∧
      (Schedule.run (step twoAps) initial (enumerateAfter [.ap 1] ++ boot 1 ++ boot 2)).ap 2 =
        .user 1 0x103000 0x200000 0x300000 ∧
      ¬ ∀ (cfg : Config) (sched : List Actor),
        (Schedule.run (step cfg) initial sched).DistinctOrdinals := by
  have h1 : (Schedule.run (step twoAps) initial (enumerateAfter [.ap 1] ++ boot 1 ++ boot 2)).ap 1 =
      .user 1 0x103000 0x200000 0x300000 := by decide +kernel
  have h2 : (Schedule.run (step twoAps) initial (enumerateAfter [.ap 1] ++ boot 1 ++ boot 2)).ap 2 =
      .user 1 0x103000 0x200000 0x300000 := by decide +kernel
  refine ⟨h1, h2, fun hd => ?_⟩
  exact hd twoAps _ 1 2 _ _ _ _ _ _ _ _ (by decide) h1 h2 rfl

end IkgtLoader.StartAp
