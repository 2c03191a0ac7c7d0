import Mathlib.Data.List.TakeWhile
import IkgtLoader.Flat.Record
import IkgtLoader.Ld.RelaEntries

/-! A loop of `do_relocation` over the entries of a table: what every round does with its entry
settles the status and the memory in the end. -/
namespace IkgtLoader.Ld
open Flat Loop

/-- The words that the entries store, with values from the memory before. -/
def relaWords (c : ElfClass) (mem : Memory 32) (symtab : BitVec 32) (r : ℕ)
    (entries : List RelaEntry) : List (Word 32) :=
  (entries.filter fun e => e.Writes).map fun e => ⟨e.target r, relocatedValue c mem symtab r e⟩

/-- The outcome of a round for entry `e`: an entry that is not accepted ends the loop, and of the
others those that write store their word and nothing else. -/
structure Performs (c : ElfClass) (m : Memory 32) (symtab : BitVec 32) (r : ℕ)
    (accepted : RelaEntry → Prop) (e : RelaEntry) (s : Loader) (o : Outcome Loader) : Prop where
  refused : ¬ accepted e → o = .quit s
  done : accepted e → ∃ t, o = .next t ∧ (¬ e.Writes → t.mem = s.mem) ∧
    (e.Writes → t.mem.load (e.target r) c.addrSize = relocatedValue c m symtab r e % 256 ^ c.addrSize ∧
      ∀ x, ¬ InSpan (e.target r) c.addrSize x → t.mem x = s.mem x)

section entries
variable {c : ElfClass} {m : Memory 32} {symtab : BitVec 32} {r i : ℕ} {entries : List RelaEntry}
  {accepted : RelaEntry → Prop} [DecidablePred accepted]

/-- The entries up to the first one that is not accepted. -/
theorem takeWhile_eq_take (hi : i < entries.length) (hbefore : ∀ e ∈ entries.take i, accepted e)
    (h : ¬ accepted entries[i]) : entries.takeWhile (fun e => accepted e) = entries.take i := by
  have hsplit : entries = entries.take i ++ entries[i] :: entries.drop (i + 1) := by
    rw [← List.drop_eq_getElem_cons hi, List.take_append_drop]
  conv_lhs => rw [hsplit]
  rw [List.takeWhile_append_of_pos fun e he => decide_eq_true (hbefore e he),
    List.takeWhile_cons, if_neg (by rwa [decide_eq_true_eq]), List.append_nil]

variable (entries) in
theorem relaWords_concat (e : RelaEntry) :
    relaWords c m symtab r (entries ++ [e]) = relaWords c m symtab r entries ++
      if e.Writes then [⟨e.target r, relocatedValue c m symtab r e⟩] else [] := by
  unfold relaWords
  rw [List.filter_append, List.map_append]
  by_cases he : e.Writes
  · rw [if_pos he, List.filter_cons, if_pos (decide_eq_true he)]
    rfl
  · rw [if_neg he, List.filter_cons, if_neg (by rwa [decide_eq_true_eq])]
    rfl

theorem mem_relaWords {e : RelaEntry} (he : e ∈ entries) (hw : e.Writes) :
    ⟨e.target r, relocatedValue c m symtab r e⟩ ∈ relaWords c m symtab r entries :=
  List.mem_map.mpr ⟨e, List.mem_filter.mpr ⟨he, decide_eq_true hw⟩, rfl⟩

/-- What holds of the target of every entry that writes holds of every word. -/
theorem forall_relaWords {P : BitVec 32 → Prop}
    (h : ∀ e ∈ entries, e.Writes → P (e.target r)) :
    ∀ f ∈ relaWords c m symtab r entries, P f.addr := by
  intro f hf
  obtain ⟨e, he, rfl⟩ := List.mem_map.mp hf
  obtain ⟨he, hw⟩ := List.mem_filter.mp he
  exact h e he (of_decide_eq_true hw)

/-- Bytes that no stored word reaches read as before. -/
theorem same_of_scattered {m' : Memory 32} {p : BitVec 32} {k : ℕ}
    (hk : k ≤ 2 ^ 32) (hs : Memory.Scattered c.addrSize (relaWords c m symtab r entries) m m')
    (hap : ∀ e ∈ entries, e.Writes → Apart (e.target r) c.addrSize p k) :
    Memory.Same m' p m p k := by
  apply Memory.Same.of_unchanged _ hk
  intro x hx
  apply hs.rest
  exact forall_relaWords (P := fun a => ¬ InSpan a c.addrSize x) fun e he hw hin =>
    hap e he hw x hin hx

end entries

/-- The words of the entries are stored, and all the entries are accepted. -/
structure Relocated (c : ElfClass) (m : Memory 32) (symtab : BitVec 32) (r : ℕ)
    (accepted : RelaEntry → Prop) (entries : List RelaEntry) (s : Loader) : Prop where
  accepted : ∀ e ∈ entries, accepted e
  stored : Memory.Scattered c.addrSize (relaWords c m symtab r entries) m s.mem

section loop
variable {c : ElfClass} {symtab : BitVec 32} {r i : ℕ} {entries : List RelaEntry} {s : Loader}
  {accepted : RelaEntry → Prop} {step : ℕ → Loader → Outcome Loader}

/-- One round goes on to the next entry, or ends at one that is not accepted. -/
theorem Relocated.round {m : Memory 32} (hi : i < entries.length)
    (hs : Relocated c m symtab r accepted (entries.take i) s)
    (hap : ∀ e ∈ entries.take i, e.Writes → entries[i].Writes →
      Apart (e.target r) c.addrSize (entries[i].target r) c.addrSize)
    {o : Outcome Loader} (ho : Performs c m symtab r accepted entries[i] s o) :
    o.All (Relocated c m symtab r accepted (entries.take (i + 1)))
      (fun t => Relocated c m symtab r accepted (entries.take i) t ∧ ¬ accepted entries[i])
      (fun _ => False) := by
  have hw : c.addrSize ≤ 2 ^ 32 := by cases c <;> decide
  by_cases hacc : accepted entries[i]
  · obtain ⟨t, rfl, hno, hyes⟩ := ho.done hacc
    rw [List.take_succ_eq_append_getElem hi]
    constructor
    · intro e he
      rcases List.mem_append.mp he with he | he
      · exact hs.accepted e he
      · rw [List.mem_singleton.mp he]
        exact hacc
    · rw [relaWords_concat]
      by_cases hwr : entries[i].Writes
      · obtain ⟨hload, hrest⟩ := hyes hwr
        rw [if_pos hwr]
        refine hs.stored.concat ?_ hw hload hrest
        exact forall_relaWords (P := fun a => Apart a c.addrSize _ c.addrSize) fun e he hew =>
          hap e he hew hwr
      · rw [if_neg hwr, List.append_nil, hno hwr]
        exact hs.stored
  · rw [ho.refused hacc]
    exact ⟨hs, hacc⟩

variable [DecidablePred accepted]

/-- The loop succeeds exactly if every entry is accepted, and it has stored the words of the
entries before the first one that is not. -/
theorem relocate_entries
    (hwords : entries.Pairwise fun e f => e.Writes → f.Writes →
      Apart (e.target r) c.addrSize (f.target r) c.addrSize)
    (hround : ∀ i, ∀ hi : i < entries.length, ∀ t : Loader,
      Memory.Scattered c.addrSize (relaWords c s.mem symtab r (entries.take i)) s.mem t.mem →
      Performs c s.mem symtab r accepted entries[i] t (step i t)) :
    ((relocate step entries.length s).2 =
      if ∀ e ∈ entries, accepted e then .monOk else .monError) ∧
    Memory.Scattered c.addrSize (relaWords c s.mem symtab r
      (entries.takeWhile fun e => accepted e)) s.mem (relocate step entries.length s).1.mem := by
  have hinit : Relocated c s.mem symtab r accepted (entries.take 0) s :=
    ⟨fun _ he => absurd he List.not_mem_nil, .nil _ _⟩
  have hall : (Loop.run (fun i _ => i < entries.length) step entries.length 0 s).All
      (fun t => ∃ j, 0 ≤ j ∧ (j ≤ entries.length ∧
        Relocated c s.mem symtab r accepted (entries.take j) t) ∧ ¬ j < entries.length)
      (fun t => ∃ j, ∃ hj : j < entries.length,
        Relocated c s.mem symtab r accepted (entries.take j) t ∧ ¬ accepted entries[j])
      (fun t => False ∨ ∃ j, j = 0 + entries.length ∧ (j ≤ entries.length ∧
        Relocated c s.mem symtab r accepted (entries.take j) t) ∧ j < entries.length) := by
    apply run_all (fun j t => j ≤ entries.length ∧
      Relocated c s.mem symtab r accepted (entries.take j) t) _ (fun _ => False) _
      ⟨Nat.zero_le _, hinit⟩
    intro j t hj ht
    have hpair := hwords.sublist (List.take_sublist (j + 1) entries)
    rw [List.take_succ_eq_append_getElem hj, List.pairwise_append] at hpair
    have hstep := ht.2.round hj (fun e he => hpair.2.2 e he _ (List.mem_singleton_self _))
      (hround j hj t ht.2.stored)
    exact hstep.mono (fun u hu => ⟨hj, hu⟩) (fun u hu => ⟨j, hj, hu⟩) fun u hu => hu
  unfold relocate
  cases hrun : Loop.run (fun i _ => i < entries.length) step entries.length 0 s with
  | next t =>
    rw [hrun] at hall
    obtain ⟨j, _, ⟨hle, ht⟩, hge⟩ := hall
    obtain rfl : j = entries.length := by omega
    rw [List.take_length] at ht
    rw [if_pos ht.accepted, List.takeWhile_eq_self_iff.mpr fun e he =>
      decide_eq_true (ht.accepted e he)]
    exact ⟨rfl, ht.stored⟩
  | quit t =>
    rw [hrun] at hall
    obtain ⟨j, hj, ht, hno⟩ := hall
    rw [if_neg fun hs => hno (hs _ (List.getElem_mem hj)), takeWhile_eq_take hj ht.accepted hno]
    exact ⟨rfl, ht.stored⟩
  | spent t =>
    rw [hrun] at hall
    rcases hall with hf | ⟨j, rfl, _, hlt⟩
    · exact hf.elim
    · omega

end loop

end IkgtLoader.Ld
