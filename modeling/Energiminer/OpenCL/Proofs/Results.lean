import Mathlib.Data.List.Perm.Subperm
import Energiminer.OpenCL.Results

/-!
# The results a host reads

`atomic_inc` gives every flagged item its own number, so the numbers are those below the count. An
item stores its id in the slot of its number, or in the last slot together with all later ones; the
count goes on.
-/

namespace Energiminer.OpenCL.Miner
open Misc

variable {size : BitVec 32} {flagged : Nat → Bool} {source : Execution} {r : SearchResults}
  {s t : Threads SearchResults Progress} {i j : Nat} {p q : Progress} {old : BitVec 32}

/-- The number that `atomic_inc` has given to an item. -/
def number (s : Threads SearchResults Progress) (i : Nat) : Option (BitVec 32) :=
  s.locals[i]?.bind Progress.old?

theorem number_set (hi : s.locals[i]? = some p) (q : Progress) (r : SearchResults) (j : Nat) :
    number ⟨r, s.locals.set i q⟩ j = if i = j then q.old? else number s j := by
  have hlt : i < s.locals.length := (List.getElem?_eq_some_iff.mp hi).1
  rw [number, number, List.getElem?_set, if_pos hlt]
  split
  next => rfl
  next => rfl

/-- The numbers of the items. -/
structure Numbered (size : BitVec 32) (flagged : Nat → Bool) (s : Threads SearchResults Progress) :
    Prop where
  length : s.locals.length = size.toNat
  count : s.shared.count.toNat = s.locals.countP (·.old?.isSome)
  lt : ∀ (i : Nat) (old : BitVec 32), number s i = some old → old.toNat < s.shared.count.toNat
  distinct : ∀ (i j : Nat) (old : BitVec 32), number s i = some old → number s j = some old → i = j
  /-- only flagged items have a number, and all flagged items get one -/
  asks : ∀ (i : Nat) (old : BitVec 32), number s i = some old → flagged i = true
  passes : ∀ i : Nat, s.locals[i]? = some .passed → flagged i = false

/-- A slot that was written holds the id of one of the items that have written it. -/
def Stored (s : Threads SearchResults Progress) : Prop :=
  ∀ (i : Nat) (old : BitVec 32), s.locals[i]? = some (.stored old) → ∃ j old',
    number s j = some old' ∧ slotOf old' = slotOf old ∧
      (s.shared.rslt (slotOf old)).gid = BitVec.ofNat 32 j

theorem numbered_initial (hcount : r.count = 0) :
    Numbered size flagged ⟨r, List.replicate size.toNat .hashed⟩ ∧
      Stored ⟨r, List.replicate size.toNat .hashed⟩ := by
  have hhashed {i : Nat} {p : Progress}
      (h : (List.replicate size.toNat Progress.hashed)[i]? = some p) : p = .hashed :=
    List.eq_of_mem_replicate (List.mem_of_getElem? h)
  have hnone (i : Nat) (old : BitVec 32) :
      number ⟨r, List.replicate size.toNat .hashed⟩ i ≠ some old := by
    intro h
    obtain ⟨p, hp, hold⟩ := Option.bind_eq_some_iff.mp h
    cases hhashed hp
    cases hold
  refine ⟨⟨List.length_replicate, ?_, fun i old h => absurd h (hnone i old),
    fun i _ old h => absurd h (hnone i old), fun i old h => absurd h (hnone i old), fun i h => ?_⟩,
    fun i old h => ?_⟩
  · rw [List.countP_replicate]
    exact congrArg BitVec.toNat hcount
  · cases hhashed h
  · cases hhashed h

theorem Numbered.keep (h : Numbered size flagged s) (hi : s.locals[i]? = some p) (r : SearchResults)
    (hcount : r.count = s.shared.count) (hold : q.old? = p.old?)
    (hpass : q = .passed → flagged i = false) : Numbered size flagged ⟨r, s.locals.set i q⟩ := by
  have hnumber (j : Nat) : number ⟨r, s.locals.set i q⟩ j = number s j := by
    rw [number_set hi]
    split
    next hij =>
      rw [number, ← hij, hi, Option.bind_some]
      exact hold
    next => rfl
  refine ⟨by rw [List.length_set, h.length], ?_, fun j old hj => ?_, fun j k old hj hk => ?_,
    fun j old hj => ?_, fun j hj => ?_⟩
  · have hset := @Threads.countP_set_add _ (·.old?.isSome) _ _ _ q hi
    rw [hold] at hset
    dsimp only
    rw [hcount, h.count]
    exact (Nat.add_right_cancel hset).symm
  · rw [hnumber] at hj
    dsimp only
    rw [hcount]
    exact h.lt j old hj
  · rw [hnumber] at hj hk
    exact h.distinct j k old hj hk
  · rw [hnumber] at hj
    exact h.asks j old hj
  · obtain ⟨rfl, hq⟩ | ⟨_, hj⟩ := Threads.getElem?_set_eq_some hj
    · exact hpass hq.symm
    · exact h.passes j hj

/-- There are fewer numbers than counts. -/
theorem Numbered.count_succ (h : Numbered size flagged s) (hi : s.locals[i]? = some .hashed) :
    (s.shared.count + 1).toNat = s.shared.count.toNat + 1 := by
  have hlt : s.locals.countP (·.old?.isSome) < s.locals.length := Threads.countP_lt_length hi rfl
  have hsize := size.isLt
  rw [BitVec.toNat_add, Nat.mod_eq_of_lt]
  · rfl
  · rw [h.count]
    rw [h.length] at hlt
    exact Nat.lt_of_le_of_lt hlt hsize

theorem Numbered.give (h : Numbered size flagged s) (hi : s.locals[i]? = some .hashed)
    (hflagged : flagged i = true) :
    Numbered size flagged ⟨s.shared.increment, s.locals.set i (.counted s.shared.count)⟩ := by
  have hsucc := h.count_succ hi
  have hnumber (j : Nat) (old : BitVec 32)
      (hj : number ⟨s.shared.increment, s.locals.set i (.counted s.shared.count)⟩ j = some old) :
      (i = j ∧ s.shared.count = old) ∨ number s j = some old := by
    rw [number_set hi] at hj
    split at hj
    next hij => exact .inl ⟨hij, Option.some.inj hj⟩
    next => exact .inr hj
  refine ⟨by rw [List.length_set, h.length], ?_, fun j old hj => ?_, fun j k old hj hk => ?_,
    fun j old hj => ?_, fun j hj => ?_⟩
  · have hset :=
      @Threads.countP_set_add _ (·.old?.isSome) _ _ _ (.counted s.shared.count) hi
    rw [SearchResults.increment]
    dsimp only
    rw [hsucc, h.count]
    exact hset.symm
  · rw [SearchResults.increment]
    dsimp only
    rw [hsucc]
    obtain ⟨_, rfl⟩ | hj := hnumber j old hj
    · exact Nat.lt_succ_self _
    · exact Nat.lt_succ_of_lt (h.lt j old hj)
  · obtain ⟨rfl, rfl⟩ | hj := hnumber j old hj
    · obtain ⟨rfl, _⟩ | hk := hnumber k _ hk
      · rfl
      · exact absurd (h.lt k _ hk) (Nat.lt_irrefl _)
    · obtain ⟨rfl, rfl⟩ | hk := hnumber k old hk
      · exact absurd (h.lt j _ hj) (Nat.lt_irrefl _)
      · exact h.distinct j k old hj hk
  · obtain ⟨rfl, _⟩ | hj := hnumber j old hj
    · exact hflagged
    · exact h.asks j old hj
  · obtain ⟨_, hq⟩ | ⟨_, hj⟩ := Threads.getElem?_set_eq_some hj
    · cases hq
    · exact h.passes j hj

theorem Stored.keep (h : Stored s) (hi : s.locals[i]? = some .hashed) (r : SearchResults)
    (hrslt : r.rslt = s.shared.rslt) (hq : ∀ old, q ≠ .stored old) :
    Stored ⟨r, s.locals.set i q⟩ := by
  intro j old hj
  obtain ⟨_, hq'⟩ | ⟨_, hj⟩ := Threads.getElem?_set_eq_some hj
  · exact absurd hq'.symm (hq old)
  · obtain ⟨k, old', hk, hslot, hgid⟩ := h j old hj
    refine ⟨k, old', ?_, hslot, ?_⟩
    · rw [number_set hi]
      split
      next hik =>
        rw [number, ← hik, hi] at hk
        cases hk
      next => exact hk
    · dsimp only
      rw [hrslt]
      exact hgid

theorem Stored.store (h : Stored s) (hi : s.locals[i]? = some (.counted old)) :
    Stored ⟨s.shared.store source old (BitVec.ofNat 32 i), s.locals.set i (.stored old)⟩ := by
  intro j old' hj
  by_cases hslot : slotOf old' = slotOf old
  · -- the slot was just written
    refine ⟨i, old, ?_, hslot.symm, ?_⟩
    · rw [number_set hi, if_pos rfl]
      rfl
    · rw [hslot, SearchResults.store]
      dsimp only
      rw [Function.update_self]
  · obtain ⟨_, hq⟩ | ⟨_, hj⟩ := Threads.getElem?_set_eq_some hj
    · cases hq
      exact absurd rfl hslot
    · obtain ⟨k, old'', hk, hslot', hgid⟩ := h j old' hj
      refine ⟨k, old'', ?_, hslot', ?_⟩
      · rw [number_set hi]
        split
        next hik =>
          rw [number, ← hik, hi] at hk
          exact hk
        next => exact hk
      · rw [SearchResults.store]
        dsimp only
        rw [Function.update_of_ne hslot]
        exact hgid

theorem numbered_step (h : Numbered size flagged s ∧ Stored s)
    (hstep : (reporting size flagged source r).step s (i, ()) = some (.ok t)) :
    Numbered size flagged t ∧ Stored t := by
  obtain ⟨p, r', q, hi, hact, rfl⟩ := Threads.system_step_eq_ok hstep
  obtain ⟨hnumbered, hstored⟩ := h
  cases p with
  | hashed =>
    rw [reportStep] at hact
    split at hact
    next hflagged =>
      cases hact
      exact ⟨hnumbered.give hi hflagged, hstored.keep hi _ rfl fun _ => nofun⟩
    next hflagged =>
      cases hact
      exact ⟨hnumbered.keep hi _ rfl rfl fun _ => Bool.eq_false_iff.mpr hflagged,
        hstored.keep hi _ rfl fun _ => nofun⟩
  | counted old =>
    cases hact
    exact ⟨hnumbered.keep hi _ rfl rfl fun h => (nomatch h), hstored.store hi⟩
  | stored | passed => cases hact

theorem numbered_of_reachable (hcount : r.count = 0)
    (h : (reporting size flagged source r).Reachable (fun _ _ => True) s) :
    Numbered size flagged s ∧ Stored s := by
  refine h.invariant (I := fun s => Numbered size flagged s ∧ Stored s) ?_ ?_
  · rintro s rfl
    exact numbered_initial hcount
  · rintro s ⟨i, ⟨⟩⟩ t hs _ hstep
    exact numbered_step hs hstep

/-! ## Items one after the other -/

/-! ## A launch that is complete -/

/-- The number of an item that has one. -/
def numberOf (s : Threads SearchResults Progress) (i : Nat) : Nat := ((number s i).getD 0).toNat

theorem Numbered.stored_of_flagged (h : Numbered size flagged s) (hcomplete : Complete s)
    (hj : j ∈ flaggedItems size flagged) : ∃ old, s.locals[j]? = some (.stored old) := by
  obtain ⟨hlt, hflagged⟩ := List.mem_filter.mp hj
  rw [List.mem_range, ← h.length] at hlt
  have hget := List.getElem?_eq_getElem hlt
  have hfinished := hcomplete _ (List.getElem_mem hlt)
  cases hp : s.locals[j] with
  | stored old => exact ⟨old, by rw [hget, hp]⟩
  | passed =>
    rw [hp] at hget
    exact absurd ((h.passes j hget).symm.trans hflagged) Bool.false_ne_true
  | hashed | counted =>
    rw [hp] at hfinished
    cases hfinished

theorem Numbered.count_eq (h : Numbered size flagged s) (hcomplete : Complete s) :
    s.shared.count.toNat = (flaggedItems size flagged).length := by
  have hlocals : s.locals = (List.finRange s.locals.length).map s.locals.get :=
    (List.map_get_finRange s.locals).symm
  have hitems : flaggedItems size flagged =
      ((List.finRange s.locals.length).map Fin.val).filter flagged := by
    rw [flaggedItems, List.map_coe_finRange_eq_range, h.length]
  rw [h.count, hitems, ← List.countP_eq_length_filter, List.countP_map]
  nth_rewrite 1 [hlocals]
  rw [List.countP_map]
  refine List.countP_congr fun i _ => ?_
  have hget : s.locals[i.val]? = some (s.locals.get i) := List.getElem?_eq_getElem i.isLt
  constructor
  · intro hold
    obtain ⟨old, hold⟩ := Option.isSome_iff_exists.mp hold
    exact h.asks i.val old (by rw [number, hget]; exact hold)
  · intro hflagged
    have hi : i.val ∈ flaggedItems size flagged :=
      List.mem_filter.mpr ⟨List.mem_range.mpr (h.length ▸ i.isLt), hflagged⟩
    obtain ⟨old, hold⟩ := h.stored_of_flagged hcomplete hi
    have hitem : s.locals.get i = .stored old := Option.some.inj (hget.symm.trans hold)
    dsimp only [Function.comp_apply]
    rw [hitem]
    rfl

theorem Numbered.perm_range (h : Numbered size flagged s) (hcomplete : Complete s) :
    ((flaggedItems size flagged).map (numberOf s)).Perm (List.range s.shared.count.toNat) := by
  have hnumber {j : Nat} (hj : j ∈ flaggedItems size flagged) :
      ∃ old, number s j = some old ∧ numberOf s j = old.toNat := by
    obtain ⟨old, hold⟩ := h.stored_of_flagged hcomplete hj
    have hnumber : number s j = some old := by
      rw [number, hold]
      rfl
    exact ⟨old, hnumber, by rw [numberOf, hnumber, Option.getD_some]⟩
  have hnodup : ((flaggedItems size flagged).map (numberOf s)).Nodup := by
    refine (List.nodup_range.filter _).map_on fun i hi j hj heq => ?_
    obtain ⟨old, hold, hi'⟩ := hnumber hi
    obtain ⟨old', hold', hj'⟩ := hnumber hj
    rw [hi', hj', BitVec.toNat_inj] at heq
    exact h.distinct i j old hold (heq ▸ hold')
  have hsubset : (flaggedItems size flagged).map (numberOf s) ⊆ List.range s.shared.count.toNat := by
    intro k hk
    obtain ⟨j, hj, rfl⟩ := List.mem_map.mp hk
    obtain ⟨old, hold, hj'⟩ := hnumber hj
    rw [List.mem_range, hj']
    exact h.lt j old hold
  refine (hnodup.subperm hsubset).perm_of_length_le ?_
  rw [List.length_range, List.length_map, h.count_eq hcomplete]

theorem slotOf_of_lt (h : old.toNat < maxSearchResults) : (slotOf old).val = old.toNat :=
  Nat.min_eq_right (Nat.le_pred_of_lt h)

/-- As long as the slots suffice, an item finds its id in the slot of its number. -/
theorem Numbered.entry (h : Numbered size flagged s) (hstored : Stored s) (hcomplete : Complete s)
    (hfit : (flaggedItems size flagged).length ≤ maxSearchResults)
    (hj : j ∈ flaggedItems size flagged) :
    s.shared.entry (BitVec.ofNat 32 (numberOf s j)) = some (BitVec.ofNat 32 j) := by
  obtain ⟨old, hold⟩ := h.stored_of_flagged hcomplete hj
  have hnumber : number s j = some old := by
    rw [number, hold]
    rfl
  have hslot {k : Nat} {old : BitVec 32} (hk : number s k = some old) :
      old.toNat < maxSearchResults := by
    refine Nat.lt_of_lt_of_le (h.lt k old hk) ?_
    rw [h.count_eq hcomplete]
    exact hfit
  obtain ⟨k, old', hk, hsame, hgid⟩ := hstored j old hold
  -- the slots below the last one are not shared, and the last one has one number
  have heq : old' = old := by
    have hval := congrArg Fin.val hsame
    rw [slotOf_of_lt (hslot hk), slotOf_of_lt (hslot hnumber)] at hval
    exact BitVec.eq_of_toNat_eq hval
  subst heq
  cases h.distinct k j old' hk hnumber
  have hword : BitVec.ofNat 32 (numberOf s j) = old' := by
    rw [numberOf, hnumber, Option.getD_some, BitVec.ofNat_toNat, BitVec.setWidth_eq]
  rw [hword, SearchResults.entry, dif_pos (hslot hnumber)]
  have hfin : (⟨old'.toNat, hslot hnumber⟩ : Fin maxSearchResults) = slotOf old' :=
    Fin.ext (slotOf_of_lt (hslot hnumber)).symm
  rw [hfin, hgid]

/-! ## The loop -/

/-- The loop runs up to the count, or until there is new work. -/
theorem loop_eq (r : SearchResults) (haveNewWork : Nat → Bool) :
    ∃ m ≤ r.count.toNat,
      r.loop haveNewWork = some ((List.range m).map (BitVec.ofNat 32), BitVec.ofNat 32 m) ∧
        (m < r.count.toNat → haveNewWork m = true) := by
  have hlt := r.count.isLt
  have hcond : ∀ k < r.count.toNat, decide (BitVec.ofNat 32 k < r.count) = true := by
    intro k hk
    rw [decide_eq_true_eq, BitVec.lt_def, BitVec.toNat_ofNat, Nat.mod_eq_of_lt (by omega)]
    exact hk
  have hnext : ∀ k < r.count.toNat,
      some (BitVec.ofNat 32 k + 1) = some (BitVec.ofNat 32 (k + 1)) := fun k _ =>
    congrArg some (BitVec.ofNat_add k 1).symm
  have hlast : decide (BitVec.ofNat 32 r.count.toNat < r.count) = false := by
    rw [decide_eq_false_iff_not, BitVec.lt_def, BitVec.toNat_ofNat, Nat.mod_eq_of_lt hlt]
    exact Nat.lt_irrefl _
  obtain ⟨m, hm, hloop, hstop⟩ := @forLoop_interrupted _ (fun i => decide (i < r.count))
    (fun i => some (i + 1)) haveNewWork (BitVec.ofNat 32) r.count.toNat hcond hnext hlast 0
  refine ⟨m, hm, hloop, fun h => ?_⟩
  rw [← Nat.zero_add m]
  exact hstop h

theorem loop_uninterrupted (r : SearchResults) :
    ∃ last, r.loop (fun _ => false) =
      some ((List.range r.count.toNat).map (BitVec.ofNat 32), last) := by
  obtain ⟨m, hm, hloop, hstop⟩ := loop_eq r fun _ => false
  have heq : m = r.count.toNat :=
    Nat.le_antisymm hm (Nat.not_lt.mp fun hlt => Bool.false_ne_true (hstop hlt))
  exact ⟨_, heq ▸ hloop⟩

/-- Exactly if the flagged items of a launch fit in the results, the host reads what they have
reported, whatever the order of their increments and stores. -/
theorem readsReports_iff {size : BitVec 32} {flagged : Nat → Bool} {source : Execution}
    {r : SearchResults} {s : Threads SearchResults Progress} (hcount : r.count = 0)
    (h : (reporting size flagged source r).Reachable (fun _ _ => True) s) (hcomplete : Complete s) :
    s.shared.ReadsReports (flaggedItems size flagged) ↔
      (flaggedItems size flagged).length ≤ maxSearchResults := by
  obtain ⟨hnumbered, hstored⟩ := numbered_of_reachable hcount h
  have hlength := hnumbered.count_eq hcomplete
  have hperm := hnumbered.perm_range hcomplete
  constructor
  · intro hreads
    by_contra hmany
    -- the index of the first result that does not fit is read
    obtain ⟨reads, last, hloop, hwithin⟩ := hreads.within fun _ => false
    obtain ⟨last', hall⟩ := loop_uninterrupted s.shared
    rw [hloop] at hall
    cases hall
    have hmem : BitVec.ofNat 32 maxSearchResults ∈
        (List.range s.shared.count.toNat).map (BitVec.ofNat 32) :=
      List.mem_map_of_mem (List.mem_range.mpr (by omega))
    exact absurd (hwithin _ hmem).1 (by decide)
  · intro hfit
    refine ⟨fun haveNewWork => ?_, fun _ => ?_⟩
    · obtain ⟨m, hm, hloop, _⟩ := loop_eq s.shared haveNewWork
      refine ⟨_, _, hloop, fun i hi => ?_⟩
      obtain ⟨k, hk, rfl⟩ := List.mem_map.mp hi
      have hbelow := Nat.lt_of_lt_of_le (List.mem_range.mp hk) hm
      obtain ⟨j, hj, rfl⟩ := List.mem_map.mp (hperm.mem_iff.mpr (List.mem_range.mpr hbelow))
      refine ⟨?_, j, hj, hnumbered.entry hstored hcomplete hfit hj⟩
      rw [BitVec.toNat_ofNat]
      exact Nat.lt_of_le_of_lt (Nat.mod_le _ _) (Nat.lt_of_lt_of_le hbelow (hlength ▸ hfit))
    · obtain ⟨last, hall⟩ := loop_uninterrupted s.shared
      refine ⟨_, last, hall, ?_⟩
      rw [List.map_map]
      refine (hperm.symm.map _).trans ?_
      rw [List.map_map]
      refine List.Perm.of_eq (List.map_congr_left fun j hj => ?_)
      exact hnumbered.entry hstored hcomplete hfit hj

/-- A launch for the examples below. -/
def blankExecution : Execution := (SearchResults.blank.rslt ⟨0, by decide⟩).source

/-- Two items of eight report, and the one that counts first stores last. -/
theorem readsReports_iff_two :
    ∃ s, ((reporting 8 (fun i => i == 2 || i == 5) blankExecution .blank).Reachable
        (fun _ _ => True) s ∧ Complete s) ∧
      (s.shared.ReadsReports (flaggedItems 8 fun i => i == 2 || i == 5) ↔
        (flaggedItems 8 fun i => i == 2 || i == 5).length ≤ maxSearchResults) := by
  obtain ⟨s, hsteps, hend⟩ := Machine.steps_of_endsIn
    (M := reporting 8 (fun i => i == 2 || i == 5) blankExecution .blank)
    (s := ⟨.blank, List.replicate 8 .hashed⟩)
    (p := fun s => s.locals.all Progress.finished)
    (l := [5, 2, 0, 2, 1, 5, 3, 4, 6, 7].map (·, ())) (Machine.meets_true _ _) (by decide)
  have hreachable : (reporting 8 (fun i => i == 2 || i == 5) blankExecution .blank).Reachable
      (fun _ _ => True) s := ⟨_, rfl, hsteps⟩
  have hcomplete : Complete s := List.all_eq_true.mp hend
  exact ⟨s, ⟨hreachable, hcomplete⟩, readsReports_iff rfl hreachable hcomplete⟩

/-- Sixteen items of a batch of 64 report: the count goes past the last slot, and the host reads a
result that does not exist. -/
theorem reads_past_results :
    ∃ s, (reporting 64 (fun i => decide (i < 16)) blankExecution .blank).Reachable
        (fun _ _ => True) s ∧ Complete s ∧
      (∃ reads last, s.shared.loop (fun _ => false) = some (reads, last) ∧ 15 ∈ reads) ∧
      s.shared.entry 15 = none ∧
      ¬ s.shared.ReadsReports (flaggedItems 64 fun i => decide (i < 16)) := by
  obtain ⟨s, hsteps, hend⟩ := Machine.steps_of_endsIn
    (M := reporting 64 (fun i => decide (i < 16)) blankExecution .blank)
    (s := ⟨.blank, List.replicate 64 .hashed⟩)
    (p := fun s => decide (s.shared.count = 16) && s.locals.all Progress.finished)
    (l := ((List.range 64) ++ (List.range 16)).map (·, ())) (Machine.meets_true _ _)
    (by decide +kernel)
  rw [Bool.and_eq_true, decide_eq_true_eq] at hend
  obtain ⟨last, hall⟩ := loop_uninterrupted s.shared
  rw [hend.1] at hall
  refine ⟨s, ⟨_, rfl, hsteps⟩, List.all_eq_true.mp hend.2, ⟨_, last, hall, by decide⟩, rfl, ?_⟩
  intro hreads
  obtain ⟨reads, last', hloop, hwithin⟩ := hreads.within fun _ => false
  rw [hall] at hloop
  cases hloop
  exact absurd (hwithin 15 (by decide)).1 (by decide)

end Energiminer.OpenCL.Miner
