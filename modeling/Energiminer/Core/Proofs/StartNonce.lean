import Energiminer.Core.StartNonce

/-!
# Disjoint ranges

The ranges of the miners are disjoint if the static range of `getStartNonce` is the one for the number
of miners there are, and no two miners have the same index. The indices begin at zero for every engine,
and a miner may set the range while others are not created yet, or for a farm that was stopped since.
-/

namespace Energiminer.Core.StartNonce
open Misc Machine

/-! ## Arithmetic -/

/-- Blocks of the length `r` at different places below `n` do not meet, also modulo `2 ^ 64`. -/
theorem apart_of_ne {n i j : Nat} (hi : i < n) (hj : j < n) (hij : i ≠ j) (w : BitVec 64) :
    Apart ((2 ^ 64 - 1) / n) (w + rangeOf n * BitVec.ofNat 64 i)
      (w + rangeOf n * BitVec.ofNat 64 j) := by
  intro x y hx hy heq
  obtain ⟨r, hr⟩ : ∃ r, r = (2 ^ 64 - 1) / n := ⟨_, rfl⟩
  have htotal : r * n ≤ 2 ^ 64 - 1 := by
    rw [hr]
    exact Nat.div_mul_le_self _ _
  rw [← hr] at hx hy
  have hbelow (k z : Nat) (hk : k < n) (hz : z < r) : r * k + z < 2 ^ 64 := by
    have := Nat.mul_le_mul_left r (Nat.succ_le_of_lt hk)
    rw [Nat.mul_succ] at this
    omega
  have hword (k z : Nat) : w + rangeOf n * BitVec.ofNat 64 k + BitVec.ofNat 64 z =
      w + BitVec.ofNat 64 (r * k + z) := by
    rw [rangeOf, ← hr, BitVec.ofNat_add, BitVec.ofNat_mul, BitVec.add_assoc]
  rw [hword, hword, BitVec.add_right_inj] at heq
  have hnat := congrArg BitVec.toNat heq
  rw [BitVec.toNat_ofNat, BitVec.toNat_ofNat, Nat.mod_eq_of_lt (hbelow i x hi hx),
    Nat.mod_eq_of_lt (hbelow j y hj hy)] at hnat
  have hdiv (k z : Nat) (hz : z < r) : (r * k + z) / r = k := by
    rw [Nat.mul_add_div (by omega), Nat.div_eq_of_lt hz, Nat.add_zero]
  apply hij
  rw [← hdiv i x hx, hnat, hdiv j y hy]

theorem index_lt_of_mem_farm {hw : Hardware} {engines : List EnumMinerEngine}
    {miner : EnumMinerEngine × Nat} (h : miner ∈ hw.farm engines) :
    miner.2 < (hw.farm engines).length := by
  obtain ⟨engine, hengine, hmem⟩ := List.mem_flatMap.mp h
  obtain ⟨i, hi, rfl⟩ := List.mem_map.mp hmem
  have hle : hw.count engine ≤ (hw.farm engines).length := by
    rw [Hardware.farm, List.length_flatMap]
    refine List.le_sum_of_mem (List.mem_map.mpr ⟨engine, hengine, ?_⟩)
    rw [List.length_map, List.length_range]
  exact Nat.lt_of_lt_of_le (List.mem_range.mp hi) hle

/-! ## Runs -/

/-- The range is right for the farm: a start creates miners with different indices, as many as the
range was set for, and the range is set when all miners of a start are there. -/
def Steady (s : State) : Event → Prop
  | .start engines hw => s.isMining = false → hw.farm engines ≠ [] →
    ((hw.farm engines).map Prod.snd).Nodup ∧
      (s.range = none ∨ s.range = some (rangeOf (hw.farm engines).length))
  | .call _ _ => s.range = none → s.pending = []
  | .create | .started | .stop => True

instance (s : State) : (e : Event) → Decidable (Steady s e)
  | .start .. => inferInstanceAs (Decidable (_ → _ → _ ∧ (_ ∨ _)))
  | .call .. => inferInstanceAs (Decidable (_ → _))
  | .create | .started | .stop => .isTrue trivial

/-- The miners have different indices below their number. -/
structure Indexed (miners : List (EnumMinerEngine × Nat)) : Prop where
  nodup : (miners.map Prod.snd).Nodup
  lt : ∀ miner ∈ miners, miner.2 < miners.length

/-- What holds in runs in which the range is right. -/
structure Invariant (s : State) : Prop where
  indexed : Indexed s.all
  range : ∀ range ∈ s.range, s.all ≠ [] → range = rangeOf s.all.length
  uses : ∀ u ∈ s.uses, ∃ miner range, s.miners[u.miner]? = some miner ∧ s.range = some range ∧
    u.first = u.startNonce + range * BitVec.ofNat 64 miner.2
  idle : s.starting = false → s.pending = []
  empty : s.starting = false → s.isMining = false → s.miners = []
  exclusive : s.isMining = true → s.starting = false

variable {s t : State}

theorem indexed_nil : Indexed [] := ⟨List.nodup_nil, nofun⟩

theorem Invariant.uses_eq_nil (h : Invariant s) (hminers : s.miners = []) : s.uses = [] := by
  rw [List.eq_nil_iff_forall_not_mem]
  intro u hu
  obtain ⟨miner, range, hminer, _⟩ := h.uses u hu
  rw [hminers] at hminer
  cases hminer

theorem invariant_start {engines : List EnumMinerEngine} {hw : Hardware} (h : Invariant s)
    (hC : Steady s (.start engines hw)) (hstep : step s (.start engines hw) = some (.ok t)) :
    Invariant t := by
  rw [step] at hstep
  split at hstep
  next => cases hstep
  next hidle =>
    split at hstep
    next =>
      cases hstep
      exact h
    next hmining =>
      cases hstep
      rw [Bool.not_eq_true] at hidle hmining
      have hminers := h.empty hidle hmining
      have huses := h.uses_eq_nil hminers
      have hall : ({ s with pending := hw.farm engines, starting := true } : State).all =
          hw.farm engines := by
        rw [State.all, hminers, List.nil_append]
      refine ⟨?_, fun range hrange hne => ?_, ?_, nofun, nofun, fun hm => ?_⟩
      · rw [hall]
        by_cases hfarm : hw.farm engines = []
        · rw [hfarm]
          exact indexed_nil
        · exact ⟨(hC hmining hfarm).1, fun miner hm => index_lt_of_mem_farm hm⟩
      · rw [hall] at hne ⊢
        rcases (hC hmining hne).2 with hunset | hset
        · exact absurd (hunset.symm.trans hrange) nofun
        · exact Option.some.inj (hrange.symm.trans hset)
      · rw [huses]
        nofun
      · exact absurd (hmining.symm.trans hm) (by decide)

theorem invariant_create (h : Invariant s) (hstep : step s .create = some (.ok t)) :
    Invariant t := by
  rw [step] at hstep
  split at hstep
  next miner rest hstarting hpending =>
    cases hstep
    have hall : ({ s with miners := s.miners ++ [miner], pending := rest } : State).all = s.all := by
      rw [State.all, State.all, hpending, List.append_assoc, List.singleton_append]
    refine ⟨?_, ?_, fun u hu => ?_, fun hs => ?_, fun hs => ?_, h.exclusive⟩
    · rw [hall]
      exact h.indexed
    · rw [hall]
      exact h.range
    · obtain ⟨caller, range, hcaller, hrange, hfirst⟩ := h.uses u hu
      refine ⟨caller, range, ?_, hrange, hfirst⟩
      rw [List.getElem?_append_left (List.getElem?_eq_some_iff.mp hcaller).1]
      exact hcaller
    · exact absurd (hstarting.symm.trans hs) (by decide)
    · exact absurd (hstarting.symm.trans hs) (by decide)
  next => cases hstep

theorem invariant_started (h : Invariant s) (hstep : step s .started = some (.ok t)) :
    Invariant t := by
  rw [step] at hstep
  split at hstep
  next hstarting hpending =>
    cases hstep
    exact ⟨h.indexed, h.range, h.uses, fun _ => hpending, fun _ => nofun, fun _ => rfl⟩
  next => cases hstep

theorem invariant_stop (h : Invariant s) (hstep : step s .stop = some (.ok t)) : Invariant t := by
  rw [step] at hstep
  split at hstep
  next hmining =>
    cases hstep
    have hpending := h.idle (h.exclusive hmining)
    have hall : ({ s with miners := [], isMining := false, uses := [] } : State).all = [] := by
      rw [State.all, hpending, List.append_nil]
    refine ⟨?_, fun _ _ hne => absurd hall hne, nofun, fun _ => hpending, fun _ _ => rfl, nofun⟩
    rw [hall]
    exact indexed_nil
  next =>
    cases hstep
    exact h

theorem Invariant.staticRange_eq (h : Invariant s) (hfirst : s.range = none → s.pending = [])
    (hne : s.all ≠ []) : s.staticRange = rangeOf s.all.length := by
  rw [State.staticRange]
  cases hset : s.range with
  | none => rw [Option.getD_none, State.all, hfirst hset, List.append_nil]
  | some range => exact h.range range hset hne

theorem invariant_call {miner : Nat} {startNonce : BitVec 64} (h : Invariant s)
    (hC : Steady s (.call miner startNonce))
    (hstep : step s (.call miner startNonce) = some (.ok t)) : Invariant t := by
  rw [step] at hstep
  split at hstep
  next => cases hstep
  next engine index hminer =>
    cases hstep
    refine ⟨h.indexed, ?_, fun u hu => ?_, h.idle, h.empty, h.exclusive⟩
    · rintro range hrange hne
      cases Option.some.inj hrange
      exact h.staticRange_eq hC hne
    · rcases List.mem_cons.mp hu with rfl | hold
      · exact ⟨(engine, index), s.staticRange, hminer, rfl, rfl⟩
      · obtain ⟨caller, range, hcaller, hrange, hfirst⟩ := h.uses u hold
        refine ⟨caller, s.staticRange, hcaller, rfl, ?_⟩
        rw [hfirst, State.staticRange, hrange, Option.getD_some]

theorem invariant_of_reachable (h : system.Reachable Steady s) : Invariant s := by
  refine h.invariant ?_ fun s e t hI hC hstep => ?_
  · rintro s rfl
    exact ⟨indexed_nil, nofun, nofun, fun _ => rfl, fun _ _ => rfl, nofun⟩
  · cases e with
    | start engines hw => exact invariant_start hI hC hstep
    | create => exact invariant_create hI hstep
    | started => exact invariant_started hI hstep
    | stop => exact invariant_stop hI hstep
    | call miner startNonce => exact invariant_call hI hC hstep

/-- If every start creates miners with different indices, the first call of `getStartNonce` is made
when all miners of a start are there, and later starts create as many, then the ranges that the miners
search for a work are disjoint. -/
theorem disjointRanges_of_steady {s : State} (h : system.Reachable Steady s) : s.DisjointRanges := by
  have hI := invariant_of_reachable h
  intro u hu v hv hne hwork
  obtain ⟨⟨engine, i⟩, range, hminer, hrange, hfirst⟩ := hI.uses u hu
  obtain ⟨⟨engine', j⟩, range', hminer', hrange', hfirst'⟩ := hI.uses v hv
  cases Option.some.inj (hrange.symm.trans hrange')
  have hi := List.mem_append_left s.pending (List.mem_of_getElem? hminer)
  have hj := List.mem_append_left s.pending (List.mem_of_getElem? hminer')
  have hij : i ≠ j := by
    intro heq
    apply hne
    -- the positions of equal indices are equal
    have hnodup : (s.miners.map Prod.snd).Nodup := by
      have hall := hI.indexed.nodup
      rw [State.all, List.map_append] at hall
      exact (List.nodup_append.mp hall).1
    refine (List.getElem?_inj ?_ hnodup).mp ?_
    · rw [List.length_map]
      exact (List.getElem?_eq_some_iff.mp hminer).1
    · rw [List.getElem?_map, List.getElem?_map, hminer, hminer', heq]
      rfl
  rw [hfirst, hfirst', hwork, hI.range range hrange (List.ne_nil_of_mem hi)]
  exact apart_of_ne (hI.indexed.lt _ hi) (hI.indexed.lt _ hj) hij _

/-! ## Two miners -/

/-- As many instances of each GPU engine, and no CPU miners. -/
def gpus (cl cuda : BitVec 32) : Hardware := ⟨cl, cuda, 1⟩

/-- Two CUDA miners search different nonces. -/
theorem disjointRanges_of_steady_cuda :
    ∃ s : State, s.uses.map Use.miner = [1, 0] ∧ s.DisjointRanges := by
  have hmeets : system.Meets Steady {}
      [.start [.kCUDA] (gpus 0 2), .create, .create, .call 0 0, .started, .call 1 0] := by
    decide +kernel
  obtain ⟨s, hsteps, hs⟩ := steps_of_endsIn
    (p := fun s : State => decide (s.uses.map Use.miner = [1, 0])) hmeets (by decide +kernel)
  exact ⟨s, of_decide_eq_true hs, disjointRanges_of_steady ⟨_, rfl, hsteps⟩⟩

/-- Two miners have called for the same work, and some nonce is in the intervals of both. -/
def Overlap (s : State) : Prop :=
  ∃ u ∈ s.uses, ∃ v ∈ s.uses, u.miner ≠ v.miner ∧ u.startNonce = v.startNonce ∧
    (v.first - u.first).toNat < (2 ^ 64 - 1) / s.all.length

instance (s : State) : Decidable (Overlap s) :=
  inferInstanceAs (Decidable (∃ u ∈ s.uses, ∃ v ∈ s.uses, _ ∧ _ ∧ _ < _))

theorem not_disjointRanges (h : Overlap s) : ¬ s.DisjointRanges := by
  intro hdisjoint
  obtain ⟨u, hu, v, hv, hne, hwork, hlt⟩ := h
  -- the first nonce of the one miner lies in the interval of the other
  apply hdisjoint u hu v hv hne hwork (v.first - u.first).toNat 0 hlt (by omega)
  rw [BitVec.ofNat_toNat, BitVec.setWidth_eq, BitVec.add_comm, BitVec.sub_add_cancel]
  exact (BitVec.add_zero _).symm

/-- An OpenCL miner and a CUDA miner both begin at the start nonce of the work. Of two CUDA miners, the
second begins right before the first if that calls before the second is created. -/
theorem overlapping_ranges :
    (∃ s, system.Reachable (fun _ _ => True) s ∧ s.miners = [(.kCL, 0), (.kCUDA, 0)] ∧
      ¬ s.DisjointRanges) ∧
    ∃ s, system.Reachable (fun _ _ => True) s ∧ s.miners = [(.kCUDA, 0), (.kCUDA, 1)] ∧
      ¬ s.DisjointRanges := by
  constructor
  · have hmeets : system.Meets (fun _ _ => True) {}
        [.start [.kCL, .kCUDA] (gpus 1 1), .create, .create, .started, .call 0 0, .call 1 0] :=
      meets_true ..
    obtain ⟨s, hsteps, hs⟩ := steps_of_endsIn
      (p := fun s : State => decide (s.miners = [(.kCL, 0), (.kCUDA, 0)] ∧ Overlap s)) hmeets
      (by decide +kernel)
    obtain ⟨hminers, hoverlap⟩ := of_decide_eq_true hs
    exact ⟨s, ⟨_, rfl, hsteps⟩, hminers, not_disjointRanges hoverlap⟩
  · have hmeets : system.Meets (fun _ _ => True) {}
        [.start [.kCUDA] (gpus 0 2), .create, .call 0 0, .create, .started, .call 1 0] :=
      meets_true ..
    obtain ⟨s, hsteps, hs⟩ := steps_of_endsIn
      (p := fun s : State => decide (s.miners = [(.kCUDA, 0), (.kCUDA, 1)] ∧ Overlap s)) hmeets
      (by decide +kernel)
    obtain ⟨hminers, hoverlap⟩ := of_decide_eq_true hs
    exact ⟨s, ⟨_, rfl, hsteps⟩, hminers, not_disjointRanges hoverlap⟩

end Energiminer.Core.StartNonce
