import Mathlib.Algebra.Order.BigOperators.Group.List
import Mathlib.Data.BitVec
import Energiminer.Engines.HashCount
import Energiminer.Engines.Proofs.CpuMiner
import Energiminer.Misc.Meter

/-!
# The CPU miner counts hashes twice

Every report but one moves `lastNonce`: where a solution was found, the hashes since `lastNonce` are
reported, and then the same hashes again behind the loop (`CpuMiner.cpp:54`, `69`). All others are
reported once by the time the next work is fetched, also when the nonce wraps around.
-/

namespace Energiminer.Engines.CpuMiner
open Misc Primitives

namespace Counted
variable {config : Config} {c d : Counted} {e : Event}

/-! ## The miner below -/

theorem miner_evaluate (work : Work) :
    (c.evaluate config work).miner = c.miner.evaluate config work := by
  rw [evaluate]
  dsimp only
  split
  · rfl
  · split <;> rfl

/-! ## The books -/

/-- The nonce in the inner loop. Outside of it all hashes were reported. -/
def nonce (c : Counted) : BitVec 64 := (c.miner.point.work?.map (·.nNonce)).getD c.lastNonce

/-- The nonce, as a counter that is reported. -/
def meter (c : Counted) : Meter (BitVec 64) :=
  ⟨c.nonce, c.lastNonce, BitVec.ofNat 64 c.hashes, c.amounts.sum⟩

/-- What holds in every state: the amounts of the solutions were reported too much, and the last
report was at the last multiple of 10000 or later. -/
structure Booked (c : Counted) : Prop where
  surplus : c.meter.surplus = c.solved.sum
  recent : (c.meter.count - c.meter.mark).toNat ≤ c.meter.count.toNat % 10000
  solved : ∀ n ∈ c.solved, 1 ≤ n.toNat ∧ n.toNat ≤ 10000

theorem nonce_outside (h : c.miner.point.work? = none) : c.nonce = c.lastNonce := by
  rw [nonce, h]
  rfl

theorem nonce_inside {work : Work} (h : c.miner.point.work? = some work) :
    c.nonce = work.nNonce := by
  rw [nonce, h]
  rfl

/-- The books depend on the miner only through the work in the inner loop. -/
theorem booked_of_work (h : c.Booked) {miner : State}
    (hwork : miner.point.work? = c.miner.point.work?) : Booked { c with miner } := by
  have hmeter : meter { c with miner } = c.meter := by
    rw [meter, nonce, hwork]
    rfl
  refine ⟨?_, ?_, h.solved⟩
  · rw [hmeter]
    exact h.surplus
  · rw [hmeter]
    exact h.recent

theorem Booked.of_settled (hsettled : c.meter.count = c.meter.mark)
    (hsurplus : c.meter.surplus = c.solved.sum)
    (hsolved : ∀ n ∈ c.solved, 1 ≤ n.toNat ∧ n.toNat ≤ 10000) : c.Booked := by
  refine ⟨hsurplus, ?_, hsolved⟩
  rw [hsettled, sub_self]
  exact Nat.zero_le _

theorem booked_fetch (h : c.Booked) (hpoint : c.miner.point.work? = none) :
    (c.fetch config).Booked := by
  have hsettled : c.meter.count = c.meter.mark := nonce_outside hpoint
  rw [fetch]
  dsimp only
  split
  next hinvalid =>
    apply booked_of_work h
    rw [hpoint, State.fetch, if_pos hinvalid]
    rfl
  next hvalid =>
    have hmeter : meter { c with
        miner := c.miner.fetch config, lastNonce := config.getStartNonce } =
          c.meter.restart config.getStartNonce := by
      rw [meter, nonce, State.fetch, if_neg hvalid]
      rfl
    apply Booked.of_settled
    · rw [hmeter]
      rfl
    · rw [hmeter, Meter.surplus_restart hsettled]
      exact h.surplus
    · exact h.solved

/-! ## An iteration of the inner loop -/

theorem toNat_succ_sub {x last : BitVec 64} (h : (x - last).toNat ≤ x.toNat % 10000) :
    (x + 1 - last).toNat = (x - last).toNat + 1 := by
  have hlt := Nat.mod_lt x.toNat (show 10000 > 0 by decide)
  bv_omega

theorem recent_succ {x last : BitVec 64} (h : (x - last).toNat ≤ x.toNat % 10000)
    (hcheckpoint : ¬ (x + 1) % 10000 = 0) :
    (x + 1 - last).toNat ≤ (x + 1).toNat % 10000 := by
  have hne : (x + 1).toNat % 10000 ≠ 0 := fun hzero => hcheckpoint (BitVec.eq_of_toNat_eq hzero)
  -- zero is a multiple of 10000, so the nonce has not wrapped around
  have hsucc : (x + 1).toNat = x.toNat + 1 := by
    have hpos : (x + 1).toNat ≠ 0 := fun hzero => hne (by rw [hzero])
    bv_omega
  rw [toNat_succ_sub h, hsucc]
  rw [hsucc] at hne
  omega

section Iteration
variable {work : Work}

theorem evaluate_of_accepts
    (haccepts : cpuAccepts (config.getPOWHash work).1 work.hashTarget = true) :
    c.evaluate config work =
      { miner := c.miner.evaluate config work
        lastNonce := c.lastNonce
        hashes := c.hashes + 1
        amounts := (work.nNonce + 1 - c.lastNonce) :: (work.nNonce + 1 - c.lastNonce) :: c.amounts
        solved := (work.nNonce + 1 - c.lastNonce) :: c.solved } := by
  rw [evaluate]
  dsimp only
  rw [if_pos haccepts]
  rfl

theorem work_evaluate_of_accepts
    (haccepts : cpuAccepts (config.getPOWHash work).1 work.hashTarget = true) :
    (c.miner.evaluate config work).point.work? = none := by
  rw [State.evaluate]
  dsimp only
  rw [if_pos haccepts]
  rfl

theorem nonce_evaluate
    (hrejects : ¬ cpuAccepts (config.getPOWHash work).1 work.hashTarget = true) :
    (c.evaluate config work).nonce = work.nNonce + 1 := by
  have hwork : (c.evaluate config work).miner.point.work? = some
      { work with nNonce := work.nNonce + 1, hashMix := (config.getPOWHash work).2 } := by
    rw [miner_evaluate, State.evaluate]
    dsimp only
    rw [if_neg hrejects]
    rfl
  exact nonce_inside hwork

/-- A solution is reported twice. -/
theorem meter_evaluate_of_accepts (hpoint : c.miner.point.work? = some work)
    (haccepts : cpuAccepts (config.getPOWHash work).1 work.hashTarget = true) :
    (c.evaluate config work).meter = (c.meter.advance 1).announce.settle c.lastNonce := by
  rw [evaluate_of_accepts haccepts, meter, nonce_outside (work_evaluate_of_accepts haccepts), meter,
    nonce_inside hpoint, BitVec.ofNat_add, List.sum_cons, List.sum_cons]
  rfl

theorem meter_evaluate_of_checkpoint (hpoint : c.miner.point.work? = some work)
    (hrejects : ¬ cpuAccepts (config.getPOWHash work).1 work.hashTarget = true)
    (hcheckpoint : (work.nNonce + 1) % 10000 = 0) :
    (c.evaluate config work).meter = (c.meter.advance 1).report 0 := by
  rw [meter, nonce_evaluate hrejects, evaluate]
  dsimp only
  rw [if_neg hrejects, if_pos hcheckpoint, updateHashRate, List.sum_cons, BitVec.ofNat_add, meter,
    nonce_inside hpoint, Meter.report, add_zero]
  rfl

theorem meter_evaluate (hpoint : c.miner.point.work? = some work)
    (hrejects : ¬ cpuAccepts (config.getPOWHash work).1 work.hashTarget = true)
    (hcheckpoint : ¬ (work.nNonce + 1) % 10000 = 0) :
    (c.evaluate config work).meter = c.meter.advance 1 := by
  rw [meter, nonce_evaluate hrejects, evaluate]
  dsimp only
  rw [if_neg hrejects, if_neg hcheckpoint, BitVec.ofNat_add, meter, nonce_inside hpoint]
  rfl

theorem solved_evaluate_of_rejects
    (hrejects : ¬ cpuAccepts (config.getPOWHash work).1 work.hashTarget = true) :
    (c.evaluate config work).solved = c.solved := by
  rw [evaluate]
  dsimp only
  rw [if_neg hrejects]
  split <;> rfl

theorem booked_of_accepts (h : c.Booked) (hpoint : c.miner.point.work? = some work)
    (haccepts : cpuAccepts (config.getPOWHash work).1 work.hashTarget = true) :
    (c.evaluate config work).Booked := by
  have hcount : c.meter.count = work.nNonce := nonce_inside hpoint
  apply Booked.of_settled
  · rw [meter_evaluate_of_accepts hpoint haccepts]
    rfl
  · rw [meter_evaluate_of_accepts hpoint haccepts, Meter.surplus_settle, Meter.surplus_announce,
      Meter.surplus_advance, h.surplus, evaluate_of_accepts haccepts, List.sum_cons, add_comm,
      ← hcount]
    rfl
  · intro n hn
    rw [evaluate_of_accepts haccepts] at hn
    rcases List.mem_cons.mp hn with rfl | hn
    · have hrecent : (c.meter.count - c.lastNonce).toNat ≤ c.meter.count.toNat % 10000 := h.recent
      have hlt := Nat.mod_lt c.meter.count.toNat (show 10000 > 0 by decide)
      rw [← hcount, toNat_succ_sub hrecent]
      exact ⟨Nat.le_add_left 1 _, hrecent.trans_lt hlt⟩
    · exact h.solved n hn

theorem booked_of_rejects (h : c.Booked) (hpoint : c.miner.point.work? = some work)
    (hrejects : ¬ cpuAccepts (config.getPOWHash work).1 work.hashTarget = true) :
    (c.evaluate config work).Booked := by
  have hsolved := solved_evaluate_of_rejects (c := c) hrejects
  have hcount : c.meter.count = work.nNonce := nonce_inside hpoint
  by_cases hcheckpoint : (work.nNonce + 1) % 10000 = 0
  · have hmeter := meter_evaluate_of_checkpoint hpoint hrejects hcheckpoint
    apply Booked.of_settled
    · rw [hmeter]
      rfl
    · rw [hmeter, hsolved, Meter.surplus_report, Meter.surplus_advance, add_zero, h.surplus]
    · rw [hsolved]
      exact h.solved
  · have hmeter := meter_evaluate hpoint hrejects hcheckpoint
    refine ⟨?_, ?_, ?_⟩
    · rw [hmeter, hsolved, Meter.surplus_advance, h.surplus]
    · rw [hmeter]
      exact recent_succ h.recent (hcount ▸ hcheckpoint)
    · rw [hsolved]
      exact h.solved

theorem booked_evaluate (h : c.Booked) (hpoint : c.miner.point.work? = some work) :
    (c.evaluate config work).Booked := by
  by_cases haccepts : cpuAccepts (config.getPOWHash work).1 work.hashTarget = true
  · exact booked_of_accepts h hpoint haccepts
  · exact booked_of_rejects h hpoint haccepts

end Iteration

/-! ## Whole runs -/

theorem booked_end (h : c.Booked) {work : Work} (hpoint : c.miner.point = .searched work)
    (hends : ¬ (!c.miner.assignment.newWorkAssigned && !c.miner.shouldStop) = true) :
    (updateHashRate { c with miner := c.miner.trun config } (work.nNonce - c.lastNonce)).Booked := by
  have houtside : (c.miner.trun config).point.work? = none := by
    rw [State.trun, hpoint]
    dsimp only
    rw [if_neg hends]
    rfl
  have hmeter : (updateHashRate { c with miner := c.miner.trun config }
      (work.nNonce - c.lastNonce)).meter = c.meter.settle c.lastNonce := by
    have hnonce : c.nonce = work.nNonce := nonce_inside (by rw [hpoint]; rfl)
    rw [updateHashRate, meter, nonce_outside houtside, meter, hnonce, List.sum_cons]
    rfl
  apply Booked.of_settled
  · rw [hmeter]
    rfl
  · rw [hmeter, Meter.surplus_settle]
    exact h.surplus
  · exact h.solved

theorem booked_trun (h : c.Booked) : (c.trun config).Booked := by
  rw [trun]
  split
  next hpoint => exact booked_fetch h (by rw [hpoint]; rfl)
  next hpoint =>
    apply booked_of_work h
    rw [State.trun, hpoint]
    dsimp only
    split
    · rw [State.leave, hpoint]
    · rfl
  next work hpoint => exact booked_evaluate h (by rw [hpoint]; rfl)
  next work hpoint =>
    dsimp only
    split
    next hcontinues =>
      apply booked_of_work h
      rw [State.trun, hpoint]
      dsimp only
      rw [if_pos hcontinues]
      rfl
    next hends => exact booked_end h hpoint hends

/-- No other step moves the miner in `trun`, until `trun` is entered again. -/
theorem point_of_step {s t : State} (hout : ¬ s.inTrun e = true)
    (hstep : CpuMiner.step config s e = some t) :
    t.point = if t.worker.runs = s.worker.runs then s.point else .top := by
  unfold CpuMiner.step at hstep
  rw [if_neg hout] at hstep
  cases e with
  | order order =>
    cases hstep
    exact (if_pos rfl).symm
  | worker event =>
    obtain ⟨worker, _, rfl⟩ := Option.map_eq_some_iff.mp hstep
    rfl

theorem booked_entered {miner : State} (hpoint : miner.point = .top) : Booked { miner } := by
  have hnonce : nonce { miner } = 0 := nonce_outside (by rw [hpoint]; rfl)
  apply Booked.of_settled
  · exact hnonce
  · rw [meter, hnonce]
    simp [Meter.surplus]
  · intro n hn
    cases hn

theorem booked_step (h : c.Booked) (hstep : c.step config e = some d) : d.Booked := by
  rw [step] at hstep
  split at hstep
  next =>
    cases hstep
    exact booked_trun h
  next hout =>
    obtain ⟨miner, hminer, rfl⟩ := Option.map_eq_some_iff.mp hstep
    have hpoint := point_of_step hout hminer
    split
    next hruns =>
      apply booked_of_work h
      rw [hpoint, if_pos hruns]
    next hruns => exact booked_entered (hpoint.trans (if_neg hruns))

theorem booked_of_reachable (h : (system config).Reachable (fun _ _ => True) c) : c.Booked := by
  refine h.invariant ?_ ?_
  · rintro c rfl
    exact booked_entered rfl
  · rintro c e d hc - hstep
    exact booked_step hc (Machine.eq_some_of_map_ok hstep)

theorem accurate_iff_surplus (htop : c.miner.point = .top) :
    c.Accurate ↔ c.meter.surplus = 0 := by
  have hnonce : c.nonce = c.lastNonce := nonce_outside (by rw [htop]; rfl)
  rw [← c.meter.balanced_iff, meter, hnonce, sub_self, add_zero]
  rfl

/-- When the next work is fetched, every hash was counted once, and a second time if it was counted
together with a solution. -/
theorem accurate_iff_solved_sum {config : Config} {c : Counted}
    (h : (system config).Reachable (fun _ _ => True) c) (htop : c.miner.point = .top) :
    c.Accurate ↔ c.solved.sum = 0 := by
  rw [accurate_iff_surplus htop, (booked_of_reachable h).surplus]

/-- A miner that finds no solution, and starts at the last nonce. -/
def unluckyConfig : Config := ⟨fun _ => (⟨.replicate 32 0xff⟩, Uint256.null), 0xffffffffffffffff, 1⟩

/-- The nonce wraps around, a checkpoint is reported, and then the rest for new work. -/
theorem accurate_iff_solved_sum_wrap :
    ∃ c, ((system unluckyConfig).Reachable (fun _ _ => True) c ∧ c.miner.point = .top ∧
      c.hashes = 3 ∧ c.amounts = [2, 1]) ∧ (c.Accurate ↔ c.solved.sum = 0) := by
  obtain ⟨c, hsteps, hc⟩ := Machine.steps_of_endsIn (M := system unluckyConfig) (s := {})
    (p := fun c => decide (c.miner.point = .top ∧ c.hashes = 3 ∧ c.amounts = [2, 1]))
    (l := starting ++ [.worker .thread, .worker .thread, .worker .thread, .worker .thread,
      .worker .thread, .worker .thread, .order .resetWork, .worker .thread])
    (Machine.meets_true _ _) (by decide)
  have hreachable : (system unluckyConfig).Reachable (fun _ _ => True) c := ⟨_, rfl, hsteps⟩
  obtain ⟨htop, hcounts⟩ := of_decide_eq_true hc
  exact ⟨c, ⟨hreachable, htop, hcounts⟩, accurate_iff_solved_sum hreachable htop⟩

/-- The first nonce is a solution: one hash is counted twice. -/
theorem solution_counted_twice :
    ∃ c, (system luckyConfig).Reachable (fun _ _ => True) c ∧ c.miner.point = .top ∧
      c.hashes = 1 ∧ c.amounts = [1, 1] ∧ ¬ c.Accurate := by
  obtain ⟨c, hsteps, hc⟩ := Machine.steps_of_endsIn (M := system luckyConfig) (s := {})
    (p := fun c => decide (c.miner.point = .top ∧ c.hashes = 1 ∧ c.amounts = [1, 1] ∧ ¬ c.Accurate))
    (l := starting ++ [.worker .thread, .worker .thread]) (Machine.meets_true _ _) (by decide)
  exact ⟨c, ⟨_, rfl, hsteps⟩, of_decide_eq_true hc⟩

end Counted

end Energiminer.Engines.CpuMiner
