import Energiminer.Cuda.Proofs.Init
import Energiminer.Engines.Thermal

/-!
# A limit that does not reach the plant

With the thresholds of the command line, `update_temperature` keeps the flag of a miner as it should be
for every sequence of readings. But no plant gets them, and the flag is never set. A thread that is
paused between two tests of its loop goes on: an OpenCL miner in the block for new work launches one more
search, a CUDA miner in `search` any number of them.
-/

namespace Energiminer.Engines.Thermal
open Misc Machine Nrghash Primitives

variable {S E F : Type} {loop : MiningLoop S E F} {options : Options} {plant : Plant} {w : Watch}
  {s t : State S} {e : Event E}

/-! ## The flags -/

/-- What the command line makes sure of if there is a limit. -/
structure Options.Limited (options : Options) : Prop where
  tstart : 0 < options.tstart
  lt : options.tstart < options.tstop
  bound : options.tstop ≤ 100
  hwmon : options.showHwmonitors = true

theorem limited_of_parse {c : CommandLine} (h : parseCommandLine c = some options)
    (hstop : 0 < options.tstop) : options.Limited := by
  rw [parseCommandLine] at h
  split at h
  next hranges =>
    dsimp only at h
    split at h
    next => cases h
    next hlimit =>
      cases h
      dsimp only at hstop
      simp only [Bool.and_eq_true] at hranges
      obtain ⟨⟨hstopRange, hstartRange⟩, _⟩ := hranges
      refine ⟨?_, by dsimp only; omega, ?_, ?_⟩
      · cases htstart : c.tstart with
        | none => exact Nat.succ_pos _
        | some value =>
          rw [htstart, inRange, Bool.and_eq_true, decide_eq_true_eq] at hstartRange
          exact Nat.lt_of_lt_of_le (by decide) hstartRange.1
      · cases htstop : c.tstop with
        | none => exact Nat.zero_le _
        | some value =>
          rw [htstop, inRange, Bool.and_eq_true, decide_eq_true_eq, decide_eq_true_eq] at hstopRange
          exact hstopRange.2
      · have hne : c.tstop.getD 0 ≠ 0 := by omega
        simp [hne]
  next => cases h

/-- The plant has the thresholds of the command line. -/
structure Plant.Has (plant : Plant) (options : Options) : Prop where
  tstart : plant.tstart.toNat = options.tstart
  tstop : plant.tstop.toNat = options.tstop

theorem flagsOf_ne_zero : ∀ hot api, flagsOf hot api ≠ 0 ↔ hot = true ∨ api = true := by decide

theorem flagsOf_and_mask : ∀ hot api, flagsOf hot api &&& MinigPauseReason.waitForTStart.mask =
    MinigPauseReason.waitForTStart.mask ↔ hot = true := by decide

theorem setMiningPaused_hot :
    ∀ hot api, setMiningPaused (flagsOf hot api) .waitForTStart = flagsOf true api := by decide

theorem clearMiningPaused_hot :
    ∀ hot api, clearMiningPaused (flagsOf hot api) .waitForTStart = flagsOf false api := by decide

theorem setMiningPaused_api :
    ∀ hot api, setMiningPaused (flagsOf hot api) .api = flagsOf hot true := by decide

theorem clearMiningPaused_api :
    ∀ hot api, clearMiningPaused (flagsOf hot api) .api = flagsOf hot false := by decide

/-- What should follow a reading. -/
def Watch.read (options : Options) (w : Watch) (temperature : BitVec 32) : Watch :=
  if options.tstop ≤ temperature.toNat then { w with hot := true }
  else if temperature.toNat ≤ options.tstart then { w with hot := false }
  else w

theorem ne_zero_of_toNat {x : BitVec 32} {n : Nat} (h : x.toNat = n) (hn : 0 < n) : x ≠ 0 := by
  rintro rfl
  rw [← h] at hn
  exact absurd hn (by decide)

/-- With the thresholds of the command line, every reading leaves the flags as they should be. -/
theorem updateTemperature_of_has (hlimited : options.Limited) (hplant : plant.Has options)
    (w : Watch) (temperature : BitVec 32) :
    updateTemperature plant w.flags temperature = (w.read options temperature).flags := by
  have hlt := hlimited.lt
  have hstart := ne_zero_of_toNat hplant.tstart hlimited.tstart
  have hstop := ne_zero_of_toNat hplant.tstop (by omega)
  obtain ⟨hot, api, launched⟩ := w
  rw [updateTemperature, Watch.read, Watch.flags]
  simp only [ne_eq, flagsOf_and_mask, hstart, hstop, not_false_eq_true, true_and, BitVec.le_def,
    hplant.tstart, hplant.tstop]
  by_cases hover : options.tstop ≤ temperature.toNat
  · -- the flag is set, or stays set
    rw [if_pos hover, if_pos hover, if_neg (show ¬ temperature.toNat ≤ options.tstart by omega)]
    cases hot with
    | false => exact setMiningPaused_hot false api
    | true => rfl
  · rw [if_neg hover, if_neg hover]
    cases hot with
    | false =>
      rw [if_pos (by decide)]
      split
      · rfl
      · rfl
    | true =>
      rw [if_neg (by decide)]
      split
      · exact clearMiningPaused_hot true api
      · rfl

/-- Without thresholds, a reading below the limit leaves the flags of a miner that is not too hot. -/
theorem updateTemperature_of_zero (hplant : plant.tstop = 0) {temperature : BitVec 32}
    (hhot : w.hot = false) (hcool : temperature.toNat < options.tstop) :
    updateTemperature plant w.flags temperature = (w.read options temperature).flags := by
  obtain ⟨hot, api, launched⟩ := w
  cases hhot
  rw [Watch.flags, updateTemperature, if_pos (mt (flagsOf_and_mask false api).mp (by decide)),
    if_neg (fun h => h.1 hplant), Watch.read, if_neg (by omega)]
  split
  · rfl
  · rfl

/-! ## The threads -/

/-- What the protection asks of a mining loop: a thread that is paused and tests for a pause before it
launches a search does not launch one. -/
structure MiningLoop.Lawful (loop : MiningLoop S E F) : Prop where
  assignment_set : ∀ s a, loop.assignment (loop.setAssignment s a) = a
  testsFirst_set : ∀ s a, loop.testsFirst (loop.setAssignment s a) = loop.testsFirst s
  idle : ∀ s e t, loop.machine.step s e = some (.ok t) → loop.isPause e = false →
    (loop.assignment s).miningPaused = true → loop.testsFirst s = true →
    loop.launches s t = 0 ∧ (loop.assignment t).miningPaused = true ∧ loop.testsFirst t = true

theorem miningPaused_obey {a : Assignment} {order : Order}
    (h : ∀ paused, order ≠ .setMiningPaused paused) :
    (a.obey order).miningPaused = a.miningPaused := by
  cases order with
  | setWork work updated =>
    rw [Assignment.obey]
    split
    · rfl
    · rfl
  | resetWork | updateWorkTimestamp => rfl
  | setMiningPaused paused => exact absurd rfl (h paused)

theorem ne_setMiningPaused {e : E} {order : Order} (horder : loop.order e = some order)
    (h : loop.isPause e = false) (paused : Bool) : order ≠ .setMiningPaused paused := by
  rintro rfl
  rw [MiningLoop.isPause, horder] at h
  cases h

theorem openCL_lawful (K : KeccakFns) (config : OpenCL.Miner.Config) : (openCL K config).Lawful := by
  refine ⟨fun _ _ => rfl, fun _ _ => rfl, fun s e t hstep hpause hpaused htests => ?_⟩
  have hpoint : s.point ≠ .block := of_decide_eq_true htests
  have hquiet {t : OpenCL.Miner.State} (hblocks : t.blocks = s.blocks)
      (hlaunched : t.launched = s.launched) : (openCL K config).launches s t = 0 := by
    dsimp only [openCL]
    rw [if_pos hblocks, hlaunched, Nat.sub_self]
  cases e with
  | order order =>
    cases hstep
    have horder : (openCL K config).order (.order order) = some order := rfl
    refine ⟨hquiet rfl rfl, ?_, htests⟩
    exact (miningPaused_obey (ne_setMiningPaused horder hpause)).trans hpaused
  | thread choice =>
    change s.assignment.miningPaused = true at hpaused
    change s.run K config choice = _ at hstep
    rw [OpenCL.Miner.State.run] at hstep
    split at hstep
    next =>
      rw [if_pos hpaused] at hstep
      cases hstep
      exact ⟨hquiet rfl rfl, hpaused, htests⟩
    next hblock => exact absurd hblock hpoint
    next i hresults =>
      rw [OpenCL.Miner.State.nextResult] at hstep
      split at hstep
      next =>
        split at hstep
        next =>
          cases hstep
          exact ⟨hquiet rfl rfl, hpaused, rfl⟩
        next => cases hstep
      next =>
        cases hstep
        exact ⟨hquiet rfl rfl, hpaused, rfl⟩
  | device stack =>
    have hexecute := Machine.eq_some_of_map_ok hstep
    rw [OpenCL.Miner.State.execute] at hexecute
    split at hexecute
    next => cases hexecute
    next =>
      cases hexecute
      exact ⟨hquiet rfl rfl, hpaused, htests⟩

theorem cuda_lawful (config : Cuda.Miner.Config) : (cuda config).Lawful := by
  refine ⟨fun _ _ => rfl, fun _ _ => rfl, fun s e t hstep hpause hpaused htests => ?_⟩
  have hpoint : s.point = .top := of_decide_eq_true htests
  have hquiet {t : Cuda.Miner.State} (hlaunched : t.launched = s.launched) :
      (cuda config).launches s t = 0 := by
    dsimp only [cuda]
    rw [hlaunched, Nat.sub_self]
  cases e with
  | order order =>
    cases hstep
    have horder : (cuda config).order (.order order) = some order := rfl
    refine ⟨hquiet rfl, ?_, htests⟩
    exact (miningPaused_obey (ne_setMiningPaused horder hpause)).trans hpaused
  | thread choice =>
    change s.assignment.miningPaused = true at hpaused
    change s.run config choice = _ at hstep
    rw [Cuda.Miner.State.run, hpoint] at hstep
    dsimp only at hstep
    rw [if_pos hpaused] at hstep
    cases hstep
    exact ⟨hquiet rfl, hpaused, htests⟩
  | report i gid | finish i =>
    obtain ⟨u, _, hok⟩ := Option.map_eq_some_iff.mp hstep
    cases hok
    exact ⟨hquiet rfl, hpaused, htests⟩

/-! ## Runs -/

/-- A reading that reaches the limit finds a plant that has the thresholds, and the miner is paused while
its thread tests for a pause before it launches a search. -/
def Guarded (options : Options) (plant : Plant) (loop : MiningLoop S E F) (x : State S × Watch) :
    Event E → Prop
  | .collectData temperature =>
    options.tstop ≤ temperature.toNat → plant.Has options ∧ loop.testsFirst x.1.miner = true
  | .setPausedApi => loop.testsFirst x.1.miner = true
  | .clearPausedApi | .miner _ => True

/-- What holds in guarded runs. -/
structure Protected (options : Options) (plant : Plant) (loop : MiningLoop S E F) (s : State S)
    (w : Watch) : Prop where
  effective : Effective s w
  paused : s.flags ≠ 0 →
    (loop.assignment s.miner).miningPaused = true ∧ loop.testsFirst s.miner = true
  has : w.hot = true → plant.Has options

theorem Protected.pause (hloop : loop.Lawful) (h : Protected options plant loop s w) {w' : Watch}
    {flags : BitVec 64} (hflags : flags = w'.flags) (hlaunched : w'.launched = w.launched)
    (htests : flags ≠ 0 → loop.testsFirst s.miner = true)
    (hhas : w'.hot = true → plant.Has options) :
    Protected options plant loop (s.pause loop flags) w' := by
  refine ⟨⟨hflags, hlaunched.trans h.effective.launched⟩, fun hne => ⟨?_, ?_⟩, hhas⟩
  · rw [State.pause, hloop.assignment_set]
    exact decide_eq_true hne
  · rw [State.pause, hloop.testsFirst_set]
    exact htests hne

theorem updateTemperature_eq (hlimited : options.Limited)
    (hplant : plant.tstop = 0 ∨ plant.Has options) (h : Protected options plant loop s w)
    {temperature : BitVec 32} (hC : Guarded options plant loop (s, w) (.collectData temperature)) :
    updateTemperature plant s.flags temperature = (w.read options temperature).flags := by
  rw [h.effective.flags]
  by_cases hhas : plant.Has options
  · exact updateTemperature_of_has hlimited hhas w temperature
  · refine updateTemperature_of_zero (hplant.resolve_right hhas) ?_ ?_
    · exact Bool.eq_false_iff.mpr fun hhot => hhas (h.has hhot)
    · exact Nat.lt_of_not_le fun hover => hhas (hC hover).1

theorem Watch.launched_read (options : Options) (w : Watch) (temperature : BitVec 32) :
    (w.read options temperature).launched = w.launched := by
  rw [Watch.read]
  split
  · rfl
  · split
    · rfl
    · rfl

theorem flags_read {temperature : BitVec 32} (h : (w.read options temperature).flags ≠ 0) :
    options.tstop ≤ temperature.toNat ∨ w.flags ≠ 0 := by
  by_cases hover : options.tstop ≤ temperature.toNat
  · exact .inl hover
  · right
    rw [Watch.read, if_neg hover] at h
    split at h
    · rcases (flagsOf_ne_zero _ _).mp h with hhot | hapi
      · cases hhot
      · exact (flagsOf_ne_zero _ _).mpr (.inr hapi)
    · exact h

theorem hot_read {temperature : BitVec 32} (h : (w.read options temperature).hot = true) :
    options.tstop ≤ temperature.toNat ∨ w.hot = true := by
  by_cases hover : options.tstop ≤ temperature.toNat
  · exact .inl hover
  · right
    rw [Watch.read, if_neg hover] at h
    split at h
    · cases h
    · exact h

theorem protected_step (hloop : loop.Lawful) (hlimited : options.Limited) (hhwmon : plant.hwmon = true)
    (hplant : plant.tstop = 0 ∨ plant.Has options) (h : Protected options plant loop s w)
    (hC : Guarded options plant loop (s, w) e) (hstep : step plant loop s e = some (.ok t)) :
    Protected options plant loop t (w.note options loop s e t) := by
  have htests (hw : w.flags ≠ 0) : loop.testsFirst s.miner = true :=
    (h.paused (by rw [h.effective.flags]; exact hw)).2
  cases e with
  | collectData temperature =>
    rw [step, if_pos hhwmon] at hstep
    cases hstep
    have hflags := updateTemperature_eq hlimited hplant h hC
    refine h.pause hloop hflags (w.launched_read options temperature) (fun hne => ?_) fun hhot => ?_
    · rw [hflags] at hne
      rcases flags_read hne with hover | hold
      · exact (hC hover).2
      · exact htests hold
    · rcases hot_read hhot with hover | hold
      · exact (hC hover).1
      · exact h.has hold
  | setPausedApi =>
    cases hstep
    refine h.pause hloop ?_ rfl (fun _ => hC) h.has
    rw [h.effective.flags]
    exact setMiningPaused_api w.hot w.api
  | clearPausedApi =>
    cases hstep
    have hflags : clearMiningPaused s.flags .api = flagsOf w.hot false := by
      rw [h.effective.flags]
      exact clearMiningPaused_api w.hot w.api
    refine h.pause hloop hflags rfl (fun hne => htests ?_) h.has
    rw [hflags, flagsOf_ne_zero] at hne
    rcases hne with hhot | hapi
    · exact (flagsOf_ne_zero _ _).mpr (.inl hhot)
    · cases hapi
  | miner event =>
    rw [step] at hstep
    split at hstep
    next => cases hstep
    next hpause =>
      split at hstep
      next => cases hstep
      next => cases hstep
      next miner hnext =>
        cases hstep
        rw [Watch.note]
        split
        next hzero =>
          exact ⟨⟨h.effective.flags, h.effective.launched⟩, fun hne => absurd hzero hne, h.has⟩
        next hne =>
          obtain ⟨hpaused, htest⟩ := h.paused hne
          obtain ⟨hlaunches, hpaused', htest'⟩ :=
            hloop.idle _ _ _ hnext (Bool.eq_false_iff.mpr hpause) hpaused htest
          refine ⟨⟨h.effective.flags, ?_⟩, fun _ => ⟨hpaused', htest'⟩, h.has⟩
          dsimp only
          rw [hlaunches, h.effective.launched]

theorem effective_of_guarded (hloop : loop.Lawful) (hlimited : options.Limited)
    (hhwmon : plant.hwmon = true) (hplant : plant.tstop = 0 ∨ plant.Has options)
    (h : (watched options plant loop).Reachable (Guarded options plant loop) (s, w)) :
    Effective s w := by
  refine (h.recorded_invariant (I := Protected options plant loop) ?_ ?_).effective
  · rintro s ⟨hflags, _⟩
    exact ⟨⟨hflags, rfl⟩, fun hne => absurd hflags hne, nofun⟩
  · intro s w e t hI hC hstep
    exact protected_step hloop hlimited hhwmon hplant hI hC hstep

/-- The miner is paused where its thread tests for a pause before it launches a search. -/
def PausedInTime (loop : MiningLoop S E F) (x : State S × Watch) : Event E → Prop
  | .collectData _ | .setPausedApi => loop.testsFirst x.1.miner = true
  | .clearPausedApi | .miner _ => True

/-- No reading reaches the limit, and the API pauses the miner while its thread tests for a pause before
it launches a search. -/
def Cool (options : Options) (loop : MiningLoop S E F) (x : State S × Watch) : Event E → Prop
  | .collectData temperature => temperature.toNat < options.tstop
  | .setPausedApi => loop.testsFirst x.1.miner = true
  | .clearPausedApi | .miner _ => True

instance (options : Options) (loop : MiningLoop S E F) (x : State S × Watch) :
    (e : Event E) → Decidable (Cool options loop x e)
  | .collectData _ => inferInstanceAs (Decidable (_ < _))
  | .setPausedApi => inferInstanceAs (Decidable (_ = _))
  | .clearPausedApi | .miner _ => .isTrue trivial

theorem guarded_of_cool {x : State S × Watch} (h : Cool options loop x e) :
    Guarded options plant loop x e := by
  cases e with
  | collectData temperature => exact fun hover => absurd hover (Nat.not_le_of_lt h)
  | setPausedApi => exact h
  | clearPausedApi | miner => trivial

/-- With a limit on the command line, the miners of both engines are protected in runs in which no
reading reaches it, and in which the API pauses a miner only where its thread tests for a pause before it
launches a search. -/
theorem effective_of_cool (K : KeccakFns) (config : OpenCL.Miner.Config)
    (cudaConfig : Cuda.Miner.Config) {c : CommandLine} {options : Options}
    (hparse : parseCommandLine c = some options) (hstop : 0 < options.tstop) :
    (∀ s w, (watched options (doMiner options) (openCL K config)).Reachable
      (Cool options (openCL K config)) (s, w) → Effective s w) ∧
    ∀ s w, (watched options (doMiner options) (cuda cudaConfig)).Reachable
      (Cool options (cuda cudaConfig)) (s, w) → Effective s w := by
  have hlimited := limited_of_parse hparse hstop
  constructor
  · rintro s w ⟨x, hx, hrun⟩
    exact effective_of_guarded (openCL_lawful K config) hlimited hlimited.hwmon (.inl rfl)
      ⟨x, hx, hrun.mono fun _ _ => guarded_of_cool⟩
  · rintro s w ⟨x, hx, hrun⟩
    exact effective_of_guarded (cuda_lawful cudaConfig) hlimited hlimited.hwmon (.inl rfl)
      ⟨x, hx, hrun.mono fun _ _ => guarded_of_cool⟩

/-! ## A limit of 80 degrees -/

def limit80 : Options := { tstop := 80, showHwmonitors := true }

theorem parse_limit80 : parseCommandLine { tstop := some 80 } = some limit80 := by decide

/-- The OpenCL miner as it is built. -/
def newOpenCL : State OpenCL.Miner.State where
  miner := .initial .blank .blank

/-- The CUDA miner as it is built. -/
def newCuda : State Cuda.Miner.State where
  miner := .initial .blank

/-- An OpenCL miner launches a search at 60 degrees, and a CUDA miner gets its first work. -/
theorem effective_of_cool_first :
    (∃ (s : State OpenCL.Miner.State) (w : Watch), s.miner.launched.length = 1 ∧ Effective s w) ∧
      ∃ (s : State Cuda.Miner.State) (w : Watch),
        s.miner.assignment.newWorkAssigned = true ∧ Effective s w := by
  have heffective := effective_of_cool keccakTiny OpenCL.Miner.smallConfig Cuda.Miner.smallConfig
    parse_limit80 (by decide)
  constructor
  · have hmeets : (watched limit80 (doMiner limit80)
        (openCL keccakTiny OpenCL.Miner.smallConfig)).Meets
        (Cool limit80 (openCL keccakTiny OpenCL.Miner.smallConfig)) (newOpenCL, {})
        [.miner (.order (.setWork (workAt 1) (workAt 1))), .collectData 60,
          .miner (.thread (OpenCL.Miner.choose []))] := by
      decide +kernel
    obtain ⟨⟨s, w⟩, hsteps, hs⟩ := steps_of_endsIn
      (p := fun x : State OpenCL.Miner.State × Watch => decide (x.1.miner.launched.length = 1)) hmeets
      (by decide +kernel)
    exact ⟨s, w, of_decide_eq_true hs,
      heffective.1 s w ⟨_, ⟨⟨rfl, _, _, rfl⟩, rfl⟩, hsteps⟩⟩
  · have hmeets : (watched limit80 (doMiner limit80) (cuda Cuda.Miner.smallConfig)).Meets
        (Cool limit80 (cuda Cuda.Miner.smallConfig)) (newCuda, {})
        [.miner (.order (.setWork (workAt 1) (workAt 1))), .collectData 60] := by
      decide +kernel
    obtain ⟨⟨s, w⟩, hsteps, hs⟩ := steps_of_endsIn
      (p := fun x : State Cuda.Miner.State × Watch => x.1.miner.assignment.newWorkAssigned) hmeets
      (by decide +kernel)
    exact ⟨s, w, hs, heffective.2 s w ⟨_, ⟨⟨rfl, _, rfl⟩, rfl⟩, hsteps⟩⟩

theorem not_effective_of_hot (hflags : s.flags = 0) (hhot : w.hot = true) : ¬ Effective s w := by
  intro h
  have hzero : w.flags = 0 := h.flags.symm.trans hflags
  exact (flagsOf_ne_zero _ _).mpr (.inl hhot) hzero

/-- A reading of 90 degrees sets no flag in a miner of `doMiner`. -/
theorem unprotected_at_90 (hnew : loop.machine.init s.miner) (hflags : s.flags = 0) :
    ∃ t w, (watched limit80 (doMiner limit80) loop).Reachable (fun _ _ => True) (t, w) ∧
      w.hot = true ∧ ¬ Effective t w := by
  have hnext : (watched limit80 (doMiner limit80) loop).step (s, {}) (.collectData 90) =
      some (.ok (s.pause loop (updateTemperature (doMiner limit80) s.flags 90),
        { hot := true })) := rfl
  have hunset : updateTemperature (doMiner limit80) 0 90 = 0 := by decide
  refine ⟨_, _, ⟨(s, {}), ⟨⟨hflags, hnew⟩, rfl⟩, Steps.refl.step trivial hnext⟩, rfl, ?_⟩
  refine not_effective_of_hot ?_ rfl
  rw [hflags]
  exact hunset

/-- A step of the mining loop is one of the miner; nothing is noted while no flag is set. -/
theorem watched_step {m m' : S} {event : E} (hpause : loop.isPause event = false)
    (hstep : loop.machine.step m event = some (.ok m')) (w : Watch) :
    (watched options plant loop).step (⟨0, m⟩, w) (.miner event) = some (.ok (⟨0, m'⟩, w)) := by
  have hnote : w.note options loop ⟨0, m⟩ (.miner event) ⟨0, m'⟩ = w := by
    rw [Watch.note, if_pos rfl]
  have hrecorded : (watched options plant loop).step (⟨0, m⟩, w) (.miner event) =
      some (.ok (⟨0, m'⟩, w.note options loop ⟨0, m⟩ (.miner event) ⟨0, m'⟩)) := by
    apply recorded_step_eq_ok.mpr
    refine ⟨?_, rfl⟩
    change step plant loop ⟨0, m⟩ (.miner event) = _
    rw [step, hpause, hstep]
    rfl
  rw [hrecorded, hnote]

theorem steps_primed :
    (watched limit80 (doMiner limit80) (cuda Cuda.Miner.smallConfig)).Steps (fun _ _ => True)
      (newCuda, {}) (⟨0, Cuda.Miner.primed⟩, {}) := by
  have hassigned : (cuda Cuda.Miner.smallConfig).machine.step (.initial .blank)
      (.order (.setWork (workAt 1) (workAt 1))) = some (.ok Cuda.Miner.assigned) :=
    Cuda.Miner.step_assigned
  have hprimed : (cuda Cuda.Miner.smallConfig).machine.step Cuda.Miner.assigned
      (.thread Cuda.Miner.choose) = some (.ok Cuda.Miner.primed) := Cuda.Miner.step_primed
  exact (Steps.refl.step trivial (watched_step rfl hassigned {})).step trivial
    (watched_step rfl hprimed {})

/-- A CUDA miner that is paused by the API in `search` goes on to launch its searches. -/
theorem launches_while_paused :
    ∃ (s : State Cuda.Miner.State) (w : Watch),
      (watched limit80 (doMiner limit80) (cuda Cuda.Miner.smallConfig)).Reachable (fun _ _ => True)
        (s, w) ∧ w.hot = false ∧ ¬ Effective s w := by
  have hmeets : (watched limit80 (doMiner limit80) (cuda Cuda.Miner.smallConfig)).Meets
      (fun _ _ => True) (⟨0, Cuda.Miner.primed⟩, {})
      [.setPausedApi, .miner (.thread Cuda.Miner.choose)] := meets_true ..
  obtain ⟨⟨s, w⟩, hsteps, hs⟩ := steps_of_endsIn
    (p := fun x : State Cuda.Miner.State × Watch => decide (x.2.launched = 1 ∧ x.2.hot = false))
    hmeets (by decide +kernel)
  obtain ⟨hlaunched, hhot⟩ := of_decide_eq_true hs
  refine ⟨s, w, ⟨(newCuda, {}), ⟨⟨rfl, _, rfl⟩, rfl⟩, steps_primed.trans hsteps⟩, hhot, fun h => ?_⟩
  exact absurd (hlaunched.symm.trans h.launched) (by decide)

/-- With `--tstop 80`, a reading of 90 degrees pauses no miner; and a CUDA miner that is paused in
`search` launches another search. -/
theorem limit_without_effect :
    parseCommandLine { tstop := some 80 } = some limit80 ∧
    (∃ s w, (watched limit80 (doMiner limit80) (openCL keccakTiny OpenCL.Miner.smallConfig)).Reachable
      (fun _ _ => True) (s, w) ∧ w.hot = true ∧ ¬ Effective s w) ∧
    (∃ s w, (watched limit80 (doMiner limit80) (cuda Cuda.Miner.smallConfig)).Reachable
      (fun _ _ => True) (s, w) ∧ w.hot = true ∧ ¬ Effective s w) ∧
    ∃ s w, (watched limit80 (doMiner limit80) (cuda Cuda.Miner.smallConfig)).Reachable
      (fun _ _ => True) (s, w) ∧ w.hot = false ∧ ¬ Effective s w := by
  refine ⟨parse_limit80, ?_, ?_, launches_while_paused⟩
  · have hnew : (openCL keccakTiny OpenCL.Miner.smallConfig).machine.init newOpenCL.miner :=
      ⟨_, _, rfl⟩
    exact unprotected_at_90 hnew rfl
  · have hnew : (cuda Cuda.Miner.smallConfig).machine.init newCuda.miner := ⟨_, rfl⟩
    exact unprotected_at_90 hnew rfl

end Energiminer.Engines.Thermal
