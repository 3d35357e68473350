import Energiminer.Cuda.Proofs.Init
import Energiminer.Engines.DagLoad

/-!
# One DAG at a time, and one DAG for all

`s_dagLoadIndex` is never reset, so both load modes do what they are for in the first epoch only: when
all miners have loaded a DAG, the waiting condition of no miner holds any more, and the first device
that has the DAG of the next epoch frees its copy. The OpenCL miners count before they load, and so
do not load one after the other in the first epoch either.
-/

namespace Energiminer.Engines.DagLoad
open Misc Machine Nrghash

/-! ## Steps of a CUDA miner -/

/-- What an action of a CUDA miner does. -/
inductive Goes (cfg : Config) (i : Nat) (g : Shared) (m : Miner) : Action → Shared → Miner → Prop
  | queue {height : BitVec 32} (hphase : m.phase = .mining) (hneeds : m.needsDag height = true)
      (hmode : cfg.dagLoadMode = .sequential) :
      Goes cfg i g m (.work height) g { m with phase := .turn, height }
  | enter {height : BitVec 32} (hphase : m.phase = .mining) (hneeds : m.needsDag height = true)
      (hmode : cfg.dagLoadMode ≠ .sequential) :
      Goes cfg i g m (.work height) g { m with phase := .init, height }
  | stay {height : BitVec 32} (hphase : m.phase = .mining) (hneeds : m.needsDag height = false) :
      Goes cfg i g m (.work height) g { m with height, lastHeight := height.setWidth 64 }
  | turn (hphase : m.phase = .turn) (hturn : ¬ g.waits i) :
      Goes cfg i g m .go g { m with phase := .init }
  | reset (hphase : m.phase = .init) (hitems : dagItems m.height.toNat ≠ m.dagSize) :
      Goes cfg i g m .go g { m with phase := .hostTest, dag := false }
  | keep (hphase : m.phase = .init) (hitems : dagItems m.height.toNat = m.dagSize) :
      Goes cfg i g m .go g m.ready
  | found {block : Nat} (hphase : m.phase = .hostTest ∨ m.phase = .hostWait)
      (hhost : g.dagInHostMemory = some block) : Goes cfg i g m .go g { m with phase := .hostRead }
  | create (hphase : m.phase = .hostTest) (hhost : g.dagInHostMemory = none)
      (hcreator : cfg.deviceNum i = cfg.dagCreateDevice ∨ cfg.dagLoadMode ≠ .single) :
      Goes cfg i g m .go g { m with phase := .generating }
  | await (hphase : m.phase = .hostTest) (hhost : g.dagInHostMemory = none)
      (hmode : cfg.dagLoadMode = .single) (hother : cfg.deviceNum i ≠ cfg.dagCreateDevice) :
      Goes cfg i g m .go g { m with phase := .hostWait }
  | publish (hphase : m.phase = .generating) (hmode : cfg.dagLoadMode = .single) :
      Goes cfg i g m .go (g.publish m.epoch) (m.load m.epoch).ready
  | generate (hphase : m.phase = .generating) (hmode : cfg.dagLoadMode ≠ .single) :
      Goes cfg i g m .go g (m.load m.epoch).ready
  | read {block : Nat} (hphase : m.phase = .hostRead) (hhost : g.dagInHostMemory = some block) :
      Goes cfg i g m .go g { m with phase := .copying block }
  | readNull (hphase : m.phase = .hostRead) (hhost : g.dagInHostMemory = none) :
      Goes cfg i g m .go g { m with phase := .count }
  | copy {block epoch : Nat} (hphase : m.phase = .copying block)
      (hblock : g.heap[block]? = some ⟨epoch, true⟩) : Goes cfg i g m .go g (m.load epoch).ready
  | count (hphase : m.phase = .count) (hmode : cfg.dagLoadMode = .single) :
      Goes cfg i g m .go g.count { m with phase := .freeTest }
  | finish (hphase : m.phase = .count) (hmode : cfg.dagLoadMode ≠ .single) :
      Goes cfg i g m .go g.count m.finish
  | last (hphase : m.phase = .freeTest) (hall : cfg.numInstances ≤ g.dagLoadIndex) :
      Goes cfg i g m .go g { m with phase := .hostLeft }
  | free (hphase : m.phase = .hostLeft) : Goes cfg i g m .go g { m with phase := .delete }
  | leave (hphase : m.phase = .freeTest ∨ m.phase = .hostLeft) : Goes cfg i g m .go g m.finish
  | deleteNull (hphase : m.phase = .delete) (hhost : g.dagInHostMemory = none) :
      Goes cfg i g m .go g { m with phase := .clear }
  | delete {block epoch : Nat} (hphase : m.phase = .delete)
      (hhost : g.dagInHostMemory = some block) (hblock : g.heap[block]? = some ⟨epoch, true⟩) :
      Goes cfg i g m .go { g with heap := g.heap.set block ⟨epoch, false⟩ }
        { m with phase := .clear }
  | clear (hphase : m.phase = .clear) :
      Goes cfg i g m .go { g with dagInHostMemory := none } m.finish
  | fail (hinside : m.inside = true) : Goes cfg i g m .fail g { m with phase := .count }
  | throw (hphase : m.phase = .init) : Goes cfg i g m .throw g m.finish

variable {cfg : Config} {i : Nat} {g g' : Shared} {m m' : Miner} {a : Action} {s : State}

theorem goes_work {height : BitVec 32} (h : act cfg i (.work height) g m = some (.ok (g', m'))) :
    Goes cfg i g m (.work height) g' m' := by
  rw [act, Miner.takeWork] at h
  split at h
  next hwork =>
    split at h
    next hneeds =>
      split at h
      next hmode =>
        cases h
        exact .queue hwork.1 hneeds hmode
      next hmode =>
        cases h
        exact .enter hwork.1 hneeds hmode
    next hneeds =>
      cases h
      exact .stay hwork.1 (Bool.eq_false_iff.mpr hneeds)
  next => cases h

theorem goes_go (hengine : cfg.engine = .cuda) (h : m.go cfg i g = some (.ok (g', m'))) :
    Goes cfg i g m .go g' m' := by
  rw [Miner.go] at h
  split at h
  next => cases h
  next hphase =>
    rw [hengine] at h
    split at h
    next => cases h
    next hturn =>
      cases h
      exact .turn hphase hturn
  next hphase =>
    rw [hengine] at h
    dsimp only at h
    split at h
    next hitems =>
      cases h
      exact .reset hphase hitems
    next hitems =>
      cases h
      exact .keep hphase (not_not.mp hitems)
  next hphase =>
    split at h
    next hhost =>
      cases h
      exact .found (.inl hphase) hhost
    next hhost =>
      split at h
      next hcreator =>
        cases h
        exact .create hphase hhost hcreator
      next hother =>
        cases h
        rw [not_or, not_not] at hother
        exact .await hphase hhost hother.2 hother.1
  next hphase =>
    split at h
    next hmode =>
      cases h
      exact .publish hphase hmode
    next hmode =>
      cases h
      exact .generate hphase hmode
  next hphase =>
    split at h
    next hhost =>
      cases h
      exact .found (.inr hphase) hhost
    next => cases h
  next hphase =>
    split at h
    next hhost =>
      cases h
      exact .read hphase hhost
    next hhost =>
      cases h
      exact .readNull hphase hhost
  next hphase =>
    split at h
    next hblock =>
      cases h
      exact .copy hphase hblock
    next => cases h
  next hphase =>
    rw [hengine] at h
    dsimp only at h
    split at h
    next hmode =>
      cases h
      exact .count hphase hmode
    next hmode =>
      cases h
      exact .finish hphase hmode
  next hphase =>
    split at h
    next hall =>
      cases h
      exact .last hphase hall
    next =>
      cases h
      exact .leave (.inl hphase)
  next hphase =>
    split at h
    next =>
      cases h
      exact .free hphase
    next =>
      cases h
      exact .leave (.inr hphase)
  next hphase =>
    split at h
    next hhost =>
      cases h
      exact .deleteNull hphase hhost
    next hhost =>
      rw [Shared.free] at h
      split at h
      next hfree =>
        split at hfree
        next hblock =>
          cases hfree
          cases h
          exact .delete hphase hhost hblock
        next => cases hfree
      next => cases h
  next hphase =>
    cases h
    exact .clear hphase

theorem goes_fail (hengine : cfg.engine = .cuda)
    (h : act cfg i .fail g m = some (.ok (g', m'))) : Goes cfg i g m .fail g' m' := by
  rw [act, Option.map_eq_some_iff] at h
  obtain ⟨failed, hfail, hok⟩ := h
  cases hok
  rw [Miner.fail, hengine] at hfail
  have hcounts : m.inside = true ∧ { m with phase := .count } = m' := by
    split at hfail
    next hcl _ => cases hcl
    next _ hphase => exact ⟨by rw [Miner.inside, hphase], Option.some.inj hfail⟩
    next _ hphase => exact ⟨by rw [Miner.inside, hphase], Option.some.inj hfail⟩
    next _ hphase => exact ⟨by rw [Miner.inside, hphase], Option.some.inj hfail⟩
    next _ hphase => exact ⟨by rw [Miner.inside, hphase], Option.some.inj hfail⟩
    next => cases hfail
  rw [← hcounts.2]
  exact .fail hcounts.1

theorem goes_throw (h : act cfg i .throw g m = some (.ok (g', m'))) :
    Goes cfg i g m .throw g' m' := by
  rw [act, Option.map_eq_some_iff] at h
  obtain ⟨failed, hthrow, hok⟩ := h
  cases hok
  rw [Miner.throw] at hthrow
  split at hthrow
  next hphase =>
    cases hthrow
    exact .throw hphase
  next => cases hthrow

theorem goes_of_act (hengine : cfg.engine = .cuda)
    (h : act cfg i a g m = some (.ok (g', m'))) : Goes cfg i g m a g' m' := by
  cases a with
  | work height => exact goes_work h
  | go => exact goes_go hengine h
  | fail => exact goes_fail hengine h
  | throw => exact goes_throw h

theorem instances_lt (cfg : Config) : cfg.instances < 2 ^ 32 := by
  rw [Config.instances]
  split
  · decide
  · exact cfg.numInstances.isLt

theorem toNat_count (h : g.dagLoadIndex.toNat + 1 < 2 ^ 32) :
    g.count.dagLoadIndex.toNat = g.dagLoadIndex.toNat + 1 := by
  rw [Shared.count, BitVec.toNat_add]
  exact Nat.mod_eq_of_lt h

/-! ## One at a time -/

/-- The action makes a miner that has loaded a DAG load one of another epoch. -/
def Miner.reloads (m : Miner) : Action → Bool
  | .work height => m.dagLoaded && m.needsDag height
  | .go | .fail | .throw => false

/-- There is one miner, or it is a CUDA miner that acts, it does not load a DAG again, and its call of
`getNumDevices()` succeeds. -/
def LoadsOnce (cfg : Config) (s : State) (e : Nat × Action) : Prop :=
  cfg.instances = 1 ∨
    cfg.engine = .cuda ∧ e.2 ≠ .throw ∧ ∀ m ∈ s.locals[e.1]?, m.reloads e.2 = false

instance (cfg : Config) (s : State) (e : Nat × Action) : Decidable (LoadsOnce cfg s e) :=
  inferInstanceAs (Decidable (_ ∨ _ ∧ _ ∧ _))

/-- The miner is in `cuda_init`, or has just left it. -/
def Miner.busy (m : Miner) : Prop := m.inside = true ∨ m.phase = .count

theorem busy_of_phase {p : Phase} (h : m.phase = p) (hp : ({ m with phase := p } : Miner).busy) :
    m.busy := by
  subst h
  exact hp

/-- In the first epoch of the sequential mode, the miners that have loaded the DAG are those below
`s_dagLoadIndex`, and only the next one is on its way. -/
structure InOrder (g : Shared) (i : Nat) (m : Miner) : Prop where
  counted : m.dagLoaded = true ↔ i < g.dagLoadIndex.toNat
  next : m.busy → i = g.dagLoadIndex.toNat
  unloaded : m.phase ≠ .mining → m.dagLoaded = false
  early : m.phase = .mining ∨ m.phase = .turn ∨ m.busy
  bound : i + 1 < 2 ^ 32

theorem InOrder.go (h : InOrder g i m) (hbusy : m.busy) (hloaded : m'.dagLoaded = m.dagLoaded)
    (hbusy' : m'.busy) : InOrder g i m' := by
  have hunloaded : m.dagLoaded = false := by
    apply h.unloaded
    rcases hbusy with hinside | hcount
    · intro hmining
      rw [Miner.inside, hmining] at hinside
      cases hinside
    · rw [hcount]
      decide
  refine ⟨?_, fun _ => h.next hbusy, fun _ => hloaded.trans hunloaded, .inr (.inr hbusy'), h.bound⟩
  rw [hloaded]
  exact h.counted

theorem InOrder.count (h : InOrder g i m) (hi : m.busy) :
    InOrder g.count i m.finish ∧ ∀ j n, j ≠ i → InOrder g j n → InOrder g.count j n := by
  have hindex := h.next hi
  have hcount : g.count.dagLoadIndex.toNat = i + 1 := by
    have := h.bound
    rw [toNat_count (by omega), hindex]
  refine ⟨⟨?_, ?_, fun hne => absurd rfl hne, .inl rfl, h.bound⟩, fun j n hne hj => ?_⟩
  · rw [hcount]
    exact ⟨fun _ => by omega, fun _ => rfl⟩
  · rintro (hinside | hphase)
    · cases hinside
    · cases hphase
  · refine ⟨?_, fun hnext => ?_, hj.unloaded, hj.early, hj.bound⟩
    · rw [hj.counted, hcount]
      omega
    · have := hj.next hnext
      omega

theorem inOrder_step (hmode : cfg.dagLoadMode = .sequential) (h : InOrder g i m)
    (hcounts : a ≠ .throw) (honce : m.reloads a = false) (hgoes : Goes cfg i g m a g' m') :
    InOrder g' i m' ∧ ∀ j n, j ≠ i → InOrder g j n → InOrder g' j n := by
  have hne : cfg.dagLoadMode ≠ .single := by
    rw [hmode]
    decide
  -- the phases after `s_dagLoadIndex++` belong to the single mode
  have hearly : ∀ p, m.phase = p → p = .freeTest ∨ p = .hostLeft ∨ p = .delete ∨ p = .clear → False := by
    rintro p hp hlate
    have hearly := h.early
    rw [Miner.busy, Miner.inside, hp] at hearly
    rcases hlate with rfl | rfl | rfl | rfl <;> simp at hearly
  cases hgoes with
  | queue hphase hneeds =>
    refine ⟨⟨h.counted, ?_, fun _ => ?_, .inr (.inl rfl), h.bound⟩, fun _ _ _ hj => hj⟩
    · rintro (hinside | hcount)
      · cases hinside
      · cases hcount
    · rw [Miner.reloads, hneeds, Bool.and_true] at honce
      exact honce
  | enter hphase hneeds hmode' => exact absurd hmode hmode'
  | stay hphase hneeds =>
    refine ⟨⟨h.counted, ?_, fun hne => absurd hphase hne, .inl hphase, h.bound⟩, fun _ _ _ hj => hj⟩
    intro hbusy
    exact h.next hbusy
  | turn hphase hturn =>
    have hunloaded := h.unloaded (by rw [hphase]; decide)
    have hindex : i = g.dagLoadIndex.toNat := by
      have hle := h.counted.not.mp (by rw [hunloaded]; decide)
      rw [Shared.waits] at hturn
      omega
    exact ⟨⟨h.counted, fun _ => hindex, fun _ => hunloaded, .inr (.inr (.inl rfl)), h.bound⟩,
      fun _ _ _ hj => hj⟩
  | reset hphase | read hphase | create hphase =>
    exact ⟨h.go (busy_of_phase hphase (.inl rfl)) rfl (.inl rfl), fun _ _ _ hj => hj⟩
  | keep hphase | copy hphase | generate hphase | readNull hphase =>
    exact ⟨h.go (busy_of_phase hphase (.inl rfl)) rfl (.inr rfl), fun _ _ _ hj => hj⟩
  | found hphase =>
    have hbusy : m.busy := by
      rcases hphase with hphase | hphase
      · exact busy_of_phase hphase (.inl rfl)
      · exact busy_of_phase hphase (.inl rfl)
    exact ⟨h.go hbusy rfl (.inl rfl), fun _ _ _ hj => hj⟩
  | await hphase hhost hmode' | publish hphase hmode' | count hphase hmode' =>
    exact absurd hmode' hne
  | finish hphase => exact h.count (.inr hphase)
  | last hphase => exact (hearly _ hphase (.inl rfl)).elim
  | free hphase => exact (hearly _ hphase (.inr (.inl rfl))).elim
  | leave hphase =>
    rcases hphase with hphase | hphase
    · exact (hearly _ hphase (.inl rfl)).elim
    · exact (hearly _ hphase (.inr (.inl rfl))).elim
  | deleteNull hphase | delete hphase => exact (hearly _ hphase (.inr (.inr (.inl rfl)))).elim
  | clear hphase => exact (hearly _ hphase (.inr (.inr (.inr rfl)))).elim
  | throw => exact absurd rfl hcounts
  | fail hinside => exact ⟨h.go (.inl hinside) rfl (.inr rfl), fun _ _ _ hj => hj⟩

theorem inOrder_of_reachable (hmode : cfg.dagLoadMode = .sequential) (hmany : cfg.instances ≠ 1)
    (h : (system cfg).Reachable (LoadsOnce cfg) s) :
    ∀ i m, s.locals[i]? = some m → InOrder s.shared i m := by
  refine Threads.forall_locals h (fun i hi => ?_) fun s i a m g m' hm hC hI hact => ?_
  · have := instances_lt cfg
    refine ⟨⟨nofun, nofun⟩, ?_, fun hne => absurd rfl hne, .inl rfl, by omega⟩
    rintro (hinside | hcount)
    · cases hinside
    · cases hcount
  · rcases hC with hone | ⟨hengine, hcounts, honce⟩
    · exact absurd hone hmany
    · obtain ⟨hown, hothers⟩ :=
        inOrder_step hmode hI hcounts (honce m hm) (goes_of_act hengine hact)
      exact ⟨hown, fun j n hne _ hj => hothers j n hne hj⟩

/-- If there is one miner, or the miners are CUDA miners that find their devices and none that has loaded
a DAG gets a work of another epoch, the DAG is loaded by one miner after the other. -/
theorem sequential_of_loadsOnce {cfg : Config} (hmode : cfg.dagLoadMode = .sequential) {s : State}
    (h : (system cfg).Reachable (LoadsOnce cfg) s) : Sequential s := by
  have hlength := Threads.length_locals h
  have hlt {i : Nat} {m : Miner} (hm : s.locals[i]? = some m) : i < cfg.instances := by
    obtain ⟨hi, _⟩ := List.getElem?_eq_some_iff.mp hm
    rw [hlength] at hi
    exact hi
  by_cases hmany : cfg.instances = 1
  · refine ⟨fun i j m m' hm hm' _ _ => ?_, fun i m hm _ _ => ?_⟩
    · have := hlt hm
      have := hlt hm'
      omega
    · have := hlt hm
      rw [Shared.waits]
      omega
  · have horder := inOrder_of_reachable hmode hmany h
    refine ⟨fun i j m m' hm hm' hin hin' => ?_, fun i m hm _ hfinished => ?_⟩
    · rw [(horder i m hm).next (.inl hin), (horder j m' hm').next (.inl hin')]
    · -- the miner before this one is counted
      rw [Shared.waits]
      intro hwaits
      have hi := hlt hm
      have hbelow : s.shared.dagLoadIndex.toNat < s.locals.length := by omega
      have hloaded := (hfinished _ _ hwaits (List.getElem?_eq_getElem hbelow)).2.1
      have := (horder _ _ (List.getElem?_eq_getElem hbelow)).counted.mp hloaded
      omega

/-! ### Two miners -/

/-- Two miners of an engine, on a device each. -/
def twoMiners (engine : Engine) (dagLoadMode : LoadMode) : Config where
  engine
  dagLoadMode
  numInstances := 2
  numDevices := 2

/-- The first of two CUDA miners loads the DAG while the second one waits. -/
theorem sequential_of_loadsOnce_waiting :
    ∃ s : State, s.locals.map Miner.phase = [.generating, .turn] ∧ Sequential s := by
  have hmeets : (system (twoMiners .cuda .sequential)).Meets
      (LoadsOnce (twoMiners .cuda .sequential)) ⟨{}, [{}, {}]⟩
      [(1, .work 1), (0, .work 1), (0, .go), (0, .go), (0, .go)] := by
    decide +kernel
  obtain ⟨s, hsteps, hs⟩ := steps_of_endsIn
    (p := fun s : State => decide (s.locals.map Miner.phase = [.generating, .turn])) hmeets
    (by decide +kernel)
  exact ⟨s, of_decide_eq_true hs, sequential_of_loadsOnce rfl ⟨_, rfl, hsteps⟩⟩

theorem not_sequential (h : s.locals.map Miner.inside = [true, true]) : ¬ Sequential s := by
  intro hsequential
  obtain ⟨m, rest, hlocals, hm, hrest⟩ := List.map_eq_cons_iff.mp h
  obtain ⟨m', rest', rfl, hm', _⟩ := List.map_eq_cons_iff.mp hrest
  have hfirst : s.locals[0]? = some m := by rw [hlocals]; rfl
  have hsecond : s.locals[1]? = some m' := by rw [hlocals]; rfl
  exact absurd (hsequential.alone 0 1 m m' hfirst hsecond hm hm') (by decide)

/-- Two OpenCL miners load their first DAG at the same time, and so do two CUDA miners with the DAG of
the second epoch. -/
theorem load_together :
    (∃ s, (system (twoMiners .openCL .sequential)).Reachable (fun _ _ => True) s ∧ ¬ Sequential s) ∧
      ∃ s, (system (twoMiners .cuda .sequential)).Reachable (fun _ _ => True) s ∧
        ¬ Sequential s := by
  constructor
  · have hmeets : (system (twoMiners .openCL .sequential)).Meets (fun _ _ => True) ⟨{}, [{}, {}]⟩
        [(0, .work 1), (0, .go), (0, .go), (1, .work 1), (1, .go), (1, .go)] := meets_true ..
    obtain ⟨s, hsteps, hs⟩ := steps_of_endsIn
      (p := fun s : State => decide (s.locals.map Miner.inside = [true, true])) hmeets
      (by decide +kernel)
    exact ⟨s, ⟨_, rfl, hsteps⟩, not_sequential (of_decide_eq_true hs)⟩
  · have hmeets : (system (twoMiners .cuda .sequential)).Meets (fun _ _ => True) ⟨{}, [{}, {}]⟩
        [(0, .work 1), (0, .go), (0, .go), (0, .go), (0, .go), (0, .go),
          (1, .work 1), (1, .go), (1, .go), (1, .go), (1, .go), (1, .go),
          (0, .work 7200), (0, .go), (1, .work 7200), (1, .go)] := meets_true ..
    obtain ⟨s, hsteps, hs⟩ := steps_of_endsIn
      (p := fun s : State => decide (s.locals.map Miner.inside = [true, true])) hmeets
      (by decide +kernel)
    exact ⟨s, ⟨_, rfl, hsteps⟩, not_sequential (of_decide_eq_true hs)⟩

/-- The second of two miners waits although the first one is done with the epoch. -/
def Held (s : State) : Prop :=
  ∃ m ∈ s.locals[1]?, m.phase = .turn ∧ s.shared.waits 1 ∧ ∀ m' ∈ s.locals[0]?, m'.finished m.epoch

instance (s : State) : Decidable (Held s) :=
  inferInstanceAs (Decidable (∃ m ∈ s.locals[1]?, _ ∧ _ ∧ ∀ m' ∈ s.locals[0]?, _ ∧ _ ∧ _))

/-- A miner whose call of `getNumDevices()` throws is not counted, and the next one waits for ever. -/
theorem waits_after_throw :
    ∃ s, (system (twoMiners .cuda .sequential)).Reachable (fun _ e => e.2 ≠ .fail) s ∧
      ¬ Sequential s := by
  have hmeets : (system (twoMiners .cuda .sequential)).Meets (fun _ e => e.2 ≠ .fail)
      ⟨{}, [{}, {}]⟩ [(1, .work 1), (0, .work 1), (0, .go), (0, .throw)] :=
    meets_of_forall (D := fun e : Nat × Action => e.2 ≠ .fail) (by decide) _
  obtain ⟨s, hsteps, hs⟩ := steps_of_endsIn (p := fun s : State => decide (Held s)) hmeets
    (by decide +kernel)
  refine ⟨s, ⟨_, rfl, hsteps⟩, fun hsequential => ?_⟩
  obtain ⟨m, hm, hphase, hwaits, hfinished⟩ := of_decide_eq_true hs
  refine hsequential.released 1 m hm hphase (fun j m' hj hm' => ?_) hwaits
  obtain rfl : j = 0 := by omega
  exact hfinished m' hm'

end Energiminer.Engines.DagLoad
