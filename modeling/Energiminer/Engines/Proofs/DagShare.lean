import Energiminer.Engines.Proofs.DagLoad

/-!
# One DAG for all devices

The single mode in runs over works of one epoch. The proof annotates every point of the code with what
the thread knows there (`At`), and shows that no step of another thread takes it away. What makes it
work is that the copy in host memory is freed, and the pointer to it cleared, only when every device
was counted.
-/

namespace Energiminer.Engines.DagLoad
open Misc Machine Nrghash

variable {cfg : Config} {i epoch : Nat} {g g' : Shared} {m m' : Miner} {a : Action} {s : State}

/-- The action is not a failure, and if it takes a work, then one of the epoch. -/
def Action.within (epoch : Nat) : Action → Bool
  | .work height => height.toNat / EPOCH_LENGTH == epoch
  | .go => true
  | .fail | .throw => false

/-- Every device was counted. -/
def Full (cfg : Config) (g : Shared) : Prop := cfg.instances ≤ g.dagLoadIndex.toNat

/-- The device was counted by `s_dagLoadIndex++`. -/
def Miner.counted (m : Miner) : Bool :=
  match m.phase with
  | .mining => m.dagLoaded
  | .freeTest | .hostLeft | .delete | .clear => true
  | _ => false

/-- The device loads its first DAG. -/
structure Miner.Loading (epoch : Nat) (m : Miner) : Prop where
  unloaded : m.dagLoaded = false
  current : m.epoch = epoch
  fresh : m.dagSize = 0

/-- The DAG is in the memory of the device. -/
structure Miner.Loaded (epoch : Nat) (m : Miner) : Prop where
  current : m.epoch = epoch
  loaded : epoch ∈ m.loaded

/-- What the thread of a device knows at each point of the code. -/
def At (cfg : Config) (epoch : Nat) (g : Shared) (m : Miner) : Prop :=
  match m.phase with
  | .mining =>
    m.dagLoaded = false ∧ m.dagSize = 0 ∨
      m.dagLoaded = true ∧ m.lastHeight.toNat / EPOCH_LENGTH = epoch ∧ epoch ∈ m.loaded
  | .turn => False
  | .init | .hostTest | .generating | .hostWait => m.Loading epoch
  | .hostRead => m.Loading epoch ∧ g.dagInHostMemory ≠ none
  | .copying block => m.Loading epoch ∧ g.heap[block]? = some ⟨epoch, true⟩
  | .count | .freeTest => m.Loaded epoch
  | .hostLeft | .delete | .clear => m.Loaded epoch ∧ Full cfg g

/-- The copies in host memory are of the epoch, and are freed when every device was counted. -/
structure Copies (cfg : Config) (epoch : Nat) (g : Shared) : Prop where
  epoch_eq : ∀ (block : Nat) (b : Block), g.heap[block]? = some b → b.epoch = epoch
  freed : ∀ (block : Nat) (b : Block), g.heap[block]? = some b → b.live = false → Full cfg g
  host : ∀ block, g.dagInHostMemory = some block → block < g.heap.length

/-- What a step does to the state that the devices share. -/
inductive Touches (g : Shared) (m : Miner) : Shared → Prop
  | none : Touches g m g
  | count (hphase : m.phase = .count) : Touches g m g.count
  | publish (hphase : m.phase = .generating) : Touches g m (g.publish m.epoch)
  | free {block : Nat} {epoch : Nat} (hphase : m.phase = .delete)
      (hblock : g.heap[block]? = some ⟨epoch, true⟩) :
      Touches g m { g with heap := g.heap.set block ⟨epoch, false⟩ }
  | clear (hphase : m.phase = .clear) : Touches g m { g with dagInHostMemory := Option.none }

theorem touches_of_goes (h : Goes cfg i g m a g' m') : Touches g m g' := by
  cases h with
  | publish hphase => exact .publish hphase
  | count hphase | finish hphase => exact .count hphase
  | delete hphase _ hblock => exact .free hphase hblock
  | clear hphase => exact .clear hphase
  | queue | enter | stay | turn | reset | keep | found | create | await | generate | read | readNull
  | copy | last | free | leave | deleteNull | fail | throw => exact .none

theorem Full.touched (h : Full cfg g) (hbound : m.phase = .count → g.dagLoadIndex.toNat + 1 < 2 ^ 32)
    (htouches : Touches g m g') : Full cfg g' := by
  cases htouches with
  | count hphase =>
    rw [Full] at h ⊢
    rw [toNat_count (hbound hphase)]
    omega
  | none | publish | free | clear => exact h

/-! ## The annotations -/

/-- A work of the epoch makes only a device without a DAG load one. -/
theorem unloaded_of_needsDag {height : BitVec 32} (hphase : m.phase = .mining)
    (hat : At cfg epoch g m) (hin : (Action.work height).within epoch = true)
    (hneeds : m.needsDag height = true) : m.dagLoaded = false ∧ m.dagSize = 0 := by
  rw [At, hphase] at hat
  rcases hat with hnew | ⟨hloaded, hlast, _⟩
  · exact hnew
  · rw [Action.within, beq_iff_eq] at hin
    simp [Miner.needsDag, hloaded, hlast, hin] at hneeds

theorem Miner.Loading.inside_load (h : m.Loading epoch) : (m.load m.epoch).Loaded epoch := by
  refine ⟨h.current, ?_⟩
  rw [Miner.load, h.current]
  exact List.mem_cons_self

theorem Miner.Loaded.finish (h : m.Loaded epoch) :
    m.finish.dagLoaded = true ∧ m.finish.lastHeight.toNat / EPOCH_LENGTH = epoch ∧
      epoch ∈ m.finish.loaded := by
  refine ⟨rfl, ?_, h.loaded⟩
  have hcurrent := h.current
  rw [Miner.epoch] at hcurrent
  rw [Miner.finish, BitVec.toNat_setWidth_of_le (by decide), hcurrent]

theorem At.loaded_of_counted (hat : At cfg epoch g m) (hcounted : m.counted = true) :
    epoch ∈ m.loaded := by
  cases hphase : m.phase with
  | mining =>
    rw [Miner.counted, hphase] at hcounted
    rw [At, hphase] at hat
    rcases hat with ⟨hunloaded, _⟩ | ⟨_, _, hmem⟩
    · exact absurd (hcounted.symm.trans hunloaded) (by decide)
    · exact hmem
  | freeTest =>
    rw [At, hphase] at hat
    exact hat.loaded
  | hostLeft | delete | clear =>
    rw [At, hphase] at hat
    exact hat.1.loaded
  | turn | init | hostTest | generating | hostWait | hostRead | copying | count =>
    rw [Miner.counted, hphase] at hcounted
    cases hcounted

/-- A step takes its thread to a point whose annotation holds. -/
theorem at_own (hmode : cfg.dagLoadMode = .single) (hat : At cfg epoch g m)
    (hcopies : Copies cfg epoch g) (hin : a.within epoch = true)
    (hopen : m.counted = false → ¬ Full cfg g)
    (hlast : m.phase = .freeTest → cfg.numInstances ≤ g.dagLoadIndex → Full cfg g)
    (hgoes : Goes cfg i g m a g' m') : At cfg epoch g' m' := by
  cases hgoes with
  | queue _ _ hmode' => exact absurd (hmode.symm.trans hmode') (by decide)
  | enter hphase hneeds =>
    obtain ⟨hunloaded, hfresh⟩ := unloaded_of_needsDag hphase hat hin hneeds
    rw [Action.within, beq_iff_eq] at hin
    exact ⟨hunloaded, hin, hfresh⟩
  | stay hphase hneeds =>
    rw [At, hphase] at hat
    rw [At]
    dsimp only
    rw [hphase]
    rcases hat with ⟨hunloaded, _⟩ | ⟨hloaded, _, hmem⟩
    · simp [Miner.needsDag, hunloaded] at hneeds
    · refine .inr ⟨hloaded, ?_, hmem⟩
      rw [Action.within, beq_iff_eq] at hin
      rw [BitVec.toNat_setWidth_of_le (by decide), hin]
  | turn hphase =>
    rw [At, hphase] at hat
    exact hat.elim
  | reset hphase | create hphase | await hphase =>
    rw [At, hphase] at hat
    exact ⟨hat.unloaded, hat.current, hat.fresh⟩
  | keep hphase hitems =>
    rw [At, hphase] at hat
    exact absurd (hitems.trans hat.fresh) (Cuda.Miner.dagItems_ne_zero _)
  | found hphase hhost =>
    have hloading : m.Loading epoch := by
      rcases hphase with hphase | hphase
      · rw [At, hphase] at hat
        exact hat
      · rw [At, hphase] at hat
        exact hat
    refine ⟨⟨hloading.unloaded, hloading.current, hloading.fresh⟩, ?_⟩
    rw [hhost]
    exact Option.some_ne_none _
  | publish hphase =>
    rw [At, hphase] at hat
    exact ⟨hat.current, hat.inside_load.loaded⟩
  | generate _ hmode' | finish _ hmode' => exact absurd hmode hmode'
  | read hphase hhost =>
    rw [At, hphase] at hat
    refine ⟨⟨hat.1.unloaded, hat.1.current, hat.1.fresh⟩, ?_⟩
    -- the copy is there, because this device has not been counted
    obtain ⟨b, hblock⟩ : ∃ b : Block, _ = some b :=
      ⟨_, List.getElem?_eq_getElem (hcopies.host _ hhost)⟩
    have hlive := mt (hcopies.freed _ b hblock) (hopen (by rw [Miner.counted, hphase]))
    rw [Bool.not_eq_false] at hlive
    rw [hblock, ← hcopies.epoch_eq _ b hblock, ← hlive]
  | readNull hphase hhost =>
    rw [At, hphase] at hat
    exact absurd hhost hat.2
  | copy hphase hblock =>
    rw [At, hphase] at hat
    cases Option.some.inj (hblock.symm.trans hat.2)
    exact ⟨hat.1.current, List.mem_cons_self⟩
  | count hphase =>
    rw [At, hphase] at hat
    exact ⟨hat.current, hat.loaded⟩
  | last hphase hall =>
    rw [At, hphase] at hat
    exact ⟨⟨hat.current, hat.loaded⟩, hlast hphase hall⟩
  | leave hphase =>
    rcases hphase with hphase | hphase
    · rw [At, hphase] at hat
      exact .inr hat.finish
    · rw [At, hphase] at hat
      exact .inr hat.1.finish
  | free hphase | deleteNull hphase | delete hphase =>
    rw [At, hphase] at hat
    exact ⟨⟨hat.1.current, hat.1.loaded⟩, hat.2⟩
  | clear hphase =>
    rw [At, hphase] at hat
    exact .inr hat.1.finish
  | fail | throw => cases hin

/-- No step of a thread takes away what another one knows. -/
theorem at_other {n : Miner} (hat : At cfg epoch g n) (hactor : At cfg epoch g m)
    (hopen : n.counted = false → ¬ Full cfg g)
    (hbound : m.phase = .count → g.dagLoadIndex.toNat + 1 < 2 ^ 32)
    (htouches : Touches g m g') : At cfg epoch g' n := by
  -- a device that frees the copy or clears the pointer knows that all devices were counted
  have hfull : m.phase = .delete ∨ m.phase = .clear → Full cfg g := by
    rintro (hphase | hphase)
    · rw [At, hphase] at hactor
      exact hactor.2
    · rw [At, hphase] at hactor
      exact hactor.2
  cases hphase : n.phase with
  | mining | turn | init | hostTest | generating | hostWait | count | freeTest =>
    rw [At, hphase] at hat ⊢
    exact hat
  | hostRead =>
    have hnot := hopen (by rw [Miner.counted, hphase])
    rw [At, hphase] at hat ⊢
    refine ⟨hat.1, ?_⟩
    cases htouches with
    | none | count | free => exact hat.2
    | publish => exact Option.some_ne_none _
    | clear hclear => exact absurd (hfull (.inr hclear)) hnot
  | copying block =>
    have hnot := hopen (by rw [Miner.counted, hphase])
    rw [At, hphase] at hat ⊢
    refine ⟨hat.1, ?_⟩
    cases htouches with
    | none | count | clear => exact hat.2
    | publish =>
      rw [Shared.publish, List.getElem?_append_left]
      · exact hat.2
      · exact (List.getElem?_eq_some_iff.mp hat.2).1
    | free hdelete => exact absurd (hfull (.inl hdelete)) hnot
  | hostLeft | delete | clear =>
    rw [At, hphase] at hat ⊢
    exact ⟨hat.1, hat.2.touched hbound htouches⟩

/-! ## The copies -/

theorem copies_step (hcopies : Copies cfg epoch g) (hat : At cfg epoch g m)
    (hbound : m.phase = .count → g.dagLoadIndex.toNat + 1 < 2 ^ 32)
    (htouches : Touches g m g') : Copies cfg epoch g' := by
  have hfull := fun h : Full cfg g => h.touched hbound htouches
  cases htouches with
  | none => exact hcopies
  | count =>
    exact ⟨hcopies.epoch_eq, fun block b hb hlive => hfull (hcopies.freed block b hb hlive),
      hcopies.host⟩
  | publish hphase =>
    rw [At, hphase] at hat
    have hblock (block : Nat) (b : Block) (hb : (g.publish m.epoch).heap[block]? = some b) :
        g.heap[block]? = some b ∨ b = ⟨m.epoch, true⟩ := by
      rw [Shared.publish, List.getElem?_append] at hb
      split at hb
      · exact .inl hb
      · exact .inr (List.mem_singleton.mp (List.mem_of_getElem? hb))
    refine ⟨fun block b hb => ?_, fun block b hb hlive => ?_, fun block hhost => ?_⟩
    · rcases hblock block b hb with hold | rfl
      · exact hcopies.epoch_eq block b hold
      · exact hat.current
    · rcases hblock block b hb with hold | rfl
      · exact hcopies.freed block b hold hlive
      · cases hlive
    · cases hhost
      rw [Shared.publish, List.length_append]
      exact Nat.lt_succ_self _
  | free hphase hlive =>
    rw [At, hphase] at hat
    refine ⟨fun block b hb => ?_, fun _ _ _ _ => hat.2, fun block hhost => ?_⟩
    · obtain ⟨_, rfl⟩ | ⟨_, hold⟩ := Threads.getElem?_set_eq_some hb
      · exact hcopies.epoch_eq _ ⟨_, true⟩ hlive
      · exact hcopies.epoch_eq block b hold
    · rw [List.length_set]
      exact hcopies.host block hhost
  | clear => exact ⟨hcopies.epoch_eq, hcopies.freed, nofun⟩

/-! ## The count -/

theorem index_step (hmode : cfg.dagLoadMode = .single) (hat : At cfg epoch g m)
    (hin : a.within epoch = true)
    (hbound : m.phase = .count → g.dagLoadIndex.toNat + 1 < 2 ^ 32)
    (hgoes : Goes cfg i g m a g' m') :
    g'.dagLoadIndex.toNat + m.counted.toNat = g.dagLoadIndex.toNat + m'.counted.toNat := by
  cases hgoes with
  | queue _ _ hmode' => exact absurd (hmode.symm.trans hmode') (by decide)
  | enter hphase hneeds =>
    have hunloaded := (unloaded_of_needsDag hphase hat hin hneeds).1
    rw [Miner.counted, hphase, Miner.counted]
    dsimp only
    rw [hunloaded]
  | stay => rw [Miner.counted, Miner.counted]
  | turn hphase | reset hphase | keep hphase | create hphase | await hphase | publish hphase
  | read hphase | readNull hphase | copy hphase | last hphase | free hphase | deleteNull hphase
  | delete hphase | clear hphase => rw [Miner.counted, hphase]; rfl
  | found hphase | leave hphase =>
    rcases hphase with hphase | hphase
    · rw [Miner.counted, hphase]
      rfl
    · rw [Miner.counted, hphase]
      rfl
  | generate _ hmode' | finish _ hmode' => exact absurd hmode hmode'
  | count hphase =>
    rw [toNat_count (hbound hphase), Miner.counted, hphase]
    rfl
  | fail | throw => cases hin

/-! ## The device that makes the copy -/

/-- While there is no copy, the device that is to make it goes on to make it. -/
theorem producing_step (hmode : cfg.dagLoadMode = .single) (hat : At cfg epoch g m)
    (hin : a.within epoch = true) (hcreator : cfg.deviceNum i = cfg.dagCreateDevice)
    (hhost : g.dagInHostMemory = none) (hhost' : g'.dagInHostMemory = none)
    (hproducing : m.producing epoch = true) (hgoes : Goes cfg i g m a g' m') :
    m'.producing epoch = true := by
  cases hgoes with
  | queue _ _ hmode' => exact absurd (hmode.symm.trans hmode') (by decide)
  | enter => exact hin
  | stay hphase hneeds =>
    rw [Miner.producing, hphase] at hproducing
    rw [At, hphase] at hat
    rcases hat with ⟨hunloaded, _⟩ | ⟨hloaded, hlast, _⟩
    · simp [Miner.needsDag, hunloaded] at hneeds
    · simp [hloaded, hlast] at hproducing
  | turn hphase | reset hphase | create hphase =>
    rw [Miner.producing, hphase] at hproducing
    exact hproducing
  | keep hphase hitems =>
    rw [At, hphase] at hat
    exact absurd (hitems.trans hat.fresh) (Cuda.Miner.dagItems_ne_zero _)
  | found _ hfound => exact absurd (hhost.symm.trans hfound) nofun
  | await _ _ _ hother => exact absurd hcreator hother
  | publish => cases hhost'
  | generate _ hmode' => exact absurd hmode hmode'
  | read hphase | readNull hphase | copy hphase | count hphase | finish hphase | last hphase
  | free hphase | deleteNull hphase | delete hphase | clear hphase =>
    rw [Miner.producing, hphase] at hproducing
    cases hproducing
  | leave hphase =>
    rcases hphase with hphase | hphase
    · rw [Miner.producing, hphase] at hproducing
      cases hproducing
    · rw [Miner.producing, hphase] at hproducing
      cases hproducing
  | fail | throw => cases hin

/-! ## Runs -/

/-- What holds in every state of a run over works of one epoch. -/
structure Sharing (cfg : Config) (epoch : Nat) (s : State) : Prop where
  length : s.locals.length = cfg.instances
  index : s.shared.dagLoadIndex.toNat = s.locals.countP Miner.counted
  points : ∀ (i : Nat) (m : Miner), s.locals[i]? = some m → At cfg epoch s.shared m
  copies : Copies cfg epoch s.shared
  produced : s.shared.dagInHostMemory = none → Full cfg s.shared ∨
    ∃ (j : Nat) (m : Miner), s.locals[j]? = some m ∧ cfg.deviceNum j = cfg.dagCreateDevice ∧
      m.producing epoch = true

theorem Sharing.not_full (h : Sharing cfg epoch s) (hm : s.locals[i]? = some m)
    (hcounted : m.counted = false) : ¬ Full cfg s.shared := by
  have := Threads.countP_lt_length hm hcounted
  rw [Full, h.index, ← h.length]
  omega

theorem Sharing.counted (h : Sharing cfg epoch s) (hfull : Full cfg s.shared)
    (hm : s.locals[i]? = some m) : m.counted = true := by
  by_contra hcounted
  exact h.not_full hm (Bool.eq_false_iff.mpr hcounted) hfull

theorem Sharing.bound (h : Sharing cfg epoch s) (hm : s.locals[i]? = some m)
    (hphase : m.phase = .count) : s.shared.dagLoadIndex.toNat + 1 < 2 ^ 32 := by
  have hnot := h.not_full hm (by rw [Miner.counted, hphase])
  have := instances_lt cfg
  rw [Full] at hnot
  omega

/-- The test before the copy is freed: with `s_numInstances` at zero, there is one device. -/
theorem Sharing.full_of_test (h : Sharing cfg epoch s) (hm : s.locals[i]? = some m)
    (hphase : m.phase = .freeTest) (hall : cfg.numInstances ≤ s.shared.dagLoadIndex) :
    Full cfg s.shared := by
  rw [Full, Config.instances]
  split
  · rw [h.index]
    exact List.countP_pos_iff.mpr ⟨m, List.mem_of_getElem? hm, by rw [Miner.counted, hphase]⟩
  · exact hall

theorem sharing_step (hengine : cfg.engine = .cuda) (hmode : cfg.dagLoadMode = .single)
    (h : Sharing cfg epoch s) (hin : a.within epoch = true) (hm : s.locals[i]? = some m)
    (hact : act cfg i a s.shared m = some (.ok (g', m'))) :
    Sharing cfg epoch ⟨g', s.locals.set i m'⟩ := by
  have hgoes := goes_of_act hengine hact
  have htouches := touches_of_goes hgoes
  have hat := h.points i m hm
  have hbound := h.bound hm
  refine ⟨?_, ?_, fun j n hn => ?_, copies_step h.copies hat hbound htouches, fun hhost' => ?_⟩
  · rw [List.length_set, h.length]
  · have hindex := index_step hmode hat hin hbound hgoes
    have hcount : (s.locals.set i m').countP Miner.counted + m.counted.toNat =
        s.locals.countP Miner.counted + m'.counted.toNat := Threads.countP_set_add hm
    have := h.index
    dsimp only
    omega
  · obtain ⟨rfl, rfl⟩ | ⟨_, hold⟩ := Threads.getElem?_set_eq_some hn
    · exact at_own hmode hat h.copies hin (h.not_full hm) (h.full_of_test hm) hgoes
    · exact at_other (h.points j n hold) hat (h.not_full hold) hbound htouches
  · by_cases hfull : Full cfg s.shared
    · exact .inl (hfull.touched hbound htouches)
    have hhost : s.shared.dagInHostMemory = none := by
      cases htouches with
      | none | count | free => exact hhost'
      | publish => cases hhost'
      | clear hphase =>
        rw [At, hphase] at hat
        exact absurd hat.2 hfull
    obtain ⟨j, n, hn, hcreator, hproducing⟩ := (h.produced hhost).resolve_left hfull
    right
    by_cases hji : j = i
    · subst hji
      cases Option.some.inj (hn.symm.trans hm)
      refine ⟨j, m', List.getElem?_set_self (List.getElem?_eq_some_iff.mp hm).1, hcreator, ?_⟩
      exact producing_step hmode hat hin hcreator hhost hhost' hproducing hgoes
    · refine ⟨j, n, ?_, hcreator, hproducing⟩
      rw [List.getElem?_set_ne (Ne.symm hji)]
      exact hn

theorem sharing_of_reachable (hengine : cfg.engine = .cuda) (hmode : cfg.dagLoadMode = .single)
    (hcreator : ∃ i < cfg.instances, cfg.deviceNum i = cfg.dagCreateDevice)
    (h : (system cfg).Reachable (fun _ e => e.2.within epoch = true) s) : Sharing cfg epoch s := by
  refine h.invariant ?_ ?_
  · rintro s rfl
    refine ⟨List.length_replicate, ?_, fun i m hm => ?_, ⟨nofun, nofun, nofun⟩, fun _ => .inr ?_⟩
    · rw [List.countP_replicate]
      rfl
    · cases List.eq_of_mem_replicate (List.mem_of_getElem? hm)
      exact .inl ⟨rfl, rfl⟩
    · obtain ⟨i, hi, hdevice⟩ := hcreator
      refine ⟨i, {}, ?_, hdevice, rfl⟩
      rw [List.getElem?_replicate, if_pos hi]
  · rintro s ⟨i, a⟩ t hsharing hin hstep
    obtain ⟨m, g', m', hm, hact, rfl⟩ := Threads.system_step_eq_ok hstep
    exact sharing_step hengine hmode hsharing hin hm hact

/-- In runs over works of one epoch in which no initialisation fails, and with a device that makes the
copy, the CUDA devices share the DAG. -/
theorem shares_of_within {cfg : Config} (hengine : cfg.engine = .cuda)
    (hmode : cfg.dagLoadMode = .single)
    (hcreator : ∃ i < cfg.instances, cfg.deviceNum i = cfg.dagCreateDevice) (epoch : Nat) {s : State}
    (h : (system cfg).Reachable (fun _ e => e.2.within epoch = true) s) : Shares cfg s := by
  have hsharing := sharing_of_reachable hengine hmode hcreator h
  refine ⟨fun i m block b hm hphase _ hb j n hn => ?_, fun i m block hm hphase => ?_,
    fun i m hm hphase hhost => ?_⟩
  · have hat := hsharing.points i m hm
    rw [At, hphase] at hat
    rw [hsharing.copies.epoch_eq block b hb]
    exact (hsharing.points j n hn).loaded_of_counted (hsharing.counted hat.2 hn)
  · have hat := hsharing.points i m hm
    rw [At, hphase] at hat
    rw [hat.1.current]
    exact hat.2
  · have hat := hsharing.points i m hm
    rw [At, hphase] at hat
    have hnot := hsharing.not_full hm (by rw [Miner.counted, hphase])
    rw [hat.current]
    exact (hsharing.produced hhost).resolve_left hnot

/-- The second device copies the DAG that the first one has made. -/
theorem shares_of_within_copying :
    ∃ s : State, s.locals.map Miner.phase = [.count, .copying 0] ∧
      Shares (twoMiners .cuda .single) s := by
  have hmeets : (system (twoMiners .cuda .single)).Meets (fun _ e => e.2.within 0 = true)
      ⟨{}, [{}, {}]⟩
      [(1, .work 1), (1, .go), (1, .go), (0, .work 1), (0, .go), (0, .go), (0, .go), (1, .go),
        (1, .go)] :=
    meets_of_forall (D := fun e : Nat × Action => e.2.within 0 = true) (by decide) _
  obtain ⟨s, hsteps, hs⟩ := steps_of_endsIn
    (p := fun s : State => decide (s.locals.map Miner.phase = [.count, .copying 0])) hmeets
    (by decide +kernel)
  exact ⟨s, of_decide_eq_true hs,
    shares_of_within rfl rfl ⟨0, by decide, by decide⟩ 0 ⟨_, rfl, hsteps⟩⟩

/-- A device waits for a copy that no device is going to make. -/
def Starves (s : State) : Prop :=
  ∃ m ∈ s.locals, m.phase = .hostWait ∧ s.shared.dagInHostMemory = none ∧
    ∀ n ∈ s.locals, n.producing m.epoch = false

instance (s : State) : Decidable (Starves s) :=
  inferInstanceAs (Decidable (∃ m ∈ s.locals, _ ∧ _ ∧ ∀ n ∈ s.locals, _))

theorem not_shares (h : Starves s) : ¬ Shares cfg s := by
  intro hshares
  obtain ⟨m, hm, hphase, hhost, hnone⟩ := h
  obtain ⟨i, hi⟩ := List.mem_iff_getElem?.mp hm
  obtain ⟨j, n, hn, _, hproducing⟩ := hshares.produced i m hi hphase hhost
  rw [hnone n (List.mem_of_getElem? hn)] at hproducing
  cases hproducing

/-- Both devices have loaded the DAG of the first epoch. -/
def afterFirstEpoch : State where
  shared := { dagLoadIndex := 2, heap := [⟨0, false⟩] }
  locals := List.replicate 2
    { dagLoaded := true, lastHeight := 1, height := 1, dag := true, dagSize := 20316151, loaded := [0] }

def Miner.fields (m : Miner) :=
  ((m.phase, m.dagLoaded, m.lastHeight, m.height), m.dag, m.dagSize, m.loaded)

theorem fields_injective : Function.Injective Miner.fields := by
  rintro ⟨⟩ ⟨⟩ h
  cases h
  rfl

theorem steps_afterFirstEpoch :
    (system (twoMiners .cuda .single)).Steps (fun _ e => e.2.fails = false) ⟨{}, [{}, {}]⟩
      afterFirstEpoch := by
  have hmeets : (system (twoMiners .cuda .single)).Meets (fun _ e => e.2.fails = false) ⟨{}, [{}, {}]⟩
      [(0, .work 1), (0, .go), (0, .go), (0, .go), (0, .go), (0, .go),
        (1, .work 1), (1, .go), (1, .go), (1, .go), (1, .go), (1, .go), (1, .go), (1, .go),
        (1, .go), (1, .go)] :=
    meets_of_forall (D := fun e : Nat × Action => e.2.fails = false) (by decide) _
  obtain ⟨⟨shared, locals⟩, hsteps, hs⟩ := steps_of_endsIn
    (p := fun s : State => decide (s.shared = afterFirstEpoch.shared ∧
      s.locals.map Miner.fields = afterFirstEpoch.locals.map Miner.fields))
    hmeets (by decide +kernel)
  obtain ⟨rfl, hlocals⟩ := of_decide_eq_true hs
  cases fields_injective.list_map hlocals
  exact hsteps

/-- After an epoch in which both devices have loaded the DAG, the first one frees the copy of the next
epoch before the second one has seen it. -/
theorem starves_in_second_epoch :
    ∃ s, (system (twoMiners .cuda .single)).Reachable (fun _ e => e.2.fails = false) s ∧
      ¬ Shares (twoMiners .cuda .single) s := by
  have hmeets : (system (twoMiners .cuda .single)).Meets (fun _ e => e.2.fails = false) afterFirstEpoch
      [(1, .work 7200), (1, .go), (1, .go),
        (0, .work 7200), (0, .go), (0, .go), (0, .go), (0, .go), (0, .go), (0, .go), (0, .go),
        (0, .go)] :=
    meets_of_forall (D := fun e : Nat × Action => e.2.fails = false) (by decide) _
  obtain ⟨s, hsteps, hs⟩ := steps_of_endsIn (p := fun s : State => decide (Starves s)) hmeets
    (by decide +kernel)
  exact ⟨s, ⟨_, rfl, steps_afterFirstEpoch.trans hsteps⟩, not_shares (of_decide_eq_true hs)⟩

end Energiminer.Engines.DagLoad
