import Energiminer.Nrghash.Proofs.DagFile
import Energiminer.Nrghash.Registries

/-!
# Coherent registries

Every point of the code is annotated with what its thread knows there (`At`). Objects stay where they
are, so other threads cannot take it away, and each object is put under the epoch it was made for. The
rows of a DAG that is generated are counted in 32 bits, those of a DAG that is loaded in 64; and the
sizes of a file are checked for a block number that may have wrapped around.
-/

namespace Energiminer.Nrghash.Registries
open Misc Machine

variable {K : KeccakFns} {g g' : Shared} {l l' : Local} {block : BitVec 64} {s : State}

/-! ## New objects -/

theorem cacheOf_generate (K : KeccakFns) (h : getCacheSize block.toNat < 2 ^ 38) :
    CacheOf (epochOf block) (Cache.generate K block.toNat) := by
  refine ⟨rfl, ⟨block, rfl, rfl⟩, ?_⟩
  have hodd := getCacheSize_odd block.toNat
  have hrows : u32 (getCacheSize block.toNat / HASH_BYTES) = getCacheSize block.toNat / HASH_BYTES := by
    rw [HASH_BYTES]
    exact Nat.mod_eq_of_lt (by omega)
  have hpos : 0 < u32 (getCacheSize block.toNat / HASH_BYTES) := by
    rw [hrows, HASH_BYTES]
    omega
  exact (size_mkcache K (getSeedhash K block.toNat) hpos).trans hrows

theorem dagOf_generate (K : KeccakFns) (cache : Cache) (h : getFullSize block.toNat < 2 ^ 38) :
    DagOf (epochOf block) (Dag.generate K block.toNat cache) := by
  refine ⟨rfl, ⟨block, rfl, rfl⟩, ?_⟩
  have hrows : u32 (getFullSize block.toNat / HASH_BYTES) = getFullSize block.toNat / HASH_BYTES := by
    rw [HASH_BYTES]
    exact Nat.mod_eq_of_lt (by omega)
  exact (size_generateData K _ cache.data).trans hrows

/-- The sizes that the offsets of a header say are those of its epoch. -/
structure Sized (header : DagFileHeader) : Prop where
  block : header.epoch * EPOCH_LENGTH + 1 < 2 ^ 64
  size : header.dagEnd - header.dagBegin = getFullSize (epochBlock header.epoch)

theorem throwIf_eq_ok {p : Prop} [Decidable p] {e : HashException} {r r' : Reader} {u : Unit}
    (h : throwIf p e r = .ok (u, r')) : ¬ p ∧ r' = r := by
  rw [throwIf] at h
  split at h
  next => cases h
  next hp =>
    cases h
    exact ⟨hp, rfl⟩

theorem size_of_check {header : DagFileHeader} {r r' : Reader} {u : Unit}
    (h : header.check r = .ok (u, r')) :
    header.dagEnd - header.dagBegin = getFullSize (epochBlock header.epoch) := by
  rw [DagFileHeader.check] at h
  obtain ⟨_, r₁, _, hdag⟩ := bind_eq_ok h
  obtain ⟨hsize, _⟩ := throwIf_eq_ok hdag
  rw [not_or, not_not] at hsize
  exact hsize.2.symm

theorem size_of_readHeader {header : DagFileHeader} {r r' : Reader}
    (h : readHeader r = .ok (header, r')) :
    header.dagEnd - header.dagBegin = getFullSize (epochBlock header.epoch) := by
  rw [readHeader] at h
  obtain ⟨magic, _, _, h⟩ := bind_eq_ok h
  obtain ⟨_, _, _, h⟩ := bind_eq_ok h
  obtain ⟨majorVersion, _, _, h⟩ := bind_eq_ok h
  obtain ⟨revision, _, _, h⟩ := bind_eq_ok h
  obtain ⟨minorVersion, _, _, h⟩ := bind_eq_ok h
  obtain ⟨_, _, _, h⟩ := bind_eq_ok h
  obtain ⟨epoch, _, _, h⟩ := bind_eq_ok h
  obtain ⟨cacheBegin, _, _, h⟩ := bind_eq_ok h
  obtain ⟨cacheEnd, _, _, h⟩ := bind_eq_ok h
  obtain ⟨dagBegin, _, _, h⟩ := bind_eq_ok h
  obtain ⟨dagEnd, _, _, h⟩ := bind_eq_ok h
  obtain ⟨_, _, hcheck, hreturn⟩ := bind_eq_ok h
  have hsize := size_of_check hcheck
  cases hreturn
  exact hsize

theorem size_of_openDag {file : List Byte} {header : DagFileHeader} {r : Reader}
    (h : openDag file = .ok (header, r)) :
    header.dagEnd - header.dagBegin = getFullSize (epochBlock header.epoch) := by
  obtain ⟨_, _, _, h⟩ := bind_eq_ok (x := throwIf _ _) h
  obtain ⟨header', _, hread, h⟩ := bind_eq_ok h
  obtain ⟨_, _, _, hreturn⟩ := bind_eq_ok h
  cases hreturn
  exact size_of_readHeader hread

theorem dagOf_load {header : DagFileHeader} (hsized : Sized header) {r r' : Reader} {dag : Dag}
    (h : Dag.load K header r = .ok (dag, r')) : DagOf header.epoch dag := by
  have hrows := (size_load h).2
  obtain ⟨cache, _, _, h⟩ := bind_eq_ok h
  obtain ⟨data, _, _, hreturn⟩ := bind_eq_ok h
  cases hreturn
  have hblock := hsized.block
  have hlt : epochBlock header.epoch < 2 ^ 64 := Nat.mod_lt _ (by decide)
  refine ⟨rfl, ⟨BitVec.ofNat 64 (epochBlock header.epoch), ?_, ?_⟩, hrows⟩
  · rw [epochOf, BitVec.toNat_ofNat, Nat.mod_eq_of_lt hlt]
    exact epochBlock_div hblock
  · rw [BitVec.toNat_ofNat, Nat.mod_eq_of_lt hlt]
    exact hsized.size

/-! ## What the threads know -/

/-- The thread constructs a cache for the block, for a DAG or not. -/
structure Local.Makes (l : Local) (block : BitVec 64) (forDag : Bool) : Prop where
  call : l.call = some (if forDag then .dag block else .cache block)
  cacheSize : getCacheSize block.toNat < 2 ^ 38
  fullSize : forDag = true → getFullSize block.toNat < 2 ^ 38
  unchanged : l.changed = false

/-- The thread loads a DAG. -/
structure Local.Loads (l : Local) : Prop where
  call : ∃ file, l.call = some (.dagFile file)
  unchanged : l.changed = false

/-- The epoch of a DAG that is constructed for a block is that of the block. -/
structure Local.Inserts (l : Local) (epoch : Nat) : Prop where
  epoch_eq : ∀ block, l.call = some (.dag block) → epochOf block = epoch
  unchanged : l.changed = false

/-- What the thread knows at each point of the code. -/
def At (g : Shared) (l : Local) : Prop :=
  match l.phase with
  | .idle | .unloaded => True
  | .cacheFind block forDag | .cacheBuild block forDag => l.Makes block forDag
  | .cacheInsert block forDag cache =>
    l.Makes block forDag ∧ g.caches.Has (CacheOf (epochOf block)) cache
  | .dagFind block | .dagBuild block _ => l.Makes block true
  | .fileOpen file => l.Loads ∧ (Call.dagFile file).Ordinary
  | .fileFind header _ | .fileBuild header _ => l.Loads ∧ Sized header
  | .dagInsert epoch dag => l.Inserts epoch ∧ g.dags.Has (DagOf epoch) dag
  | .cacheErase _ | .cacheErasing _ | .dagErase _ | .dagErasing _ =>
    ∀ call, l.call = some call → call.makesDag = false
  | .returnedCache cache => ∀ block, l.call = some (.cache block) →
    g.caches.Has (fun impl => impl.epoch = epochOf block) cache
  | .returnedDag dag => ∀ block, l.call = some (.dag block) →
    g.dags.Has (fun impl => impl.epoch = epochOf block) dag
  | .threw => ∀ call, l.call = some call → call.makesDag = true → l.changed = false

/-- Objects stay where they are. -/
structure Grows (g g' : Shared) : Prop where
  caches : ∀ P id, g.caches.Has P id → g'.caches.Has P id
  dags : ∀ P id, g.dags.Has P id → g'.dags.Has P id

theorem grows_of_heap (hcaches : g'.caches.heap = g.caches.heap)
    (hdags : g'.dags.heap = g.dags.heap) : Grows g g' := by
  refine ⟨fun P id h => ?_, fun P id h => ?_⟩
  · rw [Registry.Has, hcaches]
    exact h
  · rw [Registry.Has, hdags]
    exact h

theorem At.grows (hat : At g l) (hgrows : Grows g g') : At g' l := by
  cases hphase : l.phase with
  | idle | unloaded | cacheFind | cacheBuild | dagFind | dagBuild | fileOpen | fileFind | fileBuild
  | cacheErase | cacheErasing | dagErase | dagErasing | threw =>
    rw [At, hphase] at hat ⊢
    exact hat
  | cacheInsert =>
    rw [At, hphase] at hat ⊢
    exact ⟨hat.1, hgrows.caches _ _ hat.2⟩
  | dagInsert =>
    rw [At, hphase] at hat ⊢
    exact ⟨hat.1, hgrows.dags _ _ hat.2⟩
  | returnedCache =>
    rw [At, hphase] at hat ⊢
    exact fun block hcall => hgrows.caches _ _ (hat block hcall)
  | returnedDag =>
    rw [At, hphase] at hat ⊢
    exact fun block hcall => hgrows.dags _ _ (hat block hcall)

/-! ## Steps -/

/-- The registries hold what belongs under their keys. -/
structure Sound (g : Shared) : Prop where
  caches : g.caches.Holds CacheOf
  dags : g.dags.Holds DagOf

/-- The result of a step. -/
structure Kept (g g' : Shared) (l' : Local) : Prop where
  sound : Sound g'
  grows : Grows g g'
  at' : At g' (l'.mark g g')

/-- The registry of DAGs holds what it held. -/
theorem At.mark (hat : At g' l) (h : g'.dags.entries = g.dags.entries) : At g' (l.mark g g') := by
  rw [Local.mark, h, decide_eq_false (fun hne => hne rfl), Bool.or_false]
  exact hat

theorem kept_self (hsound : Sound g) (hat : At g l') : Kept g g l' :=
  ⟨hsound, ⟨fun _ _ h => h, fun _ _ h => h⟩, hat.mark rfl⟩

theorem kept_caches {caches : Registry Cache} {erasures : Nat} (hsound : Sound g)
    (hholds : caches.Holds CacheOf) (hgrows : ∀ P id, g.caches.Has P id → caches.Has P id)
    (hat : At { g with caches, cacheErasures := erasures } l') :
    Kept g { g with caches, cacheErasures := erasures } l' :=
  ⟨⟨hholds, hsound.dags⟩, ⟨hgrows, fun _ _ h => h⟩, hat.mark rfl⟩

theorem at_gotCache {forDag : Bool} {cache : Nat} (hmakes : l.Makes block forDag)
    (hhas : g.caches.Has (CacheOf (epochOf block)) cache) : At g (l.gotCache block forDag cache) := by
  obtain ⟨hcall, hcacheSize, hfullSize, hunchanged⟩ := hmakes
  cases forDag with
  | true => exact ⟨hcall, hcacheSize, hfullSize, hunchanged⟩
  | false =>
    intro block' hcall'
    cases hcall.symm.trans hcall'
    exact hhas.mono fun _ h => h.epoch_eq

theorem kept_foundDag {epoch dag : Nat} (hsound : Sound g) (hfind : g.dags.find epoch = some dag)
    (hepoch : ∀ block, l.call = some (.dag block) → epochOf block = epoch) :
    Kept g { g with dags := g.dags.hand epoch dag } { l with phase := .returnedDag dag } := by
  refine ⟨⟨hsound.caches, hsound.dags.hand hfind⟩, ⟨fun _ _ h => h, fun _ _ h => h⟩, .mark ?_ rfl⟩
  intro block hcall
  rw [hepoch block hcall]
  exact (hsound.dags.held epoch dag hfind).mono fun _ h => h.epoch_eq

/-- A DAG is built, and will be inserted. -/
theorem kept_builtDag {epoch : Nat} {dag : Dag} (hsound : Sound g) (hinserts : l.Inserts epoch)
    (hdag : DagOf epoch dag) :
    Kept g { g with dags := g.dags.allocate dag }
      { l with phase := .dagInsert epoch g.dags.heap.length } := by
  refine ⟨⟨hsound.caches, hsound.dags.allocate dag⟩,
    ⟨fun _ _ h => h, fun _ _ h => h.allocate dag⟩, .mark ?_ rfl⟩
  exact ⟨⟨hinserts.epoch_eq, hinserts.unchanged⟩, Registry.has_allocate hdag⟩

/-- A DAG is inserted, unless one is held under the epoch. -/
theorem kept_insertedDag {epoch dag : Nat} (hsound : Sound g) (hinserts : l.Inserts epoch)
    (hdag : g.dags.Has (DagOf epoch) dag) :
    Kept g { g with dags := (g.dags.insert epoch dag).1.hand epoch (g.dags.insert epoch dag).2 }
      { l with phase := .returnedDag (g.dags.insert epoch dag).2 } := by
  have hfind := g.dags.find_insert epoch dag
  have hholds := hsound.dags.insert hdag
  refine ⟨⟨hsound.caches, hholds.hand hfind⟩, grows_of_heap rfl (g.dags.heap_insert epoch dag), ?_⟩
  intro block hcall
  rw [hinserts.epoch_eq block hcall]
  exact (hholds.held epoch _ hfind).mono fun _ h => h.epoch_eq

theorem kept_dagErasure {dags : Registry Dag} {erasures : Nat} (hsound : Sound g)
    (hholds : dags.Holds DagOf) (hheap : dags.heap = g.dags.heap)
    (hcall : ∀ call, l.call = some call → call.makesDag = false)
    (hphase : (∃ dag, l.phase = .dagErasing dag) ∨ (∃ epoch, l.phase = .cacheErase epoch) ∨
      l.phase = .threw) :
    Kept g { g with dags, dagErasures := erasures } l := by
  refine ⟨⟨hsound.caches, hholds⟩, grows_of_heap rfl hheap, ?_⟩
  rw [At]
  rcases hphase with ⟨dag, h⟩ | ⟨epoch, h⟩ | h
  · rw [Local.mark, h]
    exact hcall
  · rw [Local.mark, h]
    exact hcall
  · rw [Local.mark, h]
    intro call hsome hmakes
    rw [hcall call hsome] at hmakes
    cases hmakes

theorem go_keeps (hsound : Sound g) (hat : At g l) (h : go K g l = some (.ok (g', l'))) :
    Kept g g' l' := by
  cases hphase : l.phase with
  | idle | returnedCache | returnedDag | unloaded | threw =>
    rw [go, hphase] at h
    cases h
  | cacheFind block forDag =>
    rw [At, hphase] at hat
    rw [go, hphase] at h
    dsimp only at h
    split at h
    next => cases h
    next =>
      split at h
      next cache hfind =>
        cases h
        exact kept_caches hsound (hsound.caches.hand hfind) (fun _ _ h => h)
          (at_gotCache hat (hsound.caches.held _ _ hfind))
      next =>
        cases h
        exact kept_self hsound ⟨hat.call, hat.cacheSize, hat.fullSize, hat.unchanged⟩
  | cacheBuild block forDag =>
    rw [At, hphase] at hat
    rw [go, hphase] at h
    cases h
    exact kept_caches hsound (hsound.caches.allocate _) (fun _ _ h => h.allocate _)
      ⟨⟨hat.call, hat.cacheSize, hat.fullSize, hat.unchanged⟩,
        Registry.has_allocate (cacheOf_generate K hat.cacheSize)⟩
  | cacheInsert block forDag cache =>
    rw [At, hphase] at hat
    rw [go, hphase] at h
    dsimp only at h
    split at h
    next => cases h
    next =>
      cases h
      have hfind := g.caches.find_insert (epochOf block) cache
      have hholds := hsound.caches.insert hat.2
      exact kept_caches hsound (hholds.hand hfind)
        (@grows_of_heap g { g with caches := _ } (g.caches.heap_insert _ _) rfl).caches
        (at_gotCache hat.1 (hholds.held _ _ hfind))
  | dagFind block =>
    rw [At, hphase] at hat
    rw [go, hphase] at h
    dsimp only at h
    split at h
    next => cases h
    next =>
      split at h
      next dag hfind =>
        cases h
        refine kept_foundDag hsound hfind fun block' hcall => ?_
        cases hat.call.symm.trans hcall
        rfl
      next =>
        cases h
        exact kept_self hsound ⟨hat.call, hat.cacheSize, hat.fullSize, hat.unchanged⟩
  | dagBuild block cache =>
    rw [At, hphase] at hat
    rw [go, hphase] at h
    dsimp only at h
    split at h
    next => cases h
    next =>
      cases h
      refine kept_builtDag hsound ⟨fun block' hcall => ?_, hat.unchanged⟩
        (dagOf_generate K _ (hat.fullSize rfl))
      cases hat.call.symm.trans hcall
      rfl
  | fileOpen file =>
    rw [At, hphase] at hat
    obtain ⟨hloads, hrange⟩ := hat
    rw [go, hphase] at h
    dsimp only at h
    split at h
    next =>
      cases h
      exact kept_self hsound fun _ _ _ => hloads.unchanged
    next header reader hopen =>
      cases h
      exact kept_self hsound ⟨⟨hloads.call, hloads.unchanged⟩,
        ⟨hrange header reader hopen, size_of_openDag hopen⟩⟩
  | fileFind header reader =>
    rw [At, hphase] at hat
    obtain ⟨hloads, hsized⟩ := hat
    obtain ⟨file, hcall⟩ := hloads.call
    rw [go, hphase] at h
    dsimp only at h
    split at h
    next => cases h
    next =>
      split at h
      next dag hfind =>
        cases h
        refine kept_foundDag hsound hfind fun block hcall' => ?_
        cases hcall.symm.trans hcall'
      next =>
        cases h
        exact kept_self hsound ⟨⟨hloads.call, hloads.unchanged⟩, hsized⟩
  | fileBuild header reader =>
    rw [At, hphase] at hat
    obtain ⟨hloads, hsized⟩ := hat
    obtain ⟨file, hcall⟩ := hloads.call
    rw [go, hphase] at h
    dsimp only at h
    split at h
    next =>
      cases h
      exact kept_self hsound fun _ _ _ => hloads.unchanged
    next dag _ hload =>
      cases h
      refine kept_builtDag hsound ⟨fun block hcall' => ?_, hloads.unchanged⟩ (dagOf_load hsized hload)
      cases hcall.symm.trans hcall'
  | dagInsert epoch dag =>
    rw [At, hphase] at hat
    rw [go, hphase] at h
    dsimp only at h
    split at h
    next => cases h
    next =>
      cases h
      exact kept_insertedDag hsound hat.1 hat.2
  | cacheErase epoch =>
    rw [At, hphase] at hat
    rw [go, hphase] at h
    dsimp only at h
    split at h
    next => cases h
    next =>
      cases h
      exact kept_caches hsound hsound.caches (fun _ _ h => h) hat
  | cacheErasing epoch =>
    rw [go, hphase] at h
    cases h
    exact kept_caches hsound (hsound.caches.erase epoch) (fun _ _ h => h) trivial
  | dagErase dag =>
    rw [At, hphase] at hat
    rw [go, hphase] at h
    dsimp only at h
    split at h
    next => cases h
    next =>
      split at h
      next => cases h
      next =>
        cases h
        exact kept_dagErasure hsound hsound.dags rfl hat (.inl ⟨dag, rfl⟩)
  | dagErasing dag =>
    rw [At, hphase] at hat
    rw [go, hphase] at h
    dsimp only at h
    split at h
    next => cases h
    next impl _ =>
      cases h
      refine kept_dagErasure hsound (hsound.dags.erase impl.epoch) rfl hat (.inr ?_)
      dsimp only
      split
      · exact .inl ⟨_, rfl⟩
      · exact .inr rfl

theorem perform_keeps {a : Action} (hsound : Sound g) (hat : At g l)
    (hcall : ∀ call, a = .call call → call.Ordinary) (h : perform K a g l = some (.ok (g', l'))) :
    Kept g g' l' := by
  cases a with
  | call call =>
    have hordinary := hcall call rfl
    dsimp only [perform] at h
    split at h
    next =>
      cases h
      refine kept_self hsound ?_
      cases call with
      | cache block => exact ⟨rfl, hordinary, nofun, rfl⟩
      | dag block => exact ⟨rfl, hordinary.1, fun _ => hordinary.2, rfl⟩
      | dagFile file => exact ⟨⟨⟨file, rfl⟩, rfl⟩, hordinary⟩
      | unloadCache epoch | unloadDag dag =>
        rintro call ⟨⟩
        rfl
    next => cases h
  | go => exact go_keeps hsound hat h
  | fail =>
    dsimp only [perform] at h
    split at h
    next hmay =>
      cases h
      refine kept_self hsound ?_
      -- where a construction may fail, it has not changed the registry of DAGs
      cases hphase : l.phase with
      | idle | cacheFind | dagFind | fileFind | cacheErase | cacheErasing | dagErase | dagErasing
      | returnedCache | returnedDag | unloaded | threw =>
        rw [hphase] at hmay
        cases hmay
      | cacheBuild | dagBuild =>
        rw [At, hphase] at hat
        exact fun _ _ _ => hat.unchanged
      | cacheInsert | fileOpen | fileBuild | dagInsert =>
        rw [At, hphase] at hat
        exact fun _ _ _ => hat.1.unchanged
    next => cases h

theorem act_eq_ok {i : Nat} {a : Action} (h : act K i a g l = some (.ok (g', l'))) :
    ∃ m, perform K a g l = some (.ok (g', m)) ∧ l' = m.mark g g' := by
  rw [act, Option.map_eq_some_iff] at h
  obtain ⟨r, hr, hmap⟩ := h
  cases r with
  | error f => cases hmap
  | ok x =>
    cases hmap
    exact ⟨x.2, hr, rfl⟩

/-! ## Runs -/

/-- The registries are sound, and every thread knows what it must. -/
structure Annotated (s : State) : Prop where
  sound : Sound s.shared
  threads : ∀ l ∈ s.locals, At s.shared l

theorem annotated_of_ordinary {n : Nat} (h : (system K n).Reachable Ordinary s) : Annotated s := by
  refine h.invariant ?_ ?_
  · rintro s rfl
    refine ⟨⟨Registry.holds_empty _, Registry.holds_empty _⟩, fun l hl => ?_⟩
    rw [List.eq_of_mem_replicate hl]
    trivial
  · rintro s ⟨i, a⟩ t hs hordinary hstep
    obtain ⟨l, g, l', hl, hact, rfl⟩ := Threads.system_step_eq_ok hstep
    obtain ⟨m, hperform, rfl⟩ := act_eq_ok hact
    have hkept := perform_keeps hs.sound (hs.threads l (List.mem_of_getElem? hl)) hordinary.call hperform
    refine ⟨hkept.sound, fun l' hl' => ?_⟩
    rcases List.mem_or_eq_of_mem_set hl' with hother | rfl
    · exact (hs.threads l' hother).grows hkept.grows
    · exact hkept.at'

theorem Annotated.coherent (h : Annotated s) : Coherent s where
  caches := h.sound.caches.held
  dags := h.sound.dags.held
  cacheCalls l block cache hl hcall hphase := by
    have hat := h.threads l hl
    rw [At, hphase] at hat
    exact hat block hcall
  dagCalls l block dag hl hcall hphase := by
    have hat := h.threads l hl
    rw [At, hphase] at hat
    exact hat block hcall
  sameCache _ _ _ := h.sound.caches.unique
  sameDag _ _ _ := h.sound.dags.unique
  failed l call hl hcall hmakes hphase := by
    have hat := h.threads l hl
    rw [At, hphase] at hat
    exact hat call hcall hmakes

/-- Only a registry that is used while something is erased from it is raced for. -/
theorem erasures_of_error {f : Fault} (h : go K g l = some (.error f)) :
    (l.phase.usesCaches = true ∧ g.cacheErasures ≠ 0) ∨
      (l.phase.usesDags = true ∧ g.dagErasures ≠ 0) := by
  rw [go] at h
  split at h
  all_goals next hphase =>
    rw [hphase]
    repeat' split at h
    all_goals first
      | exact .inl ⟨rfl, by assumption⟩
      | exact .inr ⟨rfl, by assumption⟩
      | cases h

theorem not_error_of_ordinary {n : Nat} {e : Nat × Action} (h : Ordinary s e) (f : Fault) :
    (system K n).step s e ≠ some (.error f) := by
  obtain ⟨i, a⟩ := e
  intro hstep
  obtain ⟨l, hl, hact⟩ := Threads.system_step_eq_error hstep
  have hperform : perform K a s.shared l = some (.error f) := by
    rw [act, Option.map_eq_some_iff] at hact
    obtain ⟨r, hr, hmap⟩ := hact
    cases r with
    | error f' =>
      cases hmap
      exact hr
    | ok x => cases hmap
  cases a with
  | call call | fail =>
    dsimp only [perform] at hperform
    split at hperform <;> cases hperform
  | go =>
    rcases erasures_of_error hperform with ⟨huses, hne⟩ | ⟨huses, hne⟩
    · exact hne (h.caches l rfl hl huses)
    · exact hne (h.dags l rfl hl huses)

/-- In every run of ordinary calls of any number of threads the registries are coherent, and are not
raced for. -/
theorem coherent_of_ordinary (K : KeccakFns) (n : Nat) {s : State}
    (h : (system K n).Reachable Ordinary s) :
    Coherent s ∧ ∀ e f, Ordinary s e → (system K n).step s e ≠ some (.error f) :=
  ⟨(annotated_of_ordinary h).coherent, fun _ f he => not_error_of_ordinary he f⟩

/-- DAGs of the first epoch are constructed. -/
def Action.firstEpoch : Action → Bool
  | .call (.dag block) => decide (block.toNat < EPOCH_LENGTH)
  | .call _ => false
  | .go | .fail => true

theorem ordinary_of_firstEpoch {e : Nat × Action} (hcaches : s.shared.cacheErasures = 0)
    (hdags : s.shared.dagErasures = 0) (h : e.2.firstEpoch = true) : Ordinary s e := by
  refine ⟨fun call hcall => ?_, fun _ _ _ _ => hcaches, fun _ _ _ _ => hdags⟩
  rw [hcall] at h
  cases call with
  | cache | dagFile | unloadCache | unloadDag => cases h
  | dag block =>
    have hepoch : block.toNat / EPOCH_LENGTH = 0 := Nat.div_eq_of_lt (of_decide_eq_true h)
    have hcache := getCacheSize_le (b := block.toNat) (by rw [hepoch]; decide)
    have hfull := getFullSize_le (b := block.toNat) (by rw [hepoch]; decide)
    rw [hepoch] at hcache hfull
    exact ⟨lt_of_le_of_lt hcache (by decide), lt_of_le_of_lt hfull (by decide)⟩

/-- Two threads construct the DAGs of the blocks 1 and 2 at the same time. Both have found the
registry empty, and both return the DAG that was inserted first. -/
theorem coherent_of_ordinary_together :
    ∃ s, ((system keccakTiny 2).Reachable Ordinary s ∧
        s.locals.map Local.phase = [.returnedDag 0, .returnedDag 0]) ∧
      (Coherent s ∧ ∀ e f, Ordinary s e → (system keccakTiny 2).step s e ≠ some (.error f)) := by
  have hsteps := steps_of_replay (M := system keccakTiny 2) (s := ⟨{}, [{}, {}]⟩)
    (C := fun s e =>
      s.shared.cacheErasures = 0 ∧ s.shared.dagErasures = 0 ∧ e.2.firstEpoch = true)
    (l := [(0, .call (.dag 1)), (1, .call (.dag 2)), (0, .go), (1, .go), (0, .go), (1, .go),
      (0, .go), (1, .go), (0, .go), (1, .go), (1, .go), (0, .go), (1, .go), (0, .go)])
    (by decide) rfl
  have hreachable : (system keccakTiny 2).Reachable Ordinary _ :=
    ⟨_, rfl, hsteps.mono fun _ _ h => ordinary_of_firstEpoch h.1 h.2.1 h.2.2⟩
  exact ⟨_, ⟨hreachable, rfl⟩, coherent_of_ordinary keccakTiny 2 hreachable⟩

/-! ## A DAG of too few rows -/

/-- A thread has constructed the DAG of a block, and another one has done nothing. -/
def constructed (K : KeccakFns) (block : BitVec 64) : State where
  shared :=
    { caches :=
        { heap := [Cache.generate K block.toNat]
          entries := [(epochOf block, 0)]
          handed := [(epochOf block, 0)] }
      dags :=
        { heap := [Dag.generate K block.toNat (Cache.generate K block.toNat)]
          entries := [(epochOf block, 0)]
          handed := [(epochOf block, 0)] } }
  locals := [{ call := some (.dag block), phase := .returnedDag 0, changed := true }, {}]

theorem steps_constructed (K : KeccakFns) (block : BitVec 64) :
    (system K 2).Steps (fun _ _ => True) ⟨{}, [{}, {}]⟩ (constructed K block) :=
  steps_of_replay
    (l := [(0, .call (.dag block)), (0, .go), (0, .go), (0, .go), (0, .go), (0, .go), (0, .go)])
    (meets_true _ _) rfl

/-- The rows of a DAG of `2 ^ 38` bytes are more than 32 bits can count. -/
theorem not_coherent_constructed (K : KeccakFns) {block : BitVec 64}
    (h : 2 ^ 38 ≤ getFullSize block.toNat) : ¬ Coherent (constructed K block) := by
  intro hcoherent
  have hfind : (constructed K block).shared.dags.find (epochOf block) = some 0 := by
    rw [Registry.find, constructed, List.lookup_cons, beq_self_eq_true]
  obtain ⟨dag, hdag, hof⟩ := hcoherent.dags (epochOf block) 0 hfind
  cases hdag
  have hrows : u32 (getFullSize block.toNat / HASH_BYTES) = getFullSize block.toNat / HASH_BYTES :=
    (size_generateData K _ _).symm.trans hof.rows
  have hlt : u32 (getFullSize block.toNat / HASH_BYTES) < 2 ^ 32 := Nat.mod_lt _ (by decide)
  rw [hrows, HASH_BYTES] at hlt
  omega

/-- The DAG of the block 469634400 is stored with too few rows. And a construction that searches the
registry while another thread unloads a DAG races with it. -/
theorem incoherent_registries :
    (∃ s, (system keccakTiny 2).Reachable (fun _ _ => True) s ∧
        s.locals.map Local.call = [some (.dag 469634400), none] ∧ ¬ Coherent s) ∧
      ∃ s, (system keccakTiny 2).Reachable (fun _ _ => True) s ∧
        s.locals.map Local.call = [some (.unloadDag 0), some (.dag 1)] ∧
        (system keccakTiny 2).step s (1, .go) = some (.error .dataRace) := by
  constructor
  · have hsize : MIX_BYTES * 2 ^ 31 < getFullSize (469634400 : BitVec 64).toNat :=
      lt_primeSize (by decide) (by decide) (by decide) (by decide) (by decide)
    exact ⟨_, ⟨_, rfl, steps_constructed keccakTiny 469634400⟩, rfl,
      not_coherent_constructed keccakTiny (le_trans (by decide) hsize.le)⟩
  · have hsteps := steps_of_replay (M := system keccakTiny 2) (s := constructed keccakTiny 1)
      (l := [(0, .call (.unloadDag 0)), (1, .call (.dag 1)), (0, .go)]) (meets_true _ _) rfl
    exact ⟨_, ⟨_, rfl, (steps_constructed keccakTiny 1).trans hsteps⟩, rfl, rfl⟩

end Energiminer.Nrghash.Registries
