import Energiminer.Misc.Registry
import Energiminer.Misc.Threads
import Energiminer.Nrghash.DagFile

/-!
# The registries of caches and DAGs

`get_cache_from_cache`, `get_dag` for a block and for a file, and the `unload` functions, called by any
threads (`nrghash.cpp:543-604`, `680-687`, `824-1009` and `1032-1040`). A search of a map and an
insertion hold its mutex, so each is one step. A construction between them holds none and may be
cancelled by its callback, or fail. `unload` erases without the mutex: an erasure takes time, and any
other access to the map while it lasts is a data race.
-/

namespace Energiminer.Nrghash.Registries
open Misc

def openDag (file : List Byte) : Except HashException (DagFileHeader × Reader) :=
  (readDagHeader (u64 file.length)).run (.new file)

inductive Call
  /-- `cache_t(block_number, callback)` -/
  | cache (block : BitVec 64)
  /-- `dag_t(block_number, callback)` -/
  | dag (block : BitVec 64)
  /-- `dag_t(file_path, callback)`, for the contents of the file -/
  | dagFile (file : List Byte)
  /-- `cache_t::unload` of a cache of the epoch -/
  | unloadCache (epoch : Nat)
  /-- `dag_t::unload` of a DAG -/
  | unloadDag (dag : Nat)

/-- A DAG is constructed. -/
def Call.makesDag : Call → Bool
  | .dag _ | .dagFile _ => true
  | .cache _ | .unloadCache _ | .unloadDag _ => false

/-- Where a thread is. A cache that is constructed for a DAG says so. -/
inductive Phase
  | idle
  /-- before the first search in `get_cache_from_cache` -/
  | cacheFind (block : BitVec 64) (forDag : Bool)
  | cacheBuild (block : BitVec 64) (forDag : Bool)
  | cacheInsert (block : BitVec 64) (forDag : Bool) (cache : Nat)
  /-- before the first search in `get_dag` -/
  | dagFind (block : BitVec 64)
  | dagBuild (block : BitVec 64) (cache : Nat)
  | fileOpen (file : List Byte)
  | fileFind (header : DagFileHeader) (reader : Reader)
  | fileBuild (header : DagFileHeader) (reader : Reader)
  | dagInsert (epoch dag : Nat)
  | cacheErase (epoch : Nat)
  | cacheErasing (epoch : Nat)
  | dagErase (dag : Nat)
  | dagErasing (dag : Nat)
  | returnedCache (cache : Nat)
  | returnedDag (dag : Nat)
  | unloaded
  /-- the call has ended with an exception -/
  | threw

/-- No call is in progress. -/
def Phase.atRest : Phase → Bool
  | .idle | .returnedCache _ | .returnedDag _ | .unloaded | .threw => true
  | _ => false

structure Shared where
  /-- `cache_cache` -/
  caches : Registry Cache := {}
  /-- `dag_cache` -/
  dags : Registry Dag := {}
  /-- the erasures of `cache_cache` in progress -/
  cacheErasures : Nat := 0
  /-- the erasures of `dag_cache` in progress -/
  dagErasures : Nat := 0

structure Local where
  /-- the last call -/
  call : Option Call := none
  phase : Phase := .idle
  /-- a step of the call has changed the registry of DAGs -/
  changed : Bool := false

inductive Fault
  | dataRace

inductive Action
  | call (call : Call)
  /-- the next statement -/
  | go
  /-- an exception: the callback cancels, or the construction fails -/
  | fail

/-- `block_number / constants::EPOCH_LENGTH`. -/
def epochOf (block : BitVec 64) : Nat := block.toNat / EPOCH_LENGTH

def Call.start : Call → Phase
  | .cache block => .cacheFind block false
  | .dag block => .dagFind block
  | .dagFile file => .fileOpen file
  | .unloadCache epoch => .cacheErase epoch
  | .unloadDag impl => .dagErase impl

/-- `get_cache_from_cache` returns. -/
def Local.gotCache (l : Local) (block : BitVec 64) (forDag : Bool) (cache : Nat) : Local :=
  { l with phase := if forDag then .dagBuild block cache else .returnedCache cache }

/-- The next statement of a thread. -/
def go (K : KeccakFns) (g : Shared) (l : Local) : Option (Except Fault (Shared × Local)) :=
  match l.phase with
  | .idle | .returnedCache _ | .returnedDag _ | .unloaded | .threw => none
  | .cacheFind block forDag =>
    if g.cacheErasures ≠ 0 then some (.error .dataRace)
    else
      match g.caches.find (epochOf block) with
      | some cache =>
        some (.ok ({ g with caches := g.caches.hand (epochOf block) cache },
          l.gotCache block forDag cache))
      | none => some (.ok (g, { l with phase := .cacheBuild block forDag }))
  | .cacheBuild block forDag =>
    some (.ok ({ g with caches := g.caches.allocate (Cache.generate K block.toNat) },
      { l with phase := .cacheInsert block forDag g.caches.heap.length }))
  | .cacheInsert block forDag cache =>
    if g.cacheErasures ≠ 0 then some (.error .dataRace)
    else
      let (caches, held) := g.caches.insert (epochOf block) cache
      some (.ok ({ g with caches := caches.hand (epochOf block) held }, l.gotCache block forDag held))
  | .dagFind block =>
    if g.dagErasures ≠ 0 then some (.error .dataRace)
    else
      match g.dags.find (epochOf block) with
      | some dag =>
        some (.ok ({ g with dags := g.dags.hand (epochOf block) dag },
          { l with phase := .returnedDag dag }))
      -- the constructor of `dag_t::impl_t` begins with its cache
      | none => some (.ok (g, { l with phase := .cacheFind block true }))
  | .dagBuild block cache =>
    match g.caches.heap[cache]? with
    | none => none
    | some cache =>
      some (.ok ({ g with dags := g.dags.allocate (Dag.generate K block.toNat cache) },
        { l with phase := .dagInsert (epochOf block) g.dags.heap.length }))
  | .fileOpen file =>
    match openDag file with
    | .error _ => some (.ok (g, { l with phase := .threw }))
    | .ok (header, reader) => some (.ok (g, { l with phase := .fileFind header reader }))
  | .fileFind header reader =>
    if g.dagErasures ≠ 0 then some (.error .dataRace)
    else
      match g.dags.find header.epoch with
      | some dag =>
        some (.ok ({ g with dags := g.dags.hand header.epoch dag }, { l with phase := .returnedDag dag }))
      | none => some (.ok (g, { l with phase := .fileBuild header reader }))
  | .fileBuild header reader =>
    match Dag.load K header reader with
    | .error _ => some (.ok (g, { l with phase := .threw }))
    | .ok (dag, _) =>
      some (.ok ({ g with dags := g.dags.allocate dag },
        { l with phase := .dagInsert header.epoch g.dags.heap.length }))
  | .dagInsert epoch dag =>
    if g.dagErasures ≠ 0 then some (.error .dataRace)
    else
      let (dags, held) := g.dags.insert epoch dag
      some (.ok ({ g with dags := dags.hand epoch held }, { l with phase := .returnedDag held }))
  | .cacheErase epoch =>
    if g.cacheErasures ≠ 0 then some (.error .dataRace)
    else some (.ok ({ g with cacheErasures := 1 }, { l with phase := .cacheErasing epoch }))
  | .cacheErasing epoch =>
    some (.ok ({ g with caches := g.caches.erase epoch, cacheErasures := 0 },
      { l with phase := .unloaded }))
  | .dagErase dag =>
    match g.dags.heap[dag]? with
    | none => none
    | some _ =>
      if g.dagErasures ≠ 0 then some (.error .dataRace)
      else some (.ok ({ g with dagErasures := 1 }, { l with phase := .dagErasing dag }))
  | .dagErasing dag =>
    match g.dags.heap[dag]? with
    | none => none
    | some impl =>
      some (.ok ({ g with dags := g.dags.erase impl.epoch, dagErasures := 0 },
        { l with phase :=
            if (g.dags.find impl.epoch).isSome then .cacheErase impl.cache.epoch else .threw }))

/-- The places where a construction may fail. -/
def Phase.mayFail : Phase → Bool
  | .cacheBuild .. | .cacheInsert .. | .dagBuild .. | .fileOpen .. | .fileBuild .. | .dagInsert .. => true
  | _ => false

/-- A step of a thread, before the account of its changes. -/
def perform (K : KeccakFns) (a : Action) (g : Shared) (l : Local) :
    Option (Except Fault (Shared × Local)) :=
  match a with
  | .call call => if l.phase.atRest then some (.ok (g, { call, phase := call.start })) else none
  | .go => go K g l
  | .fail => if l.phase.mayFail then some (.ok (g, { l with phase := .threw })) else none

/-- The account of the changes of the registry of DAGs. -/
def Local.mark (l : Local) (g g' : Shared) : Local :=
  { l with changed := l.changed || decide (g'.dags.entries ≠ g.dags.entries) }

def act (K : KeccakFns) (_ : Nat) (a : Action) (g : Shared) (l : Local) :
    Option (Except Fault (Shared × Local)) :=
  (perform K a g l).map fun r => r.map fun x => (x.1, x.2.mark g x.1)

abbrev State := Threads Shared Local

/-- As many threads as given, which share the registries. -/
def system (K : KeccakFns) (n : Nat) : Machine State (Nat × Action) Fault :=
  Threads.system n {} {} (act K)

/-! ## Coherence -/

/-- A cache of an epoch, with the size and the number of rows of it. -/
structure CacheOf (epoch : Nat) (cache : Cache) : Prop where
  epoch_eq : cache.epoch = epoch
  size : ∃ block : BitVec 64, epochOf block = epoch ∧ cache.size = getCacheSize block.toNat
  rows : cache.data.size = cache.size / HASH_BYTES

/-- A DAG of an epoch, with the size and the number of rows of it. -/
structure DagOf (epoch : Nat) (dag : Dag) : Prop where
  epoch_eq : dag.epoch = epoch
  size : ∃ block : BitVec 64, epochOf block = epoch ∧ dag.size = getFullSize block.toNat
  rows : dag.data.size = dag.size / HASH_BYTES

/-- The registries and what the calls have returned fit together. -/
structure Coherent (s : State) : Prop where
  /-- every cache is held under its own epoch -/
  caches : ∀ epoch cache, s.shared.caches.find epoch = some cache →
    s.shared.caches.Has (CacheOf epoch) cache
  /-- every DAG is held under its own epoch -/
  dags : ∀ epoch dag, s.shared.dags.find epoch = some dag → s.shared.dags.Has (DagOf epoch) dag
  /-- a construction for a block returns a cache of its epoch -/
  cacheCalls : ∀ (l : Local) block cache, l ∈ s.locals → l.call = some (.cache block) →
    l.phase = .returnedCache cache →
    s.shared.caches.Has (fun impl => impl.epoch = epochOf block) cache
  /-- a construction for a block returns a DAG of its epoch -/
  dagCalls : ∀ (l : Local) block dag, l ∈ s.locals → l.call = some (.dag block) →
    l.phase = .returnedDag dag → s.shared.dags.Has (fun impl => impl.epoch = epochOf block) dag
  /-- constructions for an epoch that was not unloaded in between return the same cache -/
  sameCache : ∀ epoch cache cache', (epoch, cache) ∈ s.shared.caches.handed →
    (epoch, cache') ∈ s.shared.caches.handed → cache = cache'
  /-- constructions for an epoch that was not unloaded in between return the same DAG -/
  sameDag : ∀ epoch dag dag', (epoch, dag) ∈ s.shared.dags.handed →
    (epoch, dag') ∈ s.shared.dags.handed → dag = dag'
  /-- a construction of a DAG that fails has not changed the registry of DAGs -/
  failed : ∀ (l : Local) call, l ∈ s.locals → l.call = some call → call.makesDag = true →
    l.phase = .threw → l.changed = false

/-! ## Ordinary calls -/

/-- The sizes of what is constructed are below `2 ^ 38`, and the epoch of a file that is loaded has
blocks. -/
def Call.Ordinary : Call → Prop
  | .cache block => getCacheSize block.toNat < 2 ^ 38
  | .dag block => getCacheSize block.toNat < 2 ^ 38 ∧ getFullSize block.toNat < 2 ^ 38
  | .dagFile file =>
    ∀ header reader, openDag file = .ok (header, reader) → header.epoch * EPOCH_LENGTH + 1 < 2 ^ 64
  | .unloadCache _ | .unloadDag _ => True

/-- The next statement is about `cache_cache`. -/
def Phase.usesCaches : Phase → Bool
  | .cacheFind .. | .cacheInsert .. | .cacheErase _ => true
  | _ => false

/-- The next statement is about `dag_cache`. -/
def Phase.usesDags : Phase → Bool
  | .dagFind _ | .fileFind .. | .dagInsert .. | .dagErase _ => true
  | _ => false

/-- The calls are ordinary, and no registry is used while something is erased from it. -/
structure Ordinary (s : State) (e : Nat × Action) : Prop where
  call : ∀ call, e.2 = .call call → call.Ordinary
  caches : ∀ l, e.2 = .go → s.locals[e.1]? = some l → l.phase.usesCaches = true →
    s.shared.cacheErasures = 0
  dags : ∀ l, e.2 = .go → s.locals[e.1]? = some l → l.phase.usesDags = true →
    s.shared.dagErasures = 0

end Energiminer.Nrghash.Registries
