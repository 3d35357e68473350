import Energiminer.Core.Miner
import Energiminer.Nrghash.Registries

/-!
# Calls that no other thread interrupts

`get_cache_from_cache`, `get_dag` for a file and `cache_t::unload` are modelled statement by statement
for any number of threads, and as functions of the objects that the map holds. A thread that runs alone
does what the functions say.
-/

namespace Energiminer.Nrghash.Registries
open Misc Core Threads

variable {K : KeccakFns} {i : Nat} {g g' g'' : Shared} {l l' l'' : Local}

theorem alone_of_go (h : go K g l = some (.ok (g', l')))
    (hrest : Alone (act K) i g' (l'.mark g g') g'' l'') : Alone (act K) i g l g'' l'' := by
  refine .step (a := .go) ?_ hrest
  rw [act, perform, h]
  rfl

/-! ## Caches -/

theorem go_cacheInsert {block : BitVec 64} {forDag : Bool} {cache : Nat}
    (hphase : l.phase = .cacheInsert block forDag cache) (hidle : ¬ g.cacheErasures ≠ 0) :
    go K g l = some (.ok
      ({ g with
          caches := (g.caches.insert (epochOf block) cache).1.hand (epochOf block)
            (g.caches.insert (epochOf block) cache).2 },
        l.gotCache block forDag (g.caches.insert (epochOf block) cache).2)) := by
  rw [go, hphase]
  exact if_neg hidle

/-- A thread that runs alone gets the cache that `get_cache_from_cache` returns. -/
theorem alone_getCacheFromCache {cacheCache : CacheCache} {block : BitVec 64} {forDag : Bool}
    (hphase : l.phase = .cacheFind block forDag) (hidle : g.cacheErasures = 0)
    (hshows : g.caches.Shows cacheCache) :
    ∃ caches l' cache, Alone (act K) i g l { g with caches } l' ∧
      l'.phase = (l.gotCache block forDag cache).phase ∧
      caches.heap[cache]? = some (getCacheFromCache K cacheCache block.toNat).1 ∧
      caches.Shows (getCacheFromCache K cacheCache block.toNat).2 := by
  have hunlocked : ¬ g.cacheErasures ≠ 0 := not_not.mpr hidle
  cases hfind : g.caches.find (epochOf block) with
  | some cache =>
    obtain ⟨impl, himpl, hlookup⟩ := hshows.of_find hfind
    have hget : getCacheFromCache K cacheCache block.toNat = (impl, cacheCache) := by
      rw [epochOf] at hlookup
      rw [getCacheFromCache, hlookup]
    have hfound : go K g l = some (.ok ({ g with caches := g.caches.hand (epochOf block) cache },
        l.gotCache block forDag cache)) := by
      rw [go, hphase]
      dsimp only
      rw [if_neg hunlocked, hfind]
    rw [hget]
    exact ⟨_, _, cache, alone_of_go hfound .refl, rfl, himpl, hshows⟩
  | none =>
    have hlookup := hshows.of_find_none hfind
    have hget : getCacheFromCache K cacheCache block.toNat =
        (Cache.generate K block.toNat, (epochOf block, Cache.generate K block.toNat) :: cacheCache) := by
      rw [epochOf] at hlookup
      rw [getCacheFromCache, hlookup]
      rfl
    have hmissing : go K g l = some (.ok (g, { l with phase := .cacheBuild block forDag })) := by
      rw [go, hphase]
      dsimp only
      rw [if_neg hunlocked, hfind]
    obtain ⟨hheld, hnew, hafter⟩ := hshows.insert_allocate hfind (Cache.generate K block.toNat)
    have hbuild : go K g (({ l with phase := .cacheBuild block forDag } : Local).mark g g) = _ := rfl
    rw [hget]
    refine ⟨_, _, _, alone_of_go hmissing (alone_of_go hbuild
      (alone_of_go (go_cacheInsert rfl hunlocked) .refl)), rfl, ?_, hafter⟩
    rw [hheld]
    exact hnew

/-- A thread that runs alone erases a cache as `cache_t::unload` does. -/
theorem alone_unload {cacheCache : CacheCache} {epoch : Nat} (hphase : l.phase = .cacheErase epoch)
    (hidle : g.cacheErasures = 0) (hshows : g.caches.Shows cacheCache) :
    ∃ caches l', Alone (act K) i g l { g with caches } l' ∧ l'.phase = .unloaded ∧
      caches.Shows (unload cacheCache epoch) := by
  have hfirst : go K g l =
      some (.ok ({ g with cacheErasures := 1 }, { l with phase := .cacheErasing epoch })) := by
    rw [go, hphase]
    exact if_neg (not_not.mpr hidle)
  have hsecond (l : Local) (hphase : l.phase = .cacheErasing epoch) :
      go K { g with cacheErasures := 1 } l =
        some (.ok ({ g with caches := g.caches.erase epoch }, { l with phase := .unloaded })) := by
    rw [go, hphase, hidle]
  exact ⟨_, _, alone_of_go hfirst (alone_of_go (hsecond _ rfl) .refl), rfl, hshows.erase epoch⟩

/-! ## DAGs of files -/

section
variable {dagCache : DagCache} {file : List Byte} {header : DagFileHeader} {reader : Reader}

theorem getDag_eq_of_openDag (h : openDag file = .ok (header, reader)) :
    getDag K dagCache file = (registeredDag K dagCache header).run' reader := by
  have hrun : readDagHeader (u64 file.length) (.new file) = .ok (header, reader) := h
  rw [getDag, loadDag, StateT.run', StateT.run', bind, Monad.toBind, StateT.instMonad]
  simp only [StateT.bind, hrun]
  rfl

theorem getDag_eq_error_of_openDag {e : HashException} (h : openDag file = .error e) :
    getDag K dagCache file = .error e := by
  have hrun : readDagHeader (u64 file.length) (.new file) = .error e := h
  rw [getDag, loadDag, StateT.run', bind, Monad.toBind, StateT.instMonad]
  simp only [StateT.bind, hrun]
  rfl

theorem go_dagInsert {epoch dag : Nat} (hphase : l.phase = .dagInsert epoch dag)
    (hidle : ¬ g.dagErasures ≠ 0) :
    go K g l = some (.ok
      ({ g with dags := (g.dags.insert epoch dag).1.hand epoch (g.dags.insert epoch dag).2 },
        { l with phase := .returnedDag (g.dags.insert epoch dag).2 })) := by
  rw [go, hphase]
  exact if_neg hidle

/-- A thread that runs alone ends a call with the exception or the DAG and the map of a result. -/
def EndsAs (K : KeccakFns) (i : Nat) (g : Shared) (l : Local) :
    Except HashException (Dag × DagCache) → Prop
  | .error _ => ∃ l', Alone (act K) i g l g l' ∧ l'.phase = .threw
  | .ok (dag, dagCache) => ∃ dags l' id, Alone (act K) i g l { g with dags } l' ∧
      l'.phase = .returnedDag id ∧ dags.heap[id]? = some dag ∧ dags.Shows dagCache

theorem endsAs_registeredDag (hphase : l.phase = .fileFind header reader) (hidle : g.dagErasures = 0)
    (hshows : g.dags.Shows dagCache) :
    EndsAs K i g l ((registeredDag K dagCache header).run' reader) := by
  have hunlocked : ¬ g.dagErasures ≠ 0 := not_not.mpr hidle
  cases hfind : g.dags.find header.epoch with
  | some id =>
    obtain ⟨impl, himpl, hlookup⟩ := hshows.of_find hfind
    have hfound : go K g l = some (.ok ({ g with dags := g.dags.hand header.epoch id },
        { l with phase := .returnedDag id })) := by
      rw [go, hphase]
      dsimp only
      rw [if_neg hunlocked, hfind]
    rw [registeredDag, hlookup]
    exact ⟨_, _, id, alone_of_go hfound .refl, rfl, himpl, hshows⟩
  | none =>
    have hmissing : go K g l = some (.ok (g, { l with phase := .fileBuild header reader })) := by
      rw [go, hphase]
      dsimp only
      rw [if_neg hunlocked, hfind]
    rw [registeredDag, hshows.of_find_none hfind]
    dsimp only
    rw [StateT.run', bind, Monad.toBind, StateT.instMonad]
    simp only [StateT.bind]
    cases hload : Dag.load K header reader with
    | error e =>
      have hbuild (l : Local) (hphase : l.phase = .fileBuild header reader) :
          go K g l = some (.ok (g, { l with phase := .threw })) := by
        rw [go, hphase]
        dsimp only
        rw [hload]
      exact ⟨_, alone_of_go hmissing (alone_of_go (hbuild _ rfl) .refl), rfl⟩
    | ok loaded =>
      obtain ⟨dag, reader'⟩ := loaded
      have hbuild (l : Local) (hphase : l.phase = .fileBuild header reader) :
          go K g l = some (.ok ({ g with dags := g.dags.allocate dag },
            { l with phase := .dagInsert header.epoch g.dags.heap.length })) := by
        rw [go, hphase]
        dsimp only
        rw [hload]
      obtain ⟨hheld, hnew, hafter⟩ := hshows.insert_allocate hfind dag
      refine ⟨_, _, _, alone_of_go hmissing (alone_of_go (hbuild _ rfl)
        (alone_of_go (go_dagInsert rfl hunlocked) .refl)), rfl, ?_, hafter⟩
      rw [hheld]
      exact hnew

/-- A thread that runs alone ends as `get_dag` does for a file. -/
theorem endsAs_getDag (hphase : l.phase = .fileOpen file) (hidle : g.dagErasures = 0)
    (hshows : g.dags.Shows dagCache) : EndsAs K i g l (getDag K dagCache file) := by
  cases hopen : openDag file with
  | error e =>
    rw [getDag_eq_error_of_openDag hopen]
    have hthrow : go K g l = some (.ok (g, { l with phase := .threw })) := by
      rw [go, hphase]
      dsimp only
      rw [hopen]
    exact ⟨_, alone_of_go hthrow .refl, rfl⟩
  | ok opened =>
    obtain ⟨header, reader⟩ := opened
    have hfirst : go K g l = some (.ok (g, { l with phase := .fileFind header reader })) := by
      rw [go, hphase]
      dsimp only
      rw [hopen]
    rw [getDag_eq_of_openDag hopen]
    have hends := endsAs_registeredDag (K := K) (i := i)
      (l := ({ l with phase := .fileFind header reader } : Local).mark g g) rfl hidle hshows
    revert hends
    cases (registeredDag K dagCache header).run' reader with
    | error e =>
      rintro ⟨l', halone, hthrew⟩
      exact ⟨l', alone_of_go hfirst halone, hthrew⟩
    | ok returned =>
      rintro ⟨dags, l', id, halone, hrest⟩
      exact ⟨dags, l', id, alone_of_go hfirst halone, hrest⟩

end

end Energiminer.Nrghash.Registries
