import Energiminer.OpenCL.Miner

/-!
# The two searches in flight

Between two reads there are two searches in flight, on the two buffers, and the thread reads the older
one. What the buffers will hold does not depend on how far the device has come, so the invariant is
about the settled memory. It needs the copy of the header to be made in time: `hash_header` is a local
variable of the block for new work, the copy is not a blocking one, and nothing waits for it before the
block ends (`CLMiner.cpp:340-349`).
-/

namespace Energiminer.OpenCL.Miner
open Misc Nrghash Primitives Engines

/-! ## Result buffers -/

/-- Nothing ran on the buffer since its count was zeroed. -/
structure SearchResults.Empty (r : SearchResults) : Prop where
  count : r.count = 0
  executions : r.executions = []

/-- One search ran on the buffer since its count was zeroed, and every result is its. -/
structure SearchResults.Holds (r : SearchResults) (source : Execution) : Prop where
  executions : r.executions = [source]
  results : ∀ i : Fin maxSearchResults, i.val < r.count.toNat → (r.rslt i).source = source

section
variable {r : SearchResults} {source : Execution}

theorem source_report (gid : BitVec 32)
    (h : ∀ i : Fin maxSearchResults, i.val < r.count.toNat → (r.rslt i).source = source)
    (i : Fin maxSearchResults) (hi : i.val < (r.report source gid).count.toNat) :
    ((r.report source gid).rslt i).source = source := by
  rw [SearchResults.report] at hi ⊢
  dsimp only at hi ⊢
  rw [Function.update_apply]
  split
  · rfl
  next hslot =>
    refine h i ?_
    have hne : i.val ≠ min (maxSearchResults - 1) r.count.toNat := fun heq => hslot (Fin.ext heq)
    have hlt := i.isLt
    have hcount : (r.count + 1).toNat ≤ r.count.toNat + 1 := by
      rw [BitVec.toNat_add]
      exact Nat.mod_le ..
    simp only [maxSearchResults] at hne hlt
    omega

theorem foldl_report (gids : List (BitVec 32))
    (h : ∀ i : Fin maxSearchResults, i.val < r.count.toNat → (r.rslt i).source = source) :
    (gids.foldl (·.report source) r).executions = r.executions ∧
      ∀ i : Fin maxSearchResults, i.val < (gids.foldl (·.report source) r).count.toNat →
        ((gids.foldl (·.report source) r).rslt i).source = source := by
  induction gids generalizing r with
  | nil => exact ⟨rfl, h⟩
  | cons gid gids ih => exact ih (source_report gid h)

theorem holds_search (h : r.Empty) : (r.search source).Holds source := by
  have hnone : ∀ i : Fin maxSearchResults, i.val < r.count.toNat → (r.rslt i).source = source := by
    intro i hi
    rw [h.count] at hi
    exact absurd hi (Nat.not_lt_zero _)
  obtain ⟨hexecutions, hresults⟩ :=
    foldl_report (r := { r with executions := r.executions ++ [source] }) source.launch.gids hnone
  refine ⟨hexecutions.trans ?_, hresults⟩
  rw [h.executions, List.nil_append]

end

/-! ## The settled memory -/

/-- The memory once the commands so far have been executed. -/
def State.settled (s : State) : Memory := s.device.commands.settled Memory.execute

section
variable {m : Memory} {b b' : Fin 2} {s t : State} {l : Launch}

theorem settled_enqueue (s : State) (commands : List Command) :
    (s.enqueue commands).settled = commands.foldl Memory.execute s.settled :=
  CommandQueue.settled_enqueue ..

theorem empty_writeZero (m : Memory) (b : Fin 2) :
    ((m.execute (.writeZero b)).searchBuffer b).Empty := by
  rw [Memory.execute]
  dsimp only
  rw [Function.update_self]
  exact ⟨rfl, rfl⟩

theorem searchBuffer_writeZero (hb : b' ≠ b) :
    (m.execute (.writeZero b)).searchBuffer b' = m.searchBuffer b' :=
  Function.update_of_ne hb ..

theorem searchBuffer_search (hb : b ≠ l.buffer) :
    (m.execute (.search l)).searchBuffer b = m.searchBuffer b :=
  Function.update_of_ne hb ..

theorem holds_execute (h : (m.searchBuffer l.buffer).Empty) :
    ((m.execute (.search l)).searchBuffer l.buffer).Holds ⟨l, m.header⟩ := by
  rw [Memory.execute]
  dsimp only
  rw [Function.update_self]
  exact holds_search h

end

/-! ## The invariant -/

/-- The searches for the current work: those whose results were read, and those in flight. -/
structure Pipelined (K : KeccakFns) (s : State) (finished flight : List Launch) : Prop where
  launched : s.launched = finished ++ flight
  reads : s.reads = finished.map fun l => [⟨l, hashHeader K s.current⟩]
  header : s.settled.header = hashHeader K s.current
  target : s.target = upper64OfBoundary s.current.hashTarget
  arguments : ∀ l ∈ s.launched, l.target = s.target ∧ l.size = s.batchSize
  nonces : ∀ k l, s.launched[k]? = some l →
    l.nonce = s.firstNonce + BitVec.ofNat 64 (k * s.batchSize.toNat)
  next : s.startNonce = s.firstNonce + BitVec.ofNat 64 (s.launched.length * s.batchSize.toNat)
  flight : ∀ l ∈ flight, (s.settled.searchBuffer l.buffer).Holds ⟨l, hashHeader K s.current⟩ ∧
    s.bufferNonce l.buffer = l.nonce

/-- A result belongs to a work: the search that reported it started at the nonce and used the header
and the target of the work. -/
structure Rslt.Of (K : KeccakFns) (entry : Rslt) (work : Work) (startNonce : BitVec 64) : Prop where
  nonce : entry.source.launch.nonce = startNonce
  header : entry.source.header = hashHeader K work
  target : entry.source.launch.target = upper64OfBoundary work.hashTarget

/-- What holds while the current work is a valid one. -/
inductive Lined (K : KeccakFns) (s : State) : Prop
  /-- in the block for new work, one search is in flight -/
  | block (l : Launch) (point : s.point = .block) (pipe : Pipelined K s [] [l])
      (active : l.buffer = s.activeBuffer)
      (free : (s.settled.searchBuffer (s.activeBuffer + 1)).Empty) (none : s.results.count = 0)
  /-- elsewhere there are two, the older one on the active buffer -/
  | running (finished : List Launch) (l l' : Launch) (point : s.point ≠ .block)
      (pipe : Pipelined K s finished [l, l'])
      (active : l.buffer = s.activeBuffer) (other : l'.buffer = s.activeBuffer + 1)
      (results : ∀ i : Fin maxSearchResults, i.val < s.results.count.toNat →
        (s.results.rslt i).Of K s.current s.activeStartNonce)

/-- The block whose header is copied next. -/
def State.pendingHeader (s : State) : Option Nat :=
  match s.device.commands.pending with
  | .writeHeader block _ :: _ => some block
  | _ => none

/-- The invariant of the runs. -/
structure Sound (K : KeccakFns) (s : State) : Prop where
  lined : s.current.isValid → Lined K s
  idle : s.current.isValid = false → s.point = .top
  evaluated : ∀ e ∈ s.evaluated, e.entry.Of K e.work e.startNonce

/-- A copy of the header is made before the block that owns it ends. -/
def InTime (s : State) : Event → Prop
  | .device _ => ∀ block ∈ s.pendingHeader, s.alive block
  | _ => True

instance : ∀ (s : State) (e : Event), Decidable (InTime s e)
  | s, .device _ => inferInstanceAs (Decidable (∀ block ∈ s.pendingHeader, s.alive block = true))
  | _, .order _ => .isTrue trivial
  | _, .thread _ => .isTrue trivial

theorem other_ne (b : Fin 2) : b + 1 ≠ b := by decide +revert

theorem other_other (b : Fin 2) : b + 1 + 1 = b := by decide +revert

section
variable {K : KeccakFns} {s t : State} {l l' : Launch} {finished flight : List Launch}

/-! ## The steps -/

theorem Pipelined.congr (h : Pipelined K s finished flight)
    (hsettled : t.settled = s.settled) (hheader : hashHeader K t.current = hashHeader K s.current)
    (hlaunched : t.launched = s.launched) (hreads : t.reads = s.reads)
    (htarget : t.target = s.target) (hcurrent : t.current.hashTarget = s.current.hashTarget)
    (hsize : t.batchSize = s.batchSize) (hfirst : t.firstNonce = s.firstNonce)
    (hstart : t.startNonce = s.startNonce) (hbuffer : t.bufferNonce = s.bufferNonce) :
    Pipelined K t finished flight := by
  constructor
  · rw [hlaunched, h.launched]
  · rw [hreads, hheader, h.reads]
  · rw [hsettled, hheader, h.header]
  · rw [htarget, hcurrent, h.target]
  · rw [hlaunched, htarget, hsize]
    exact h.arguments
  · rw [hlaunched, hfirst, hsize]
    exact h.nonces
  · rw [hstart, hfirst, hlaunched, hsize, h.next]
  · rw [hsettled, hheader, hbuffer]
    exact h.flight

/-- The copy of the header and the zeroing start a new pipeline. -/
theorem pipelined_prepare (s : State) (c : Choice) :
    Pipelined K (s.prepare K c) [] [] ∧ ∀ b, ((s.prepare K c).settled.searchBuffer b).Empty := by
  have hsettled : (s.prepare K c).settled = (((s.settled.execute
      (.writeHeader (s.blocks + 1) (hashHeader K s.current))).execute (.writeZero 0)).execute
      (.writeZero 1)) := settled_enqueue ..
  refine ⟨⟨rfl, rfl, ?_, rfl, ?_, ?_, ?_, fun l hl => absurd hl List.not_mem_nil⟩, ?_⟩
  · rw [hsettled]
    rfl
  · exact fun l hl => absurd hl List.not_mem_nil
  · intro k l hl
    rw [State.prepare, List.getElem?_nil] at hl
    cases hl
  · show c.startNonce = c.startNonce + BitVec.ofNat 64 (0 * _)
    rw [Nat.zero_mul, BitVec.add_zero]
  · intro b
    rw [hsettled]
    match b with
    | 1 => exact empty_writeZero ..
    | 0 =>
      rw [searchBuffer_writeZero (by decide)]
      exact empty_writeZero ..

theorem settled_enqueueSearch (s : State) (setup : Setup) (b : Fin 2) (gids : List (BitVec 32)) :
    (s.enqueueSearch setup b gids).settled =
      s.settled.execute (.search (s.nextLaunch setup b gids)) :=
  settled_enqueue ..

theorem pipelined_enqueueSearch (h : Pipelined K s finished flight) (setup : Setup) {b : Fin 2}
    (gids : List (BitVec 32)) (hempty : (s.settled.searchBuffer b).Empty)
    (hfree : ∀ l ∈ flight, l.buffer ≠ b) :
    Pipelined K (s.enqueueSearch setup b gids) finished (flight ++ [s.nextLaunch setup b gids]) := by
  have hsettled := settled_enqueueSearch s setup b gids
  have hlaunched : (s.enqueueSearch setup b gids).launched =
      s.launched ++ [s.nextLaunch setup b gids] := rfl
  refine ⟨?_, h.reads, ?_, h.target, ?_, ?_, ?_, ?_⟩
  · rw [hlaunched, h.launched, List.append_assoc]
  · rw [hsettled]
    exact h.header
  · intro l hl
    rw [hlaunched, List.mem_append, List.mem_singleton] at hl
    rcases hl with hl | rfl
    · exact h.arguments l hl
    · exact ⟨rfl, rfl⟩
  · intro k l hl
    rw [hlaunched, List.getElem?_append] at hl
    split at hl
    · exact h.nonces k l hl
    next hk =>
      rw [List.getElem?_singleton] at hl
      split at hl
      · cases hl
        have hlast : k = s.launched.length := by omega
        rw [hlast]
        exact h.next
      · cases hl
  · have hsize : (s.enqueueSearch setup b gids).startNonce =
        s.startNonce + s.batchSize.setWidth 64 := rfl
    rw [hsize, h.next, hlaunched, List.length_append, List.length_singleton, Nat.add_mul, Nat.one_mul,
      BitVec.ofNat_add, ← BitVec.add_assoc]
    exact congrArg _ (BitVec.ofNat_toNat ..).symm
  · intro l hl
    rw [List.mem_append, List.mem_singleton] at hl
    rw [hsettled]
    rcases hl with hl | rfl
    · rw [searchBuffer_search (hfree l hl)]
      refine ⟨(h.flight l hl).1, ?_⟩
      rw [← (h.flight l hl).2]
      exact Function.update_of_ne (hfree l hl) ..
    · refine ⟨?_, Function.update_self ..⟩
      have hholds := holds_execute (m := s.settled) (l := s.nextLaunch setup b gids) hempty
      rw [h.header] at hholds
      exact hholds

theorem pipelined_readBuffer (h : Pipelined K s finished (l :: flight))
    (hidle : s.device.commands.pending = []) (hactive : l.buffer = s.activeBuffer)
    (hfree : ∀ l' ∈ flight, l'.buffer ≠ s.activeBuffer) :
    Pipelined K s.readBuffer (finished ++ [l]) flight ∧
      (s.readBuffer.settled.searchBuffer s.activeBuffer).Empty ∧
      ∀ i : Fin maxSearchResults, i.val < s.readBuffer.results.count.toNat →
        (s.readBuffer.results.rslt i).Of K s.current s.readBuffer.activeStartNonce := by
  have hmemory : s.settled = s.device.commands.memory := CommandQueue.settled_idle _ hidle
  have hsettled : s.readBuffer.settled = s.settled.execute (.writeZero s.activeBuffer) :=
    settled_enqueue ..
  obtain ⟨hholds, hnonce⟩ := h.flight l List.mem_cons_self
  rw [hactive, hmemory] at hholds
  rw [hactive] at hnonce
  have htarget : l.target = s.target := (h.arguments l (by rw [h.launched]; simp)).1
  refine ⟨⟨?_, ?_, ?_, h.target, h.arguments, h.nonces, h.next, ?_⟩, ?_, ?_⟩
  · rw [List.append_assoc]
    exact h.launched
  · rw [List.map_append, List.map_singleton]
    have hreads : s.readBuffer.reads =
        s.reads ++ [(s.device.commands.memory.searchBuffer s.activeBuffer).executions] := rfl
    rw [hreads, h.reads, hholds.executions]
    rfl
  · rw [hsettled]
    exact h.header
  · intro l' hl'
    rw [hsettled, searchBuffer_writeZero (hfree l' hl')]
    exact h.flight l' (List.mem_cons_of_mem _ hl')
  · rw [hsettled]
    exact empty_writeZero ..
  · intro i hi
    have hsource := hholds.results i hi
    have hrslt : (s.readBuffer.results.rslt i).source = ⟨l, hashHeader K s.current⟩ := hsource
    refine ⟨?_, ?_, ?_⟩
    · rw [hrslt]
      exact hnonce.symm
    · rw [hrslt]
    · rw [hrslt, htarget, h.target]

theorem Sound.of_valid (hvalid : s.current.isValid = true) (hlined : Lined K s)
    (hevaluated : ∀ e ∈ s.evaluated, e.entry.Of K e.work e.startNonce) : Sound K s :=
  ⟨fun _ => hlined, fun hinvalid => absurd (hvalid.symm.trans hinvalid) (by decide), hevaluated⟩

/-- Only at the top of the loop the current work may be invalid. -/
theorem Sound.valid (h : Sound K s) (hpoint : s.point ≠ .top) : s.current.isValid = true := by
  by_contra hinvalid
  exact hpoint (h.idle (Bool.not_eq_true _ ▸ hinvalid))

theorem Lined.congr (h : Lined K s)
    (hpipe : ∀ finished flight, Pipelined K s finished flight → Pipelined K t finished flight)
    (hsettled : t.settled = s.settled) (hpoint : t.point = .block ↔ s.point = .block)
    (hactive : t.activeBuffer = s.activeBuffer)
    (hcount : s.results.count = 0 → t.results.count = 0)
    (hresults : (∀ i : Fin maxSearchResults, i.val < s.results.count.toNat →
        (s.results.rslt i).Of K s.current s.activeStartNonce) →
      ∀ i : Fin maxSearchResults, i.val < t.results.count.toNat →
        (t.results.rslt i).Of K t.current t.activeStartNonce) : Lined K t := by
  cases h with
  | block l point pipe active free none =>
    refine .block l (hpoint.mpr point) (hpipe _ _ pipe) (active.trans hactive.symm) ?_ (hcount none)
    rw [hsettled, hactive]
    exact free
  | running finished l l' point pipe active other results =>
    refine .running finished l l' (fun h => point (hpoint.mp h)) (hpipe _ _ pipe)
      (active.trans hactive.symm) ?_ (hresults results)
    rw [hactive]
    exact other

theorem sound_order (h : Sound K s) (order : Order) :
    Sound K { s with assignment := s.assignment.obey order } :=
  ⟨fun hvalid => (h.lined hvalid).congr
    (fun _ _ hpipe => hpipe.congr rfl rfl rfl rfl rfl rfl rfl rfl rfl rfl) rfl Iff.rfl rfl id id,
    h.idle, h.evaluated⟩

/-- A command that is found as it was enqueued does not change the settled memory. -/
theorem settled_execute {stack : H256} (hintime : InTime s (.device stack))
    (ht : s.execute stack = some t) :
    t.settled = s.settled ∧ ∃ device, t = { s with device := device } := by
  rw [State.execute] at ht
  split at ht
  · cases ht
  next command pending hpending =>
    cases ht
    refine ⟨?_, _, rfl⟩
    have hfound : s.found stack command = command := by
      cases command with
      | writeHeader block hashHeader =>
        have hblock : s.pendingHeader = some block := by rw [State.pendingHeader, hpending]
        rw [State.found, if_pos (hintime block hblock)]
      | writeZero buffer | search launch => rfl
    rw [hfound]
    exact CommandQueue.settled_next _ hpending

theorem sound_execute {stack : H256} (h : Sound K s) (hintime : InTime s (.device stack))
    (ht : s.execute stack = some t) : Sound K t := by
  obtain ⟨hsettled, device, rfl⟩ := settled_execute hintime ht
  exact ⟨fun hvalid => (h.lined hvalid).congr
    (fun _ _ hpipe => hpipe.congr hsettled rfl rfl rfl rfl rfl rfl rfl rfl rfl) hsettled Iff.rfl rfl
    id id, h.idle, h.evaluated⟩

/-! ## The thread -/

theorem launchNext_ok {c : Choice} (h : s.launchNext c = .ok t) :
    ∃ setup, s.device.ready = .ok setup ∧
      t = { s.enqueueSearch setup (s.activeBuffer + 1) c.gids with point := .results 0 } := by
  obtain ⟨setup, hready, hreturn⟩ := Except.bind_eq_ok.mp h
  cases hreturn
  exact ⟨setup, hready, rfl⟩

theorem lined_launchNext {c : Choice} (hpipe : Pipelined K s finished [l])
    (hactive : l.buffer = s.activeBuffer)
    (hfree : (s.settled.searchBuffer (s.activeBuffer + 1)).Empty)
    (hresults : ∀ i : Fin maxSearchResults, i.val < s.results.count.toNat →
      (s.results.rslt i).Of K s.current s.activeStartNonce)
    (h : s.launchNext c = .ok t) : Lined K t := by
  obtain ⟨setup, -, rfl⟩ := launchNext_ok h
  have hne : ∀ l' ∈ [l], l'.buffer ≠ s.activeBuffer + 1 := by
    intro l' hl'
    rw [List.mem_singleton.mp hl', hactive]
    exact (other_ne _).symm
  have hnext := pipelined_enqueueSearch hpipe setup c.gids hfree hne
  exact .running finished l _ (by simp) (hnext.congr rfl rfl rfl rfl rfl rfl rfl rfl rfl rfl)
    hactive rfl hresults

theorem loadDag_ok {config : Config} {outcome : Outcome} (h : s.loadDag config outcome = .ok t) :
    ∃ device dagLoaded, t = { s with device := device, dagLoaded := dagLoaded } := by
  rw [State.loadDag] at h
  split at h
  · split at h
    · cases h
      exact ⟨_, _, rfl⟩
    · split at h
      · cases h
      · cases h
        exact ⟨_, _, rfl⟩
  · cases h
    exact ⟨_, _, rfl⟩

theorem startWork_ok {c : Choice} (h : s.startWork K c = .ok t) :
    ∃ setup, s.device.ready = .ok setup ∧
      t = (State.prepare K { s with lastHeight := s.current.nHeight.setWidth 64 } c).enqueueSearch
        setup 0 c.gids := by
  obtain ⟨setup, hready, hrest⟩ := Except.bind_eq_ok.mp h
  refine ⟨setup, hready, ?_⟩
  split at hrest
  · cases hrest
  · cases hrest
    rfl

theorem lined_startWork {c : Choice} (h : s.startWork K c = .ok t) : Lined K t := by
  obtain ⟨setup, -, rfl⟩ := startWork_ok h
  obtain ⟨hpipe, hempty⟩ := pipelined_prepare (K := K)
    { s with lastHeight := s.current.nHeight.setWidth 64 } c
  refine .block _ rfl (pipelined_enqueueSearch hpipe setup c.gids (hempty 0) (by simp)) rfl ?_ rfl
  rw [settled_enqueueSearch]
  have hother : (State.prepare K { s with lastHeight := s.current.nHeight.setWidth 64 } c).activeBuffer
      + 1 ≠ 0 := other_ne 0
  rw [show (State.enqueueSearch _ setup 0 c.gids).activeBuffer = _ from rfl,
    searchBuffer_search hother]
  exact hempty _

theorem sound_takeWork {config : Config} {c : Choice} (h : Sound K s) (htop : s.point = .top)
    (ht : s.takeWork K config c = .ok t) : Sound K t := by
  rw [State.takeWork] at ht
  dsimp only at ht
  split at ht
  next hinvalid =>
    cases ht
    refine ⟨fun hvalid => ?_, fun _ => htop, h.evaluated⟩
    rw [hvalid] at hinvalid
    cases hinvalid
  next hvalid =>
    obtain ⟨u, hload, hstart⟩ := Except.bind_eq_ok.mp ht
    obtain ⟨device, dagLoaded, rfl⟩ := loadDag_ok hload
    have hlined := lined_startWork hstart
    obtain ⟨setup, -, rfl⟩ := startWork_ok hstart
    have hwork : s.assignment.work.isValid = true := by simpa using hvalid
    exact .of_valid hwork hlined h.evaluated

/-- The older search is read and a new one enqueued on its buffer. -/
theorem lined_readBuffer {c : Choice} (h : Lined K s) (htop : s.point = .top)
    (hidle : s.device.commands.pending = []) (ht : s.readBuffer.launchNext c = .ok t) :
    Lined K t := by
  cases h with
  | block l point => rw [htop] at point; cases point
  | running finished l l' point pipe active other results =>
    have hfree : ∀ l'' ∈ [l'], l''.buffer ≠ s.activeBuffer := by
      intro l'' hl''
      rw [List.mem_singleton.mp hl'', other]
      exact other_ne _
    obtain ⟨hpipe, hempty, hresults⟩ := pipelined_readBuffer pipe hidle active hfree
    refine lined_launchNext hpipe other ?_ hresults ht
    have hback : s.readBuffer.activeBuffer + 1 = s.activeBuffer := other_other _
    rw [hback]
    exact hempty

theorem current_launchNext {c : Choice} (h : s.launchNext c = .ok t) :
    t.current = s.current ∧ t.evaluated = s.evaluated := by
  obtain ⟨setup, -, rfl⟩ := launchNext_ok h
  exact ⟨rfl, rfl⟩

theorem sound_nextResult {c : Choice} {i : Nat} (h : Sound K s) (hpoint : s.point = .results i)
    (ht : s.nextResult i c = .ok t) : Sound K t := by
  have hvalid := h.valid (by rw [hpoint]; exact Point.noConfusion)
  have hlined := h.lined hvalid
  have hblock : s.point ≠ .block := by
    rw [hpoint]
    exact Point.noConfusion
  rw [State.nextResult] at ht
  split at ht
  next hnext =>
    split at ht
    next hi =>
      cases ht
      refine .of_valid hvalid (hlined.congr
        (fun _ _ hpipe => hpipe.congr rfl rfl rfl rfl rfl rfl rfl rfl rfl rfl) rfl ?_ rfl id ?_)
        fun e he => ?_
      · exact ⟨fun hb => Point.noConfusion hb, fun hb => absurd hb hblock⟩
      · exact fun hresults j hj => ⟨(hresults j hj).nonce, (hresults j hj).header,
          (hresults j hj).target⟩
      · rcases List.mem_cons.mp he with rfl | he
        · cases hlined with
          | block l point => exact absurd point hblock
          | running finished l l' point pipe active other results => exact results ⟨i, hi⟩ hnext.1
        · exact h.evaluated e he
    next => cases ht
  next =>
    cases ht
    refine ⟨fun _ => hlined.congr
      (fun _ _ hpipe => hpipe.congr rfl rfl rfl rfl rfl rfl rfl rfl rfl rfl) rfl ?_ rfl id id,
      fun _ => rfl, h.evaluated⟩
    exact ⟨fun hb => Point.noConfusion hb, fun hb => absurd hb hblock⟩

theorem sound_run {config : Config} {c : Choice} (h : Sound K s)
    (ht : s.run K config c = some (.ok t)) : Sound K t := by
  rw [State.run] at ht
  split at ht
  next htop =>
    split at ht
    · cases ht
      exact h
    · split at ht
      · exact sound_takeWork h htop (Option.some.inj ht)
      · split at ht
        next hread =>
          obtain ⟨hidle, hnext⟩ := Option.ite_none_right_eq_some.mp ht
          have hvalid : s.current.isValid = true := (Bool.and_eq_true .. ▸ hread).2
          obtain ⟨hcurrent, hevaluated⟩ := current_launchNext (Option.some.inj hnext)
          refine .of_valid (hcurrent ▸ hvalid) ?_ (hevaluated ▸ h.evaluated)
          exact lined_readBuffer (h.lined hvalid) htop (List.isEmpty_iff.mp hidle)
            (Option.some.inj hnext)
        next =>
          cases ht
          refine ⟨fun hvalid => (h.lined hvalid).congr
            (fun _ _ hpipe => hpipe.congr rfl rfl rfl rfl rfl rfl rfl rfl rfl rfl) rfl Iff.rfl rfl
            (fun _ => rfl) ?_, h.idle, h.evaluated⟩
          exact fun _ i hi => absurd hi (Nat.not_lt_zero _)
  next hblock =>
    have hvalid := h.valid (by rw [hblock]; exact Point.noConfusion)
    obtain ⟨hcurrent, hevaluated⟩ := current_launchNext (Option.some.inj ht)
    refine .of_valid (hcurrent ▸ hvalid) ?_ (hevaluated ▸ h.evaluated)
    cases h.lined hvalid with
    | block l point pipe active free none =>
      refine lined_launchNext pipe active free (fun i hi => ?_) (Option.some.inj ht)
      rw [none] at hi
      exact absurd hi (Nat.not_lt_zero _)
    | running finished l l' point => exact absurd hblock point
  next i hresults => exact sound_nextResult h hresults (Option.some.inj ht)

end

theorem sound_step {K : KeccakFns} {config : Config} {s t : State} {e : Event} (h : Sound K s)
    (hintime : InTime s e) (hstep : step K config s e = some (.ok t)) : Sound K t := by
  cases e with
  | order order =>
    cases hstep
    exact sound_order h order
  | thread choice => exact sound_run h hstep
  | device stack =>
    have hu := Machine.eq_some_of_map_ok hstep
    exact sound_execute h hintime hu

theorem sound_of_inTime {K : KeccakFns} {config : Config} {s : State}
    (h : (system K config).Reachable InTime s) : Sound K s := by
  refine h.invariant ?_ fun _ _ _ hs hintime hstep => sound_step hs hintime hstep
  rintro s ⟨memory, results, rfl⟩
  exact ⟨fun hvalid => absurd (show Work.blank.isValid = true from hvalid) (by decide), fun _ => rfl,
    fun e he => absurd he List.not_mem_nil⟩

/-! ## The ranges -/

/-- The nonces a search tries. -/
def Launch.nonces (l : Launch) : Set (BitVec 64) :=
  { nonce | ∃ i < l.size.toNat, nonce = l.nonce + BitVec.ofNat 64 i }

theorem disjoint_nonces {first : BitVec 64} {size k k' : Nat} {l l' : Launch} (hlt : k < k')
    (hspace : (k' + 1) * size ≤ 2 ^ 64) (hl : l.nonce = first + BitVec.ofNat 64 (k * size))
    (hl' : l'.nonce = first + BitVec.ofNat 64 (k' * size)) (hsize : l.size.toNat = size)
    (hsize' : l'.size.toNat = size) : ∀ nonce ∈ l.nonces, nonce ∉ l'.nonces := by
  rintro nonce ⟨i, hi, rfl⟩ ⟨i', hi', heq⟩
  rw [hl, hl', BitVec.add_assoc, BitVec.add_assoc, ← BitVec.ofNat_add, ← BitVec.ofNat_add] at heq
  have hnat := congrArg BitVec.toNat ((BitVec.add_right_inj first).mp heq)
  have hrange : (k + 1) * size ≤ k' * size := Nat.mul_le_mul_right _ hlt
  rw [Nat.add_mul, Nat.one_mul] at hspace hrange
  rw [BitVec.toNat_ofNat, BitVec.toNat_ofNat, Nat.mod_eq_of_lt (by omega),
    Nat.mod_eq_of_lt (by omega)] at hnat
  omega

/-- The pipeline is faithful. -/
structure Faithful (K : KeccakFns) (s : State) : Prop where
  /-- a result was evaluated with the nonce, the header and the target of the search that reported
  it -/
  paired : ∀ e ∈ s.evaluated, e.startNonce = e.entry.source.launch.nonce ∧
    e.entry.source.header = hashHeader K e.work ∧
    e.entry.source.launch.target = upper64OfBoundary e.work.hashTarget
  /-- the searches for the current work try consecutive ranges -/
  consecutive : s.current.isValid → ∀ k l, s.launched[k]? = some l →
    l.nonce = s.firstNonce + BitVec.ofNat 64 (k * s.batchSize.toNat) ∧ l.size = s.batchSize
  /-- which are disjoint until the nonces are used up -/
  disjoint : s.current.isValid → s.launched.length * s.batchSize.toNat ≤ 2 ^ 64 →
    s.launched.Pairwise fun l l' => ∀ nonce ∈ l.nonces, nonce ∉ l'.nonces
  /-- the searches are read once and in order, each alone on a buffer that was zeroed before -/
  inOrder : s.current.isValid →
    s.reads = (s.launched.take s.reads.length).map fun l => [⟨l, hashHeader K s.current⟩]

theorem Pipelined.inOrder {K : KeccakFns} {s : State} {finished flight : List Launch}
    (h : Pipelined K s finished flight) :
    s.reads = (s.launched.take s.reads.length).map fun l => [⟨l, hashHeader K s.current⟩] := by
  have hlength : s.reads.length = finished.length := by rw [h.reads, List.length_map]
  rw [hlength, h.launched, List.take_left' rfl]
  exact h.reads

theorem Pipelined.disjoint {K : KeccakFns} {s : State} {finished flight : List Launch}
    (h : Pipelined K s finished flight) (hspace : s.launched.length * s.batchSize.toNat ≤ 2 ^ 64) :
    s.launched.Pairwise fun l l' => ∀ nonce ∈ l.nonces, nonce ∉ l'.nonces := by
  rw [List.pairwise_iff_getElem]
  intro k k' hk hk' hlt
  refine disjoint_nonces hlt ((Nat.mul_le_mul_right _ hk').trans hspace)
    (h.nonces k _ (List.getElem?_eq_getElem hk)) (h.nonces k' _ (List.getElem?_eq_getElem hk')) ?_ ?_
  · rw [(h.arguments _ (List.getElem_mem hk)).2]
  · rw [(h.arguments _ (List.getElem_mem hk')).2]

theorem Lined.pipelined {K : KeccakFns} {s : State} (h : Lined K s) :
    ∃ finished flight, Pipelined K s finished flight := by
  cases h with
  | block l _ pipe | running _ _ _ _ pipe => exact ⟨_, _, pipe⟩

/-- If every copy of a header is made in time, the pipeline is faithful in every state of the run. -/
theorem faithful_of_inTime {K : KeccakFns} {config : Config} {s : State}
    (h : (system K config).Reachable InTime s) : Faithful K s := by
  have hsound := sound_of_inTime h
  refine ⟨fun e he => ?_, fun hvalid k l hl => ?_, fun hvalid hspace => ?_, fun hvalid => ?_⟩
  · obtain ⟨hnonce, hheader, htarget⟩ := hsound.evaluated e he
    exact ⟨hnonce.symm, hheader, htarget⟩
  · obtain ⟨finished, flight, hpipe⟩ := (hsound.lined hvalid).pipelined
    exact ⟨hpipe.nonces k l hl, (hpipe.arguments l (List.mem_of_getElem? hl)).2⟩
  · obtain ⟨finished, flight, hpipe⟩ := (hsound.lined hvalid).pipelined
    exact hpipe.disjoint hspace
  · obtain ⟨finished, flight, hpipe⟩ := (hsound.lined hvalid).pipelined
    exact hpipe.inOrder

/-- A work is assigned, and the first search for it reports a nonce, which is evaluated. -/
theorem faithful_of_inTime_evaluated :
    ∃ s, s.evaluated.length = 1 ∧ Faithful keccakTiny s := by
  have hmeets : (system keccakTiny smallConfig).Meets InTime (.initial .blank .blank)
      [.order (.setWork (workAt 1) (workAt 1)), .thread (choose [5]), .device (.replicate 32 0),
        .thread (choose []), .device (.replicate 32 0), .device (.replicate 32 0),
        .device (.replicate 32 0), .device (.replicate 32 0), .thread (choose []),
        .thread (choose []), .thread (choose [])] := by
    decide +kernel
  obtain ⟨s, hsteps, hs⟩ := Machine.steps_of_endsIn
    (p := fun s : State => decide (s.evaluated.length = 1)) hmeets (by decide +kernel)
  exact ⟨s, of_decide_eq_true hs, faithful_of_inTime ⟨_, ⟨_, _, rfl⟩, hsteps⟩⟩

/-- The header bytes of a result that was evaluated, and those of the header of its work before they
are hashed. -/
def Evaluation.bytes (e : Evaluation) : H256 × List Byte :=
  (e.entry.source.header, truncatedLE e.work.toBlockHeader)

/-- The work is assigned, reset and assigned again. Both copies of its header are made after their
blocks have ended; the first finds zeros and the second finds ones. So a nonce is evaluated that comes
from a search with a header that is not that of the work. -/
theorem searches_wrong_header :
    (system keccakTiny smallConfig).endsIn
      (fun s => s.evaluated.any fun e =>
        decide (e.entry.source.header ≠ hashHeader keccakTiny e.work))
      (.initial .blank .blank)
      ([.order (.setWork (workAt 1) (workAt 1)), .thread (choose [5]), .thread (choose []),
          .thread (choose [])] ++
        List.replicate 5 (.device (.replicate 32 0)) ++
        [.thread (choose []), .thread (choose []), .order .resetWork, .thread (choose []),
          .order (.setWork (workAt 1) (workAt 1)), .thread (choose [6]), .thread (choose []),
          .thread (choose [])] ++
        List.replicate 7 (.device (.replicate 32 1)) ++
        [.thread (choose []), .thread (choose [])]) = true := by
  have hrun : ∀ s : State, decide (s.evaluated.map Evaluation.bytes =
      [(.replicate 32 1, truncatedLE (workAt 1).toBlockHeader),
        (.replicate 32 0, truncatedLE (workAt 1).toBlockHeader)]) = true →
      (s.evaluated.any fun e =>
        decide (e.entry.source.header ≠ hashHeader keccakTiny e.work)) = true := by
    intro s hs
    have hbytes := of_decide_eq_true hs
    by_contra hright
    have hhash : ∀ x ∈ s.evaluated.map Evaluation.bytes, x.1 = Core.h256Hash keccakTiny x.2 := by
      intro x hx
      obtain ⟨e, he, rfl⟩ := List.mem_map.mp hx
      by_contra hwrong
      exact hright (List.any_eq_true.mpr ⟨e, he, decide_eq_true hwrong⟩)
    -- the hash itself need not be computed: it is not both
    rw [hbytes] at hhash
    have hones := hhash _ List.mem_cons_self
    have hzeros := hhash _ (List.mem_cons_of_mem _ List.mem_cons_self)
    exact absurd (hones.trans hzeros.symm) (by decide)
  exact Machine.endsIn_mono (by decide +kernel) hrun

end Energiminer.OpenCL.Miner
