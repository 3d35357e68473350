import Energiminer.Cuda.Proofs.Init

/-!
# The streams of a search

The thread restarts a stream on the same result buffer before it has read the results of the kernel it
waited for (`CUDAMiner.cpp:487-504`), and computes the base nonce of that kernel with the 32-bit product
`streams_batch_size`. If the restarted kernels write no slot that is still to be read, a kernel left
over from an earlier `search` reports nothing once its stream is used again, and the product does not
wrap, every round evaluates what its launch has reported.
-/

namespace Energiminer.Cuda.Miner
open Misc Nrghash Primitives Engines

/-! ## Buffers and streams -/

/-- The buffer holds the reports of a launch. -/
structure SearchResults.Reflects (r : SearchResults) (l : Launch) : Prop where
  count : r.count.toNat = l.gids.length
  result : ∀ (k : Fin maxSearchResults) (gid : BitVec 32), l.gids[k.val]? = some gid → r.result k = gid

/-- The launch is the last one on the stream, running or finished, and the buffer holds its reports. -/
structure Stream.Tracks (st : Stream) (l : Launch) : Prop where
  buffer : st.buffer.Reflects l
  last : (∃ older, st.queue = older ++ [l]) ∨ (st.queue = [] ∧ st.last = some l)

section
variable {r : SearchResults} {st st' : Stream} {l : Launch} {threads : Nat} {gid : BitVec 32}

theorem count_report (r : SearchResults) (gid : BitVec 32) :
    (r.report gid).count = r.count + 1 := by
  rw [SearchResults.report]
  split <;> rfl

theorem result_report {k : Fin maxSearchResults} (hk : k.val ≠ r.count.toNat) :
    (r.report gid).result k = r.result k := by
  rw [SearchResults.report]
  split
  · exact Function.update_of_ne (fun heq => hk (congrArg Fin.val heq)) ..
  · rfl

theorem result_report_self (hcount : r.count.toNat < maxSearchResults) :
    (r.report gid).result ⟨r.count.toNat, hcount⟩ = gid := by
  rw [SearchResults.report, dif_pos hcount]
  exact Function.update_self ..

theorem reflects_report (h : r.Reflects l) (hlength : l.gids.length + 1 < 2 ^ 32) :
    (r.report gid).Reflects { l with gids := l.gids ++ [gid] } := by
  constructor
  · rw [count_report, BitVec.toNat_add, h.count, List.length_append]
    exact Nat.mod_eq_of_lt hlength
  · intro k gid' hgid'
    dsimp only at hgid'
    rw [List.getElem?_append] at hgid'
    split at hgid'
    next hk =>
      rw [result_report (by rw [h.count]; omega)]
      exact h.result k gid' hgid'
    next hk =>
      rw [List.getElem?_singleton] at hgid'
      split at hgid'
      next hzero =>
        cases hgid'
        have hk : k.val = r.count.toNat := by
          rw [h.count]
          omega
        have hlt : r.count.toNat < maxSearchResults := hk ▸ k.isLt
        rw [show k = ⟨r.count.toNat, hlt⟩ from Fin.ext hk]
        exact result_report_self hlt
      next => cases hgid'

theorem report_some (h : st.report threads gid = some st') :
    ∃ l older, st.queue = l :: older ∧ l.gids.length < threads ∧
      st' = { st with
        queue := { l with gids := l.gids ++ [gid] } :: older, buffer := st.buffer.report gid } := by
  rw [Stream.report] at h
  split at h
  · cases h
  next l older hqueue =>
    obtain ⟨hlt, hst⟩ := Option.ite_none_right_eq_some.mp h
    cases hst
    exact ⟨l, older, hqueue, hlt, rfl⟩

theorem tracks_report (h : st.Tracks l) (hthreads : threads < 2 ^ 32)
    (honly : st.queue.length = 1) (hst' : st.report threads gid = some st') :
    ∃ l', st'.Tracks l' ∧ l'.base = l.base := by
  obtain ⟨l₀, older, hqueue, hlt, rfl⟩ := report_some hst'
  have holder : older = [] := by
    rw [hqueue, List.length_cons] at honly
    exact List.length_eq_zero_iff.mp (by omega)
  subst holder
  have hl : l₀ = l := by
    rcases h.last with ⟨older, hl⟩ | ⟨hempty, -⟩
    · rw [hqueue] at hl
      cases older with
      | nil =>
        cases hl
        rfl
      | cons _ older =>
        have hlength := congrArg List.length hl
        simp at hlength
    · rw [hqueue] at hempty
      cases hempty
  subst hl
  exact ⟨_, ⟨reflects_report h.buffer (by omega), .inl ⟨[], rfl⟩⟩, rfl⟩

theorem tracks_finish (h : st.Tracks l) (hst' : st.finish = some st') : st'.Tracks l := by
  rw [Stream.finish] at hst'
  split at hst'
  · cases hst'
  next l₀ queue hqueue =>
    cases hst'
    refine ⟨h.buffer, ?_⟩
    rcases h.last with ⟨older, hl⟩ | ⟨hempty, -⟩
    · rw [hqueue] at hl
      cases older with
      | nil =>
        cases hl
        exact .inr ⟨rfl, rfl⟩
      | cons _ older =>
        cases hl
        exact .inl ⟨older, rfl⟩
    · rw [hqueue] at hempty
      cases hempty

theorem tracks_launch (st : Stream) (hgids : l.gids = []) : (st.launch l).Tracks l := by
  refine ⟨⟨?_, fun k gid hgid => ?_⟩, .inl ⟨st.queue, rfl⟩⟩
  · rw [hgids]
    rfl
  · rw [hgids] at hgid
    cases hgid

theorem last_of_idle (h : st.Tracks l) (hidle : st.queue = []) : st.last = some l := by
  rcases h.last with ⟨older, hl⟩ | ⟨-, hlast⟩
  · rw [hidle] at hl
    cases older <;> cases hl
  · exact hlast

end

/-! ## Rounds -/

/-- The nonces of the reports a launch has room for. -/
def Launch.nonces (l : Launch) : List (BitVec 64) :=
  (l.gids.take maxSearchResults).map fun gid => l.base + gid.setWidth 64

/-- Only what the launch reported is evaluated, from the first report on, with the base nonce of the
launch; and all of it once the loop has ended, unless new work has arrived. -/
def Round.Faithful (r : Round) : Prop :=
  ∃ l, r.launch = some l ∧ r.evaluated <+: l.nonces ∧ (r.complete → r.evaluated = l.nonces)

/-- The round in progress, whose results from index `j` on are still in the buffer. -/
structure Round.Open (config : Config) (r : Round) (nonce : BitVec 64) (buffer : SearchResults)
    (found j : Nat) (l : Launch) : Prop where
  launch : r.launch = some l
  base : l.base = nonce - BitVec.ofNat 64 (config.numStreams.toNat * config.batchSize.toNat)
  count : found = l.nonces.length
  index : j ≤ found
  evaluated : r.evaluated = l.nonces.take j
  unfinished : r.complete = false
  unread : ∀ k : Fin maxSearchResults, j ≤ k.val → k.val < found →
    l.gids[k.val]? = some (buffer.result k)

/-- The thread has still to read a slot of a stream. -/
def Point.unread (i slot : Nat) : Point → Bool
  | .results i' found j => decide (i' = i ∧ j ≤ slot ∧ slot < found)
  | _ => false

/-- No kernel reports that is not the last one of its stream, and none writes a slot that the thread
has still to read. -/
def Undisturbed (s : State) : Event → Prop
  | .report i _ => (s.device.streams i).queue.length = 1 ∧
    s.point.unread i (s.device.streams i).buffer.count.toNat = false
  | _ => True

instance : ∀ (s : State) (e : Event), Decidable (Undisturbed s e)
  | s, .report i _ => inferInstanceAs (Decidable ((s.device.streams i).queue.length = 1 ∧
      s.point.unread i (s.device.streams i).buffer.count.toNat = false))
  | _, .order _ => .isTrue trivial
  | _, .thread _ => .isTrue trivial
  | _, .finish _ => .isTrue trivial

/-! ## The invariant -/

/-- By how many batches the last launch on a stream is behind `current_nonce`, where the thread knows
it. -/
def Point.lag (numStreams : Nat) (k : Nat) : Point → Option Nat
  | .top => none
  | .prime i => if k < i then some (i - k) else none
  | .test => some (numStreams - k)
  | .sync i => some (if k < i then i - k else numStreams + i - k)
  | .results i _ _ => some (if k = i then 0 else if k < i then i - k else numStreams + i - k)

/-- The stream the thread is at exists. -/
def Point.Within (numStreams : Nat) : Point → Prop
  | .prime i => i ≤ numStreams
  | .sync i | .results i _ _ => i < numStreams
  | .top | .test => True

structure Streaming (config : Config) (s : State) : Prop where
  within : s.point.Within config.numStreams.toNat
  tracks : ∀ k < config.numStreams.toNat, ∀ d ∈ s.point.lag config.numStreams.toNat k,
    ∃ l, (s.device.streams k).Tracks l ∧
      l.base = s.currentNonce - BitVec.ofNat 64 (d * config.batchSize.toNat)
  round : ∀ i found j, s.point = .results i found j → ∃ r rest l, s.rounds = r :: rest ∧
    r.Open config s.currentNonce (s.device.streams i).buffer found j l
  rounds : ∀ r ∈ s.rounds, r.Faithful

section
variable {config : Config} {s t : State} {c : Choice} {i found j : Nat}

theorem length_nonces (l : Launch) : l.nonces.length = min maxSearchResults l.gids.length := by
  rw [Launch.nonces, List.length_map, List.length_take]

theorem base_next (nonce : BitVec 64) (batch : BitVec 32) (d : Nat) :
    nonce - BitVec.ofNat 64 (d * batch.toNat) =
      nonce + batch.setWidth 64 - BitVec.ofNat 64 ((d + 1) * batch.toNat) := by
  have hbatch : batch.setWidth 64 = BitVec.ofNat 64 batch.toNat := (BitVec.ofNat_toNat ..).symm
  rw [hbatch, Nat.add_mul, Nat.one_mul, BitVec.ofNat_add]
  ring

/-- The base that the thread computes is that of the launch if the product does not wrap. -/
theorem nonceBase_eq (nonce : BitVec 64)
    (hpass : config.numStreams.toNat * config.batchSize.toNat < 2 ^ 32) :
    nonce - config.streamsBatchSize.setWidth 64 =
      nonce - BitVec.ofNat 64 (config.numStreams.toNat * config.batchSize.toNat) := by
  have hproduct : config.streamsBatchSize.toNat =
      config.numStreams.toNat * config.batchSize.toNat := by
    rw [Config.streamsBatchSize, BitVec.toNat_mul, Nat.mul_comm, Nat.mod_eq_of_lt hpass]
  rw [← hproduct, BitVec.ofNat_toNat]

/-! ## The kernels -/

theorem streams_setStream (s : State) (i k : Nat) (st : Stream) :
    (s.setStream i st).device.streams k = if k = i then st else s.device.streams k :=
  Function.update_apply ..

/-- A change of a stream that keeps track of its launch and leaves the slots to be read. -/
theorem streaming_setStream {st : Stream} (h : Streaming config s)
    (htracks : ∀ l, (s.device.streams i).Tracks l → ∃ l', st.Tracks l' ∧ l'.base = l.base)
    (hunread : ∀ k : Fin maxSearchResults, s.point.unread i k.val →
      st.buffer.result k = (s.device.streams i).buffer.result k) :
    Streaming config (s.setStream i st) := by
  refine ⟨h.within, fun k hk d hd => ?_, fun i' found j hpoint => ?_, h.rounds⟩
  · obtain ⟨l, hl, hbase⟩ := h.tracks k hk d hd
    rw [streams_setStream]
    split
    next heq =>
      subst heq
      obtain ⟨l', hl', hbase'⟩ := htracks l hl
      exact ⟨l', hl', hbase'.trans hbase⟩
    next => exact ⟨l, hl, hbase⟩
  · obtain ⟨r, rest, l, hrounds, hopen⟩ := h.round i' found j hpoint
    refine ⟨r, rest, l, hrounds, hopen.launch, hopen.base, hopen.count, hopen.index, hopen.evaluated,
      hopen.unfinished, fun k hj hk => ?_⟩
    rw [hopen.unread k hj hk, streams_setStream]
    split
    next heq =>
      subst heq
      rw [hunread k]
      rw [show s.point = _ from hpoint, Point.unread]
      exact decide_eq_true ⟨rfl, hj, hk⟩
    next => rfl

theorem streaming_report {gid : BitVec 32} {st : Stream} (hthreads : config.threads < 2 ^ 32)
    (h : Streaming config s) (hundisturbed : Undisturbed s (.report i gid))
    (hst : (s.device.streams i).report config.threads gid = some st) :
    Streaming config (s.setStream i st) := by
  obtain ⟨honly, hslot⟩ := hundisturbed
  refine streaming_setStream h (fun l hl => tracks_report hl hthreads honly hst) fun k hk => ?_
  obtain ⟨l, older, -, -, rfl⟩ := report_some hst
  refine result_report fun heq => ?_
  rw [heq, hslot] at hk
  cases hk

theorem streaming_finish {st : Stream} (h : Streaming config s)
    (hst : (s.device.streams i).finish = some st) : Streaming config (s.setStream i st) := by
  refine streaming_setStream h (fun l hl => ⟨l, tracks_finish hl hst, rfl⟩) fun k _ => ?_
  rw [Stream.finish] at hst
  split at hst
  · cases hst
  · cases hst
    rfl

/-! ## The thread -/

theorem launch_ok (h : s.launch config i = .ok t) :
    ∃ l setup, s.device.ready i = .ok setup ∧
      l = { base := s.currentNonce, height := s.current.nHeight, setup, gids := [] } ∧
      t = { s.setStream i ((s.device.streams i).launch l) with launched := l :: s.launched } := by
  obtain ⟨setup, hready, hrest⟩ := Except.bind_eq_ok.mp h
  split at hrest
  · cases hrest
  · cases hrest
    exact ⟨_, setup, hready, rfl, rfl⟩

/-- Outside the `while` loop of a search, nothing is known about the streams. -/
theorem streaming_of_lag (hpoint : t.point = .top ∨ t.point = .prime 0)
    (hrounds : ∀ r ∈ t.rounds, r.Faithful) : Streaming config t := by
  refine ⟨?_, fun k _ d hd => ?_, fun i found j hp => ?_, hrounds⟩
  · rcases hpoint with hpoint | hpoint
    · rw [hpoint]
      trivial
    · rw [hpoint]
      exact Nat.zero_le _
  · rcases hpoint with hpoint | hpoint
    · rw [hpoint] at hd
      cases hd
    · rw [hpoint, Point.lag, if_neg (Nat.not_lt_zero k)] at hd
      cases hd
  · rcases hpoint with hpoint | hpoint
    · rw [hpoint] at hp
      cases hp
    · rw [hpoint] at hp
      cases hp

theorem startSearch_ok (h : s.startSearch c = .ok t) :
    t = { s with point := .prime 0, currentNonce := c.startNonce } := by
  rw [State.startSearch] at h
  split at h
  · cases h
  · cases h
    rfl

theorem loadDag_ok {outcome : Outcome} (h : s.loadDag config outcome = .ok t) :
    ∃ device dagLoaded, t = { s with device := device, dagLoaded := dagLoaded } := by
  rw [State.loadDag] at h
  split at h
  · split at h
    · cases h
      exact ⟨_, _, rfl⟩
    · split at h
      · cases h
      · cases h
        exact ⟨_, _, rfl⟩
  · cases h
    exact ⟨_, _, rfl⟩

theorem streaming_takeWork (h : Streaming config s) (htop : s.point = .top)
    (ht : s.takeWork config c = .ok t) : Streaming config t := by
  rw [State.takeWork] at ht
  dsimp only at ht
  split at ht
  · cases ht
    exact streaming_of_lag (.inl htop) h.rounds
  · obtain ⟨u, hload, hstart⟩ := Except.bind_eq_ok.mp ht
    obtain ⟨device, dagLoaded, rfl⟩ := loadDag_ok hload
    rw [startSearch_ok hstart]
    exact streaming_of_lag (.inr rfl) h.rounds

/-- A launch on stream `i` is a launch with the current nonce; the other streams stay. -/
theorem tracks_setStream (config : Config) {l : Launch} (hgids : l.gids = [])
    (hbase : l.base = s.currentNonce) {k d : Nat} (hother : k ≠ i → ∃ l, (s.device.streams k).Tracks l ∧
      l.base = s.currentNonce - BitVec.ofNat 64 (d * config.batchSize.toNat))
    (hself : k = i → d = 0) :
    ∃ l', ((s.setStream i ((s.device.streams i).launch l)).device.streams k).Tracks l' ∧
      l'.base = s.currentNonce - BitVec.ofNat 64 (d * config.batchSize.toNat) := by
  rw [streams_setStream]
  split
  next heq =>
    refine ⟨l, tracks_launch _ hgids, ?_⟩
    rw [hbase, hself heq, Nat.zero_mul]
    exact (BitVec.sub_zero _).symm
  next hne => exact hother hne

theorem streaming_prime (h : Streaming config s) (hpoint : s.point = .prime i)
    (ht : s.prime config i = .ok t) : Streaming config t := by
  have hwithin := h.within
  rw [hpoint] at hwithin
  rw [State.prime] at ht
  split at ht
  next hi =>
    obtain ⟨u, hlaunch, hreturn⟩ := Except.bind_eq_ok.mp ht
    obtain ⟨l, setup, -, hl, rfl⟩ := launch_ok hlaunch
    cases hreturn
    refine ⟨hi, fun k hk d hd => ?_, fun i' found j hp => ?_, h.rounds⟩
    · -- a stream that is not later than `i`, by one batch more than before
      obtain ⟨hki, hd⟩ := Option.ite_none_right_eq_some.mp hd
      have hlag : i + 1 - k = d := Option.some.inj hd
      obtain ⟨e, rfl⟩ : ∃ e, d = e + 1 := ⟨i - k, by omega⟩
      have htracks := tracks_setStream config (s := s) (i := i) (l := l) (k := k) (d := e)
        (by rw [hl]) (by rw [hl]) (fun hne => ?_) (fun heq => ?_)
      · obtain ⟨l', hl', hbase⟩ := htracks
        exact ⟨l', hl', hbase.trans (base_next ..)⟩
      · refine h.tracks k hk e ?_
        rw [hpoint, Point.lag, if_pos (by omega)]
        exact congrArg some (by omega)
      · omega
    · cases hp
  next hi =>
    cases ht
    refine ⟨trivial, fun k hk d hd => ?_, fun i' found j hp => ?_, h.rounds⟩
    · have hlast : i = config.numStreams.toNat := Nat.le_antisymm hwithin (Nat.le_of_not_lt hi)
      refine h.tracks k hk d ?_
      rw [hpoint, Point.lag, hlast, if_pos hk]
      exact hd
    · cases hp

theorem streaming_test (h : Streaming config s) (hpoint : s.point = .test) :
    Streaming config
      { s with point := if s.assignment.newWorkAssigned then .top else .sync 0 } := by
  by_cases hnew : s.assignment.newWorkAssigned = true
  · rw [if_pos hnew]
    exact streaming_of_lag (.inl rfl) h.rounds
  · rw [if_neg hnew]
    refine ⟨?_, fun k hk d hd => h.tracks k hk d ?_, fun i found j hp => ?_, h.rounds⟩
    · exact Nat.pos_of_ne_zero fun hzero => config.streams_ne_zero (BitVec.eq_of_toNat_eq hzero)
    · rw [hpoint]
      exact hd
    · cases hp

/-- The results of a launch that has finished are in its buffer when the thread restarts the stream. -/
theorem open_restart {l : Launch} {st : Stream} (htracks : st.Tracks l) (hidle : st.queue = [])
    {nonce : BitVec 64}
    (hbase : l.base = nonce - BitVec.ofNat 64 (config.numStreams.toNat * config.batchSize.toNat)) :
    Round.Open config ⟨st.last, [], false⟩ nonce { st.buffer with count := 0 }
      (min st.buffer.count.toNat maxSearchResults) 0 l := by
  have hcount : min st.buffer.count.toNat maxSearchResults = l.nonces.length := by
    rw [length_nonces, htracks.buffer.count, Nat.min_comm]
  refine ⟨last_of_idle htracks hidle, hbase, hcount, Nat.zero_le _, rfl, rfl, fun k _ hk => ?_⟩
  rw [htracks.buffer.count] at hk
  have hlt : k.val < l.gids.length := lt_of_lt_of_le hk (Nat.min_le_left ..)
  rw [List.getElem?_eq_getElem hlt, htracks.buffer.result k _ (List.getElem?_eq_getElem hlt)]

theorem streaming_restart (h : Streaming config s) (hpoint : s.point = .sync i)
    (hidle : (s.device.streams i).queue = []) (ht : s.restart config i = .ok t) :
    Streaming config t := by
  have hwithin := h.within
  rw [hpoint] at hwithin
  obtain ⟨l, htracks, hbase⟩ := h.tracks i hwithin config.numStreams.toNat (by
    rw [hpoint, Point.lag, if_neg (lt_irrefl i), Nat.add_sub_cancel]
    rfl)
  have hopen := open_restart htracks hidle hbase
  obtain ⟨u, hlaunch, hreturn⟩ := Except.bind_eq_ok.mp ht
  obtain ⟨l', setup, -, hl', rfl⟩ := launch_ok hlaunch
  cases hreturn
  refine ⟨hwithin, fun k hk d hd => ?_, fun i' found j hp => ?_, fun r hr => ?_⟩
  · refine tracks_setStream config (by rw [hl']) (by rw [hl']) (fun hne => ?_) (fun heq => ?_)
    · refine h.tracks k hk d ?_
      rw [hpoint]
      cases hd
      rw [if_neg hne]
      rfl
    · cases hd
      exact if_pos heq
  · cases hp
    refine ⟨_, _, l, rfl, ?_⟩
    rw [streams_setStream, if_pos rfl]
    exact hopen
  · rcases List.mem_cons.mp hr with rfl | hr
    · exact ⟨l, hopen.launch, List.nil_prefix, fun hcomplete => absurd hcomplete Bool.false_ne_true⟩
    · exact h.rounds r hr

/-- The streams are one batch further behind after the round of a stream. -/
theorem lag_next (found j : Nat) {numStreams k d : Nat} (hi : i < numStreams) (hk : k < numStreams)
    (hd : d ∈ Point.lag numStreams k (if i + 1 < numStreams then .sync (i + 1) else .test)) :
    ∃ e ∈ Point.lag numStreams k (.results i found j), d = e + 1 := by
  refine ⟨_, rfl, ?_⟩
  split at hd
  next =>
    have hlag := Option.some.inj hd
    split at hlag <;> split <;> (try split) <;> omega
  next =>
    have hlag := Option.some.inj hd
    split <;> (try split) <;> omega

section
variable {r : Round} {rest : List Round} {l : Launch} {buffer : SearchResults} {nonce : BitVec 64}

theorem open_evaluate (hpass : config.numStreams.toNat * config.batchSize.toNat < 2 ^ 32)
    (h : r.Open config nonce buffer found j l) (hj : j < found) (hmax : j < maxSearchResults) :
    Round.Open config { r with
      evaluated := r.evaluated ++
        [nonce - config.streamsBatchSize.setWidth 64 + (buffer.result ⟨j, hmax⟩).setWidth 64] }
      nonce buffer found (j + 1) l := by
  refine ⟨h.launch, h.base, h.count, hj, ?_, h.unfinished, fun k hjk hk => h.unread k (by omega) hk⟩
  have hgid := h.unread ⟨j, hmax⟩ (le_refl j) hj
  have hnonce : l.nonces[j]? = some (l.base + (buffer.result ⟨j, hmax⟩).setWidth 64) := by
    rw [Launch.nonces, List.getElem?_map, List.getElem?_take_of_lt hmax, hgid]
    rfl
  dsimp only
  rw [nonceBase_eq nonce hpass, ← h.base, h.evaluated, List.take_add_one, hnonce]
  rfl

theorem faithful_of_open (h : r.Open config nonce buffer found j l) (complete : Bool)
    (hcomplete : complete = true → found ≤ j) :
    Round.Faithful { r with complete := complete } := by
  refine ⟨l, h.launch, ?_, fun hc => ?_⟩
  · dsimp only
    rw [h.evaluated]
    exact List.take_prefix ..
  · dsimp only
    rw [h.evaluated]
    exact List.take_of_length_le (h.count ▸ hcomplete hc)

end

theorem mapRound_eq {r : Round} {rest : List Round} (h : s.rounds = r :: rest) (f : Round → Round) :
    s.mapRound f = { s with rounds := f r :: rest } := by
  simp only [State.mapRound, h]

theorem streaming_nextResult (hpass : config.numStreams.toNat * config.batchSize.toNat < 2 ^ 32)
    (h : Streaming config s) (hpoint : s.point = .results i found j) :
    Streaming config (s.nextResult config i found j c) := by
  have hwithin := h.within
  rw [hpoint] at hwithin
  obtain ⟨r, rest, l, hrounds, hopen⟩ := h.round i found j hpoint
  have hrest : ∀ r' ∈ rest, r'.Faithful := fun r' hr' =>
    h.rounds r' (hrounds ▸ List.mem_cons_of_mem _ hr')
  rw [State.nextResult]
  split
  next hnext =>
    have hmax : j < maxSearchResults :=
      lt_of_lt_of_le hnext.1 (by rw [hopen.count, length_nonces]; exact Nat.min_le_left ..)
    rw [dif_pos hmax]
    dsimp only
    rw [mapRound_eq hrounds]
    have hopen' := open_evaluate hpass hopen hnext.1 hmax
    refine ⟨hwithin, fun k hk d hd => h.tracks k hk d (by rw [hpoint]; exact hd),
      fun i' found' j' hp => ?_, fun r' hr' => ?_⟩
    · cases hp
      exact ⟨_, _, l, rfl, hopen'⟩
    · rcases List.mem_cons.mp hr' with rfl | hr'
      · exact faithful_of_open hopen' r.complete fun hc =>
          absurd (hc.symm.trans hopen.unfinished) (by decide)
      · exact hrest r' hr'
  next hlast =>
    rw [mapRound_eq hrounds]
    refine ⟨?_, fun k hk d hd => ?_, fun i' found' j' hp => ?_, fun r' hr' => ?_⟩
    · dsimp only
      split
      next hi => exact hi
      next => trivial
    · obtain ⟨e, he, rfl⟩ := lag_next found j hwithin hk hd
      obtain ⟨l', hl', hbase⟩ := h.tracks k hk e (by rw [hpoint]; exact he)
      exact ⟨l', hl', hbase.trans (base_next ..)⟩
    · dsimp only at hp
      split at hp <;> cases hp
    · rcases List.mem_cons.mp hr' with rfl | hr'
      · exact faithful_of_open hopen _ fun hc => of_decide_eq_true hc
      · exact hrest r' hr'

theorem streaming_run (hpass : config.numStreams.toNat * config.batchSize.toNat < 2 ^ 32)
    (h : Streaming config s) (ht : s.run config c = some (.ok t)) : Streaming config t := by
  rw [State.run] at ht
  split at ht
  next htop =>
    split at ht
    · cases ht
      exact h
    · split at ht
      · exact streaming_takeWork h htop (Option.some.inj ht)
      · split at ht
        · rw [startSearch_ok (Option.some.inj ht)]
          exact streaming_of_lag (.inr rfl) h.rounds
        · cases ht
          exact h
  next i hprime => exact streaming_prime h hprime (Option.some.inj ht)
  next htest =>
    cases ht
    exact streaming_test h htest
  next i hsync =>
    obtain ⟨hidle, hrestart⟩ := Option.ite_none_right_eq_some.mp ht
    exact streaming_restart h hsync (List.isEmpty_iff.mp hidle) (Option.some.inj hrestart)
  next i found j hresults =>
    cases ht
    exact streaming_nextResult hpass h hresults

/-- The nonces of one pass over all streams. -/
def Config.pass (config : Config) : Nat := config.numStreams.toNat * config.threads

theorem threads_le_pass (config : Config) : config.threads ≤ config.pass :=
  Nat.le_mul_of_pos_left _
    (Nat.pos_of_ne_zero fun hzero => config.streams_ne_zero (BitVec.eq_of_toNat_eq hzero))

/-- If a pass does not wrap, the 32-bit batch size is the number of threads. -/
theorem batchSize_eq (hpass : config.pass < 2 ^ 32) : config.batchSize.toNat = config.threads := by
  rw [Config.batchSize, BitVec.toNat_mul]
  exact Nat.mod_eq_of_lt ((threads_le_pass config).trans_lt hpass)

theorem streaming_step (hpass : config.pass < 2 ^ 32) {e : Event} (h : Streaming config s)
    (hundisturbed : Undisturbed s e) (hstep : step config s e = some (.ok t)) :
    Streaming config t := by
  cases e with
  | order order =>
    cases hstep
    exact ⟨h.within, h.tracks, h.round, h.rounds⟩
  | thread choice => exact streaming_run (by rw [batchSize_eq hpass]; exact hpass) h hstep
  | report i gid =>
    obtain ⟨st, hst, heq⟩ := Option.map_eq_some_iff.mp hstep
    cases heq
    exact streaming_report ((threads_le_pass config).trans_lt hpass) h hundisturbed hst
  | finish i =>
    obtain ⟨st, hst, heq⟩ := Option.map_eq_some_iff.mp hstep
    cases heq
    exact streaming_finish h hst

/-- If a pass over the streams does not wrap and no kernel disturbs the reading of results, every round
evaluates the reports of the launch it waited for. -/
theorem rounds_faithful (hpass : config.pass < 2 ^ 32)
    (h : (system config).Reachable Undisturbed s) : ∀ r ∈ s.rounds, r.Faithful := by
  have hstreaming : Streaming config s := by
    refine h.invariant ?_ fun _ _ _ hs hundisturbed hstep =>
      streaming_step hpass hs hundisturbed hstep
    rintro s ⟨buffer, rfl⟩
    exact streaming_of_lag (.inl rfl) fun r hr => absurd hr List.not_mem_nil
  exact hstreaming.rounds

end

/-- The kernel of the first launch reports an id, which is evaluated. -/
theorem rounds_faithful_evaluated :
    ∃ s : State, s.rounds.length = 1 ∧ ∀ r ∈ s.rounds, r.Faithful := by
  have hmeets : (system smallConfig).Meets Undisturbed primed [.thread choose, .report 0 5, .finish 0,
      .thread choose, .thread choose, .thread choose, .thread choose] := by
    decide +kernel
  obtain ⟨s, hsteps, hs⟩ := Machine.steps_of_endsIn
    (p := fun s : State => decide (s.rounds.length = 1)) hmeets (by decide +kernel)
  have hrun := (steps_primed trivial trivial).trans hsteps
  exact ⟨s, of_decide_eq_true hs, rounds_faithful (by decide +kernel) ⟨_, ⟨_, rfl⟩, hrun⟩⟩

/-- The restarted kernel reports before the thread has read the result of the kernel it waited for: the
id 3 of the second launch is evaluated instead of the id 5 of the first, with the base nonce of the
first. -/
theorem evaluates_overwritten_result :
    (system smallConfig).endsIn
      (fun s => decide (s.rounds.map (fun r => (r.launch.map fun l => (l.base, l.gids), r.evaluated)) =
        [(some (0, [5]), [3])]))
      (.initial .blank)
      [.order (.setWork (workAt 1) (workAt 1)), .thread choose, .thread choose, .report 0 5, .finish 0,
        .thread choose, .thread choose, .thread choose, .report 0 3, .thread choose] = true := by
  rw [endsIn_primed]
  decide +kernel

end Energiminer.Cuda.Miner
