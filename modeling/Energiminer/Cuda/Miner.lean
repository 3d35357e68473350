import Energiminer.Engines.Miner
import Energiminer.Engines.Target
import Energiminer.Misc.Runs

/-!
# The CUDA miner

`CUDAMiner::trun`, `init_dag`, `cuda_init` and `search` (`CUDAMiner.cpp:52-141`, `298-537`) with the
streams of the device, whose kernels report the ids they find (`ethash_cuda_miner_kernel.cu:18-66`)
while the thread goes on. The kernels of one stream run one after the other. The thread waits for a
stream only in `cudaStreamSynchronize`: the copies to constant memory go to the default stream of the
thread (`CMakeLists.txt:6`), which does not wait for the others.

A run ends where the thread ends, by a CUDA error, a failed assertion or undefined behaviour; a
request to stop just ends it. Left out are the header and the target in constant memory, the counters
of hashes, the turns of the devices that load one after the other, and all texts.
-/

namespace Energiminer.Cuda.Miner
open Misc Nrghash Primitives Engines

/-- `MAX_SEARCH_RESULTS`. -/
def maxSearchResults : Nat := 4

/-- What is fixed by the command line. -/
structure Config where
  gridSize : BitVec 32
  blockSize : BitVec 32
  numStreams : BitVec 32
  exit : Bool
  streams_ne_zero : numStreams ≠ 0

namespace Config
variable (config : Config)

/-- `stream_grid_size`. -/
def streamGridSize : BitVec 32 := config.gridSize / config.numStreams

/-- `batch_size`: the nonces of one launch, in 32 bits. -/
def batchSize : BitVec 32 := config.streamGridSize * config.blockSize

/-- `streams_batch_size`, in 32 bits as well. -/
def streamsBatchSize : BitVec 32 := config.batchSize * config.numStreams

/-- The threads of one launch. -/
def threads : Nat := config.streamGridSize.toNat * config.blockSize.toNat

end Config

/-! ## Streams -/

/-- A kernel that was launched. -/
structure Launch where
  /-- `start_nonce` -/
  base : BitVec 64
  /-- the height of the work -/
  height : BitVec 32
  setup : Setup
  /-- the ids it has reported so far, in the order of their increments of the count -/
  gids : List (BitVec 32)
  deriving DecidableEq

/-- `Search_results`. -/
structure SearchResults where
  result : Fin maxSearchResults → BitVec 32
  count : BitVec 32

/-- A thread of a kernel reports its id (`ethash_cuda_miner_kernel.cu:31-34`): `index =
atomicInc(&count, 0xffffffff)`. -/
def SearchResults.report (r : SearchResults) (gid : BitVec 32) : SearchResults :=
  if h : r.count.toNat < maxSearchResults then
    { result := Function.update r.result ⟨r.count.toNat, h⟩ gid, count := r.count + 1 }
  else { r with count := r.count + 1 }

/-- An element of `m_streams` and of `m_search_buf`. -/
structure Stream where
  /-- the kernels that have not finished, the oldest first -/
  queue : List Launch
  /-- the kernel that finished last -/
  last : Option Launch
  buffer : SearchResults

/-- The running kernel reports an id. A thread reports at most once. -/
def Stream.report (threads : Nat) (st : Stream) (gid : BitVec 32) : Option Stream :=
  match st.queue with
  | [] => none
  | l :: queue =>
    if l.gids.length < threads then
      some { st with
        queue := { l with gids := l.gids ++ [gid] } :: queue, buffer := st.buffer.report gid }
    else none

/-- The running kernel finishes. -/
def Stream.finish (st : Stream) : Option Stream :=
  match st.queue with
  | [] => none
  | l :: queue => some { st with queue := queue, last := some l }

/-- `buffer->count = 0` and `run_ethash_search` (`ethash_cuda_miner_kernel.cu:48-66`). -/
def Stream.launch (st : Stream) (l : Launch) : Stream :=
  { st with queue := st.queue ++ [l], buffer := { st.buffer with count := 0 } }

/-! ## The device and its initialisation -/

/-- `d_dag_size`, and the epoch `set_constants` (`ethash_cuda_miner_kernel.cu:155-166`) was called
for. -/
structure Constants where
  items : BitVec 32
  epoch : Nat

/-- The members that `cuda_init` sets, and the memory of the device. -/
structure Device where
  /-- `m_dag` is not null -/
  dag : Bool := false
  /-- `m_dag_size` -/
  dagSize : BitVec 32 := 0
  /-- `m_light[m_device_num]`, by the epoch of its contents -/
  light : Option Nat := none
  /-- the DAG buffer on the device, which `d_dag` points to, by the epoch whose complete DAG it holds -/
  allocated : Option (Option Nat) := none
  constants : Option Constants := none
  /-- `m_search_buf` and `m_streams`: the elements that were made, by epoch -/
  searchBuf : Option (List (Option Nat)) := none
  streams : Nat → Stream

/-- The calls of `init_dag` and `cuda_init` that can fail. -/
inductive Call
  | getNumDevices
  | noDevice
  | deviceProperties
  | setDevice
  | memory
  | deviceReset
  | deviceFlags
  | cacheConfig
  | lightMalloc
  | lightCopy
  | dagMalloc
  | constants
  | searchBuf (i : Nat)
  | stream (i : Nat)
  | generateDag
  | copyToHost
  | copyFromHost
  deriving DecidableEq

/-- The failure is a `runtime_error`; after the others `cuda_init` returns false itself. -/
def Call.throws : Call → Bool
  | .noDevice | .memory => false
  | _ => true

/-- How an initialisation goes. -/
structure Outcome where
  /-- the call that fails -/
  fails : Option Call := none
  /-- `shouldStop()` ends the generation of the DAG -/
  stopped : Bool := false
  /-- the epoch of the DAG in host memory, if it is copied from there -/
  hostDAG : Option Nat := none
  /-- what a new result buffer holds -/
  fresh : SearchResults

def Outcome.call (outcome : Outcome) (call : Call) : EStateM Call Device Unit :=
  if outcome.fails = some call then throw call else pure ()

/-- The result buffer and the stream of an index. -/
def Device.addStream (outcome : Outcome) (epoch : Nat) (d : Device) (i : Nat) : Device :=
  { d with
    searchBuf := d.searchBuf.map fun made => made.set i (some epoch)
    streams := Function.update d.streams i ⟨[], none, outcome.fresh⟩ }

/-- `cudaMallocHost` and `cudaStreamCreateWithFlags` for each index. -/
def createStreams (outcome : Outcome) (epoch : Nat) : List Nat → EStateM Call Device Unit
  | [] => pure ()
  | i :: rest => do
    outcome.call (.searchBuf i)
    outcome.call (.stream i)
    modify fun d => d.addStream outcome epoch i
    createStreams outcome epoch rest

/-- The DAG is generated, or copied from the host. -/
def fillDag (outcome : Outcome) (epoch : Nat) : EStateM Call Device Unit :=
  match outcome.hostDAG with
  | none => do
    outcome.call .generateDag
    if !outcome.stopped then modify fun d => { d with allocated := some (some epoch) }
    outcome.call .copyToHost
  | some hostEpoch => do
    outcome.call .copyFromHost
    modify fun d => { d with allocated := some (some hostEpoch) }

/-- The device is reset if the page count has changed or there is no DAG (`CUDAMiner.cpp:340-357`). -/
def resetDevice (outcome : Outcome) (dagNumItems : BitVec 32) : EStateM Call Device Unit := do
  let d ← get
  if dagNumItems ≠ d.dagSize ∨ !d.dag then
    outcome.call .memory
    outcome.call .deviceReset
    modify fun d => { d with allocated := none, constants := none }
    outcome.call .deviceFlags
    outcome.call .cacheConfig
    modify fun d => { d with light := none, dag := false }

/-- The buffers of the cache and the DAG, and the constants (`CUDAMiner.cpp:358-374`). -/
def allocateBuffers (outcome : Outcome) (epoch : Nat) (dagNumItems : BitVec 32) :
    EStateM Call Device Unit := do
  let d ← get
  if d.light.isNone then outcome.call .lightMalloc
  outcome.call .lightCopy
  modify fun d => { d with light := some epoch }
  if dagNumItems ≠ d.dagSize ∨ !d.dag then
    outcome.call .dagMalloc
    modify fun d => { d with allocated := some none }
  outcome.call .constants
  modify fun d => { d with constants := some ⟨dagNumItems, epoch⟩ }

/-- `cuda_init` for an epoch and its page count, after the call of `getNumDevices` for its
argument (`CUDAMiner.cpp:298-447`). -/
def initDevice (config : Config) (outcome : Outcome) (epoch : Nat) (dagNumItems : BitVec 32) :
    EStateM Call Device Unit := do
  outcome.call .getNumDevices
  outcome.call .noDevice
  outcome.call .deviceProperties
  modify fun d => { d with searchBuf := some (List.replicate config.numStreams.toNat none) }
  outcome.call .setDevice
  resetDevice outcome dagNumItems
  allocateBuffers outcome epoch dagNumItems
  let d ← get
  -- `|| !dag` is never true here: `dag` has just been allocated if it was null
  if dagNumItems ≠ d.dagSize then
    createStreams outcome epoch (List.range config.numStreams.toNat)
    fillDag outcome epoch
  modify fun d => { d with dag := true, dagSize := dagNumItems }

/-- `cuda_init` (`CUDAMiner.cpp:298-447`). -/
def cudaInit (config : Config) (outcome : Outcome) (height : BitVec 32) : EStateM Call Device Unit :=
  initDevice config outcome (height.toNat / EPOCH_LENGTH) (dagItems height.toNat)

/-! ## The thread -/

/-- What ends the thread. -/
inductive Fault
  /-- `exit(1)` -/
  | exit
  | assertion
  /-- a `cuda_runtime_error` in `trun` -/
  | cudaError
  /-- an element of `m_search_buf` or `m_streams` that was not made -/
  | wildPointer
  deriving DecidableEq

/-- Where the thread is. -/
inductive Point
  /-- before the test for a pause in `trun` -/
  | top
  /-- in `search`, before the first launch on a stream -/
  | prime (i : Nat)
  /-- before the test of the `while` loop -/
  | test
  /-- before the synchronisation with a stream -/
  | sync (i : Nat)
  /-- before the test of the loop over the results of a stream, for an index -/
  | results (i found j : Nat)
  deriving DecidableEq

/-- The handling of the results of a launch. -/
structure Round where
  /-- the launch that was synchronised on -/
  launch : Option Launch
  /-- the nonces that were evaluated -/
  evaluated : List (BitVec 64)
  /-- the loop has ended, and not because of new work -/
  complete : Bool

/-- The miner. -/
structure State where
  assignment : Assignment := {}
  /-- `m_current` -/
  current : Work := .blank
  dagLoaded : Bool := false
  lastHeight : BitVec 64 := 0
  device : Device
  point : Point := .top
  currentNonce : BitVec 64 := 0
  /-- the launches so far, as they were made -/
  launched : List Launch := []
  /-- the rounds so far, the last one first -/
  rounds : List Round := []

/-- What the environment decides in a step of the thread. -/
structure Choice where
  /-- how an initialisation goes -/
  outcome : Outcome
  /-- the value of `getStartNonce` -/
  startNonce : BitVec 64
  /-- the mix hash that `GetPOWHash` stores -/
  hashMix : Uint256

/-- What a launch on a stream runs on. -/
def Device.ready (d : Device) (i : Nat) : Except Fault Setup :=
  match d.searchBuf.bind (·[i]?) with
  | some (some epoch) =>
    .ok ⟨d.allocated.join, (d.constants.map Constants.items).getD 0, d.constants.map Constants.epoch,
      [epoch]⟩
  | _ => .error .wildPointer

/-- The DAG has to be loaded: there is none, or the epoch has changed. -/
def State.needsDag (s : State) (height : BitVec 32) : Bool :=
  !s.dagLoaded || height.toNat / EPOCH_LENGTH ≠ s.lastHeight.toNat / EPOCH_LENGTH

/-- `init_dag` (`CUDAMiner.cpp:52-85`), whose result is not looked at. -/
def State.loadDag (config : Config) (s : State) (outcome : Outcome) : Except Fault State :=
  if s.needsDag s.current.nHeight then
    match cudaInit config outcome s.current.nHeight s.device with
    | .ok _ device => .ok { s with device := device, dagLoaded := true }
    | .error call device =>
      if call.throws && config.exit then .error .exit
      else .ok { s with device := device, dagLoaded := true }
  else .ok s

/-- The call of `search` for the current work. -/
def State.startSearch (s : State) (c : Choice) : Except Fault State :=
  if upper64OfBoundary s.current.hashTarget = 0 then .error .assertion
  else .ok { s with point := .prime 0, currentNonce := c.startNonce }

/-- `haveNewWork()` was true in `trun`. -/
def State.takeWork (config : Config) (s : State) (c : Choice) : Except Fault State := do
  let s := { s with
    current := s.assignment.work, assignment := { s.assignment with newWorkAssigned := false } }
  if !s.current.isValid then return s
  let s ← s.loadDag config c.outcome
  State.startSearch { s with lastHeight := s.current.nHeight.setWidth 64 } c

/-- A launch on a stream, with the next nonces (`CUDAMiner.cpp:473-478`). A grid of size zero is an
invalid configuration. -/
def State.launch (config : Config) (s : State) (i : Nat) : Except Fault State := do
  let setup ← s.device.ready i
  if config.streamGridSize = 0 then throw .cudaError
  let l : Launch := { base := s.currentNonce, height := s.current.nHeight, setup, gids := [] }
  return { s with
    device := { s.device with
      streams := Function.update s.device.streams i ((s.device.streams i).launch l) }
    launched := l :: s.launched }

/-- The first launch on a stream. -/
def State.prime (config : Config) (s : State) (i : Nat) : Except Fault State :=
  if i < config.numStreams.toNat then do
    let s ← s.launch config i
    return { s with
      point := .prime (i + 1), currentNonce := s.currentNonce + config.batchSize.setWidth 64 }
  else .ok { s with point := .test }

/-- The results of the kernel that has finished are counted, and the next one is launched on the same
buffer. -/
def State.restart (config : Config) (s : State) (i : Nat) : Except Fault State := do
  let st := s.device.streams i
  let found := min st.buffer.count.toNat maxSearchResults
  let s ← s.launch config i
  return { s with
    point := .results i found 0
    rounds := ⟨st.last, [], false⟩ :: s.rounds }

/-- A change of the round in progress. -/
def State.mapRound (s : State) (f : Round → Round) : State :=
  { s with
    rounds := match s.rounds with
      | [] => []
      | r :: rounds => f r :: rounds }

/-- An iteration of the loop over the results, which are read from the buffer, or its end
(`CUDAMiner.cpp:503-521`). -/
def State.nextResult (config : Config) (s : State) (i found j : Nat) (c : Choice) : State :=
  if j < found ∧ !s.assignment.newWorkAssigned then
    let gid := if h : j < maxSearchResults then (s.device.streams i).buffer.result ⟨j, h⟩ else 0
    let nonceBase := s.currentNonce - config.streamsBatchSize.setWidth 64
    let nonce := nonceBase + gid.setWidth 64
    { s.mapRound fun r => { r with evaluated := r.evaluated ++ [nonce] } with
      current := { s.current with nNonce := nonce, hashMix := c.hashMix }
      point := .results i found (j + 1) }
  else
    { s.mapRound fun r => { r with complete := decide (found ≤ j) } with
      currentNonce := s.currentNonce + config.batchSize.setWidth 64
      point := if i + 1 < config.numStreams.toNat then .sync (i + 1) else .test }

/-- The next step of the thread (`CUDAMiner.cpp:91-131`); there is none while it waits for a stream. -/
def State.run (config : Config) (s : State) (c : Choice) : Option (Except Fault State) :=
  match s.point with
  | .top =>
    if s.assignment.miningPaused then some (.ok s)
    else if s.assignment.newWorkAssigned then some (s.takeWork config c)
    else if s.current.isValid then some (s.startSearch c)
    else some (.ok s)
  | .prime i => some (s.prime config i)
  | .test => some (.ok { s with point := if s.assignment.newWorkAssigned then .top else .sync 0 })
  | .sync i => if (s.device.streams i).queue.isEmpty then some (s.restart config i) else none
  | .results i found j => some (.ok (s.nextResult config i found j c))

def State.setStream (s : State) (i : Nat) (st : Stream) : State :=
  { s with device := { s.device with streams := Function.update s.device.streams i st } }

/-- What can happen. -/
inductive Event
  | order (order : Order)
  | thread (choice : Choice)
  /-- the running kernel of a stream reports an id -/
  | report (i : Nat) (gid : BitVec 32)
  /-- the running kernel of a stream finishes -/
  | finish (i : Nat)

def step (config : Config) (s : State) : Event → Option (Except Fault State)
  | .order order => some (.ok { s with assignment := s.assignment.obey order })
  | .thread choice => s.run config choice
  | .report i gid =>
    ((s.device.streams i).report config.threads gid).map fun st => .ok (s.setStream i st)
  | .finish i => (s.device.streams i).finish.map fun st => .ok (s.setStream i st)

/-- The miner as it is built; no kernel is running. -/
def State.initial (buffer : SearchResults) : State :=
  { device := { streams := fun _ => ⟨[], none, buffer⟩ } }

/-- The miner, from the start of `trun`. -/
def system (config : Config) : Machine State Event Fault :=
  ⟨fun s => ∃ buffer, s = .initial buffer, step config⟩

end Energiminer.Cuda.Miner
