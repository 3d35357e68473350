import Energiminer.Core.Miner
import Energiminer.Engines.Miner
import Energiminer.Engines.Target
import Energiminer.Misc.CommandQueue
import Energiminer.Misc.Runs

/-!
# The OpenCL miner

`CLMiner::trun` and `CLMiner::init` (`CLMiner.cpp:279-451`, `582-907`) with the device they drive. The
thread and the device take turns in any order: the device executes the commands of its in-order queue
one by one, and only the blocking read of a result buffer makes the thread wait for it. Work, resets
and pauses arrive between any two steps; inside a step of the thread they would be noticed no earlier
than at its end.

A run ends where the thread ends, by an OpenCL error, a failed assertion or undefined behaviour; a
request to stop just ends it. The counters of hashes, the temperature of the device and all texts are
left out, as are the memory sizes: whether a DAG fits is part of the outcome of `init`.
-/

namespace Energiminer.OpenCL.Miner
open Misc Nrghash Primitives Engines

/-- `c_maxSearchResults`. -/
def maxSearchResults : Nat := 15

/-! ## The memory of the device -/

/-- A search that was enqueued, with the arguments of its kernel. -/
structure Launch where
  /-- argument 0, an index into `m_searchBuffer` -/
  buffer : Fin 2
  /-- argument 4 -/
  nonce : BitVec 64
  /-- argument 5 -/
  target : BitVec 64
  /-- the global work size -/
  size : BitVec 32
  /-- the height of the work -/
  height : BitVec 32
  setup : Setup
  /-- the ids it will report, in the order of their increments of the count -/
  gids : List (BitVec 32)

/-- A search that was executed, with the header it found in its buffer. -/
structure Execution where
  launch : Launch
  header : H256

/-- An entry of `rslt`, with the search that wrote it. -/
structure Rslt where
  gid : BitVec 32
  source : Execution

/-- `SearchResults` (`CLMiner.cpp:264-277`). -/
structure SearchResults where
  rslt : Fin maxSearchResults → Rslt
  count : BitVec 32
  /-- the searches that ran on the buffer since its count was zeroed -/
  executions : List Execution

/-- An item reports its id: `slot = min(MAX_OUTPUTS - 1, atomic_inc(&count))`. -/
def SearchResults.report (r : SearchResults) (source : Execution) (gid : BitVec 32) :
    SearchResults :=
  { r with
    rslt := Function.update r.rslt
      ⟨min (maxSearchResults - 1) r.count.toNat, Nat.lt_succ_of_le (Nat.min_le_left ..)⟩ ⟨gid, source⟩
    count := r.count + 1 }

/-- The effect of a search on its buffer. -/
def SearchResults.search (r : SearchResults) (source : Execution) : SearchResults :=
  source.launch.gids.foldl (·.report source) { r with executions := r.executions ++ [source] }

/-- `m_header[0]` and `m_searchBuffer`. -/
structure Memory where
  header : H256
  searchBuffer : Fin 2 → SearchResults

/-- The commands of `trun`, apart from the blocking read. -/
inductive Command
  /-- the copy of `hash_header`, the local variable of a block of `trun`; the blocks are numbered -/
  | writeHeader (block : Nat) (hashHeader : H256)
  /-- the copy of `zerox3` over the count -/
  | writeZero (buffer : Fin 2)
  | search (launch : Launch)

def Memory.execute (m : Memory) : Command → Memory
  | .writeHeader _ hashHeader => { m with header := hashHeader }
  | .writeZero buffer =>
    { m with
      searchBuffer := Function.update m.searchBuffer buffer
        { m.searchBuffer buffer with count := 0, executions := [] } }
  | .search launch =>
    { m with
      searchBuffer := Function.update m.searchBuffer launch.buffer
        ((m.searchBuffer launch.buffer).search ⟨launch, m.header⟩) }

/-! ## The device objects and their initialisation -/

/-- An object of the OpenCL runtime: the context it belongs to, and the epoch of the `init` that
made it. -/
structure Object where
  context : Nat
  epoch : Nat

/-- `m_dag[0]`, with the epoch whose complete DAG it holds. -/
structure DagBuffer where
  context : Nat
  holds : Option Nat

/-- The members of `CLMiner` that `init` sets. The contexts that were made are numbered. -/
structure Device where
  contexts : Nat := 0
  /-- `m_context` -/
  context : Option Nat := none
  /-- `m_queue`, the context of its element -/
  queue : Option Nat := none
  globalWorkSize : BitVec 32 := 0
  dagItems : BitVec 32 := 0
  light : Option Object := none
  dag : Option DagBuffer := none
  searchKernel : Option Object := none
  dagKernel : Option Object := none
  header : Option Object := none
  searchBuffer : List Object := []
  commands : CommandQueue Memory Command

/-- The calls of `init` that can fail, in order. -/
inductive Call
  | getPlatforms
  | platformInfo
  | getDevices
  | deviceInfo
  | deviceVersion
  | context
  | queue
  | program
  | build
  | memory
  | light
  | dag
  | searchKernel
  | dagKernel
  | writeLight
  | header
  | searchArgs
  | searchBuffer
  | secondSearchBuffer
  | dagArgs
  | generateDag
  deriving DecidableEq

/-- The failure is a `cl::Error` that reaches the outer handler; after the others `init` returns
false itself. -/
def Call.throws : Call → Bool
  | .platformInfo | .deviceInfo | .context | .queue | .program => true
  | .header | .searchArgs | .searchBuffer | .secondSearchBuffer | .dagArgs | .generateDag => true
  | _ => false

/-- How an `init` goes. -/
structure Outcome where
  /-- the call that fails -/
  fails : Option Call := none
  /-- `shouldStop()` ends the generation of the DAG -/
  stopped : Bool := false
  /-- what new buffers hold -/
  fresh : Memory

/-- What is fixed by the command line. -/
structure Config where
  initialGlobalWorkSize : BitVec 32
  exit : Bool

def Outcome.call (outcome : Outcome) (call : Call) : EStateM Call Device Unit :=
  if outcome.fails = some call then throw call else pure ()

/-- A new object in the current context. -/
def Device.object (d : Device) (epoch : Nat) : Option Object := d.context.map (⟨·, epoch⟩)

/-- `CLMiner::init` (`CLMiner.cpp:582-907`). The height is an `int`, and a block number for
`cache_t` and `get_full_size` a `uint64_t`. What waits in a queue that is released no longer
concerns the objects made after it. -/
def init (config : Config) (outcome : Outcome) (height : BitVec 32) : EStateM Call Device Unit := do
  let blockNumber := (height.signExtend 64).toNat
  let epoch := blockNumber / EPOCH_LENGTH
  outcome.call .getPlatforms
  outcome.call .platformInfo
  outcome.call .getDevices
  outcome.call .deviceInfo
  outcome.call .deviceVersion
  modify fun d => { d with context := none }
  outcome.call .context
  modify fun d => { d with contexts := d.contexts + 1, context := some (d.contexts + 1) }
  modify fun d => { d with queue := none }
  outcome.call .queue
  modify fun d => { d with queue := d.context, commands := { d.commands with pending := [] } }
  modify fun d => { d with
    globalWorkSize := config.initialGlobalWorkSize, dagItems := Engines.dagItems blockNumber }
  outcome.call .program
  outcome.call .build
  outcome.call .memory
  modify fun d => { d with light := none }
  outcome.call .light
  modify fun d => { d with light := d.object epoch, dag := none }
  outcome.call .dag
  modify fun d => { d with dag := d.context.map (⟨·, none⟩) }
  outcome.call .searchKernel
  modify fun d => { d with searchKernel := d.object epoch }
  outcome.call .dagKernel
  modify fun d => { d with dagKernel := d.object epoch }
  outcome.call .writeLight
  modify fun d => { d with header := none }
  outcome.call .header
  modify fun d => { d with
    header := d.object epoch
    commands := { d.commands with memory := { d.commands.memory with header := outcome.fresh.header } } }
  outcome.call .searchArgs
  modify fun d => { d with searchBuffer := [] }
  outcome.call .searchBuffer
  modify fun d => { d with searchBuffer := (d.object epoch).toList }
  outcome.call .secondSearchBuffer
  modify fun d => { d with
    searchBuffer := d.searchBuffer ++ (d.object epoch).toList
    commands := { d.commands with
      memory := { d.commands.memory with searchBuffer := outcome.fresh.searchBuffer } } }
  outcome.call .dagArgs
  outcome.call .generateDag
  if !outcome.stopped then
    modify fun d => { d with dag := d.dag.map fun dag => { dag with holds := some epoch } }

/-! ## The thread -/

/-- What ends the thread. -/
inductive Fault
  /-- `exit(1)` -/
  | exit
  | assertion
  /-- a `cl::Error` in `trun` -/
  | clError
  /-- an element of an empty vector, or a kernel that was never made -/
  | noObject
  /-- an entry of `rslt` that does not exist -/
  | outOfBounds
  deriving DecidableEq

/-- Where the thread is. -/
inductive Point
  /-- before the test for a pause -/
  | top
  /-- in the block for new work, with the first search enqueued and `hash_header` alive -/
  | block
  /-- before the test of the loop over the results, for an index -/
  | results (i : Nat)
  deriving DecidableEq

/-- A result the thread has evaluated: the work, the start nonce it was added to, and the entry. -/
structure Evaluation where
  work : Work
  startNonce : BitVec 64
  entry : Rslt

/-- The nonce that is evaluated. -/
def Evaluation.nonce (e : Evaluation) : BitVec 64 := e.startNonce + e.entry.gid.setWidth 64

/-- The miner. -/
structure State where
  assignment : Assignment := {}
  /-- `m_current` -/
  current : Work := .blank
  dagLoaded : Bool := false
  lastHeight : BitVec 64 := 0
  device : Device
  point : Point := .top
  startNonce : BitVec 64 := 0
  activeStartNonce : BitVec 64 := 0
  results : SearchResults
  bufferNonce : Fin 2 → BitVec 64 := fun _ => 0
  activeBuffer : Fin 2 := 0
  batchSize : BitVec 32 := 0
  /-- argument 5 of the search kernel -/
  target : BitVec 64 := 0
  /-- the blocks for new work that were entered -/
  blocks : Nat := 0
  /-- what `getStartNonce` returned for the current work -/
  firstNonce : BitVec 64 := 0
  /-- the searches enqueued for the current work -/
  launched : List Launch := []
  /-- for each read of a result buffer since then, the searches that had run on it -/
  reads : List (List Execution) := []
  evaluated : List Evaluation := []

/-- What the environment decides in a step of the thread. -/
structure Choice where
  /-- how an `init` goes -/
  outcome : Outcome
  /-- the value of `getStartNonce` -/
  startNonce : BitVec 64
  /-- what the search that is enqueued will report -/
  gids : List (BitVec 32)
  /-- the mix hash that `GetPOWHash` stores -/
  hashMix : Uint256

/-- The objects `trun` uses have to exist, in the context of the queue. -/
def Device.ready (d : Device) : Except Fault Setup :=
  match d.queue with
  | none => .error .assertion
  | some context =>
    match d.header, d.dag, d.searchKernel, d.searchBuffer with
    | some header, some dag, some kernel, [buffer, buffer'] =>
      if header.context = context ∧ dag.context = context ∧ kernel.context = context ∧
          buffer.context = context ∧ buffer'.context = context then
        .ok ⟨dag.holds, d.dagItems, some kernel.epoch, [buffer.epoch, buffer'.epoch]⟩
      else .error .clError
    | _, _, _, _ => .error .noObject

/-- The DAG has to be loaded: there is none, or the epoch has changed. -/
def State.needsDag (s : State) (height : BitVec 32) : Bool :=
  let newEpoch := height.toNat / EPOCH_LENGTH
  let lastEpoch := u32 (s.lastHeight.toNat / EPOCH_LENGTH)
  !s.dagLoaded || newEpoch ≠ lastEpoch

/-- The result of `init` is not looked at. -/
def State.loadDag (config : Config) (s : State) (outcome : Outcome) : Except Fault State :=
  if s.needsDag s.current.nHeight then
    match init config outcome s.current.nHeight s.device with
    | .ok _ device => .ok { s with device := device, dagLoaded := true }
    | .error call device =>
      if call.throws && config.exit then .error .exit
      else .ok { s with device := device, dagLoaded := true }
  else .ok s

def State.enqueue (s : State) (commands : List Command) : State :=
  { s with device := { s.device with commands := s.device.commands.enqueue commands } }

/-- The search of the next nonces, on a buffer. -/
def State.nextLaunch (s : State) (setup : Setup) (buffer : Fin 2) (gids : List (BitVec 32)) :
    Launch :=
  { buffer, nonce := s.startNonce, target := s.target, size := s.batchSize
    height := s.current.nHeight, setup, gids }

/-- `enqueueNDRangeKernel`. -/
def State.enqueueSearch (s : State) (setup : Setup) (buffer : Fin 2) (gids : List (BitVec 32)) :
    State :=
  { s.enqueue [.search (s.nextLaunch setup buffer gids)] with
    bufferNonce := Function.update s.bufferNonce buffer s.startNonce
    startNonce := s.startNonce + s.batchSize.setWidth 64
    launched := s.launched ++ [s.nextLaunch setup buffer gids] }

/-- `hash_header` for a work. -/
def hashHeader (K : KeccakFns) (work : Work) : H256 :=
  Core.h256Hash K (truncatedLE work.toBlockHeader)

/-- The header and empty buffers for a work, and the variables of `trun`. -/
def State.prepare (K : KeccakFns) (s : State) (c : Choice) : State :=
  { s.enqueue [.writeHeader (s.blocks + 1) (hashHeader K s.current), .writeZero 0, .writeZero 1] with
    point := .block
    blocks := s.blocks + 1
    startNonce := c.startNonce
    target := upper64OfBoundary s.current.hashTarget
    results := { s.results with count := 0 }
    batchSize := s.device.globalWorkSize
    activeBuffer := 0
    firstNonce := c.startNonce
    launched := []
    reads := [] }

/-- The block for a work that was just assigned, up to the first search. -/
def State.startWork (K : KeccakFns) (s : State) (c : Choice) : Except Fault State := do
  let s := { s with lastHeight := s.current.nHeight.setWidth 64 }
  let setup ← s.device.ready
  if upper64OfBoundary s.current.hashTarget = 0 then throw .assertion
  return (s.prepare K c).enqueueSearch setup 0 c.gids

/-- `haveNewWork()` was true. -/
def State.takeWork (K : KeccakFns) (config : Config) (s : State) (c : Choice) :
    Except Fault State := do
  let s := { s with
    current := s.assignment.work, assignment := { s.assignment with newWorkAssigned := false } }
  if !s.current.isValid then return s
  let s ← s.loadDag config c.outcome
  s.startWork K c

/-- The search on the other buffer, at the end of an iteration. -/
def State.launchNext (s : State) (c : Choice) : Except Fault State := do
  let setup ← s.device.ready
  return { s.enqueueSearch setup (s.activeBuffer + 1) c.gids with point := .results 0 }

/-- The blocking read of the active buffer, for which the queue has run dry, and its zeroing. -/
def State.readBuffer (s : State) : State :=
  let results := s.device.commands.memory.searchBuffer s.activeBuffer
  { s.enqueue [.writeZero s.activeBuffer] with
    results := results
    activeStartNonce := s.bufferNonce s.activeBuffer
    activeBuffer := s.activeBuffer + 1
    reads := s.reads ++ [results.executions] }

/-- An iteration of the loop over the results, or its end (`CLMiner.cpp:419-436`). -/
def State.nextResult (s : State) (i : Nat) (c : Choice) : Except Fault State :=
  if i < s.results.count.toNat ∧ !s.assignment.newWorkAssigned then
    if h : i < maxSearchResults then
      let evaluation : Evaluation := ⟨s.current, s.activeStartNonce, s.results.rslt ⟨i, h⟩⟩
      .ok { s with
        current := { s.current with nNonce := evaluation.nonce, hashMix := c.hashMix }
        evaluated := evaluation :: s.evaluated
        point := .results (i + 1) }
    else .error .outOfBounds
  else .ok { s with point := .top }

/-- The next step of the thread (`CLMiner.cpp:297-437`); there is none while it waits for the
device. -/
def State.run (K : KeccakFns) (config : Config) (s : State) (c : Choice) :
    Option (Except Fault State) :=
  match s.point with
  | .top =>
    if s.assignment.miningPaused then some (.ok s)
    else if s.assignment.newWorkAssigned then some (s.takeWork K config c)
    else if s.device.queue.isSome && s.current.isValid then
      if s.device.commands.pending.isEmpty then some (s.readBuffer.launchNext c) else none
    else some (.ok { s with results := { s.results with count := 0 } })
  | .block => some (s.launchNext c)
  | .results i => some (s.nextResult i c)

/-- `hash_header` of a block is alive while the thread is in that block. -/
def State.alive (s : State) (block : Nat) : Bool :=
  decide (s.point = .block) && decide (block = s.blocks)

/-- The command as the device finds it: a late copy of the header takes what is in the place of the
variable by then. -/
def State.found (s : State) (stack : H256) : Command → Command
  | .writeHeader block hashHeader =>
    .writeHeader block (if s.alive block then hashHeader else stack)
  | command => command

/-- The device executes its next command. -/
def State.execute (s : State) (stack : H256) : Option State :=
  match s.device.commands.pending with
  | [] => none
  | command :: pending =>
    some { s with
      device := { s.device with
        commands := ⟨s.device.commands.memory.execute (s.found stack command), pending⟩ } }

/-- What can happen. -/
inductive Event
  | order (order : Order)
  | thread (choice : Choice)
  /-- with the bytes in the place of a `hash_header` that is gone -/
  | device (stack : H256)

def step (K : KeccakFns) (config : Config) (s : State) : Event → Option (Except Fault State)
  | .order order => some (.ok { s with assignment := s.assignment.obey order })
  | .thread choice => s.run K config choice
  | .device stack => (s.execute stack).map .ok

/-- The miner as it is built, whatever the memory holds. -/
def State.initial (memory : Memory) (results : SearchResults) : State :=
  { device := { commands := ⟨memory, []⟩ }, results := results }

/-- The miner, from the start of `trun`. -/
def system (K : KeccakFns) (config : Config) : Machine State Event Fault :=
  ⟨fun s => ∃ memory results, s = .initial memory results, step K config⟩

/-! ## Values for concrete runs -/

def SearchResults.blank : SearchResults :=
  let launch : Launch :=
    { buffer := 0, nonce := 0, target := 0, size := 0, height := 0, setup := ⟨none, 0, none, []⟩, gids := [] }
  ⟨fun _ => ⟨0, launch, .replicate 32 0⟩, 0, []⟩

/-- Buffers full of zeros. -/
def Memory.blank : Memory := ⟨.replicate 32 0, fun _ => .blank⟩

def smallConfig : Config := ⟨64, false⟩

/-- A step in which nothing fails. -/
def choose (gids : List (BitVec 32)) : Choice := ⟨{ fresh := .blank }, 0, gids, Uint256.null⟩

end Energiminer.OpenCL.Miner
