import Energiminer.Core.Farm
import Energiminer.Core.Proofs.Miner
import Energiminer.Stratum.Proofs.Jobs

/-!
# Pool mining

The stratum client, the plant and its miners together, as `PoolManager` connects them
(`PoolManager.cpp:44-90`), and the pool that checks what they submit. The client hands its works to
the plant from the thread of the `io_service`, the manager starts, stops and resets the plant from
its own, and the miners run in between, so each call of the plant is a step. A miner that has found
a solution submits it from its own thread.
-/

namespace Energiminer.Stratum
open Misc Misc.Json Common Primitives Energiminer.Core Engines

/-- The client, the farm and the solutions on their way. -/
structure Mining where
  client : State
  farm : Farm := {}
  /-- the miners before `onSolutionFound`, with what they found -/
  submitting : List (Nat × Solution) := []
  /-- the `mining.submit` requests that were sent, the last one first -/
  requests : List Value := []

namespace Mining

inductive Failure
  | fault (f : Fault)
  | missingCoinbase

inductive Event
  /-- a step of the client, its manager or the network -/
  | client (event : Stratum.Event)
  /-- the plant is called -/
  | call (call : MinePlant.Call)
  | getWork (miner : Nat)
  | evaluate (miner : Nat) (nonce : BitVec 64) (gpu : Bool)
  /-- a miner calls `onSolutionFound` -/
  | submit (miner : Nat)

/-- The plant is only given works that the client has handed out. -/
def mayCall (s : Mining) : MinePlant.Call → Bool
  | .setWork work _ => decide (work ∈ s.client.plant.delivered)
  | _ => true

/-- Solutions come from the miners of the farm. -/
def fromOutside : Stratum.Event → Bool
  | .found _ => false
  | _ => true

def call (s : Mining) (c : MinePlant.Call) : Except Failure Mining := do
  let farm ← (s.farm.call c).mapError fun _ => Failure.missingCoinbase
  pure { s with farm }

/-- A solution is passed to the client. -/
def submit (s : Mining) (solution : Solution) : Except Failure Mining := do
  let client ← (onSolutionFound s.client solution).mapError Failure.fault
  pure { s with client, requests := (submission s.client solution).toList ++ s.requests }

section
variable (getPOWHash : BlockHeader → Uint256 × BlockHeader)

/-- A miner evaluates a nonce. -/
def evaluate (s : Mining) (i : Nat) (work : Work) (nonce : BitVec 64) (gpu : Bool) : Mining :=
  let farm := s.farm.evaluate getPOWHash i work nonce gpu
  let hash := (getPOWHash { work.toBlockHeader with nNonce := nonce }).1
  if Farm.accepts gpu hash work.hashTarget then
    { s with
      farm, submitting := (i, ⟨Farm.hashedWork getPOWHash work nonce⟩) :: s.submitting }
  else { s with farm }

/-- The next state. -/
def step (s : Mining) : Event → Option (Except Failure Mining)
  | .client event =>
    if fromOutside event then
      (Stratum.step s.client event).map fun r => do
        let client ← r.mapError Failure.fault
        pure { s with client }
    else none
  | .call c => if s.mayCall c then some (s.call c) else none
  | .getWork i =>
    if (s.submitting.lookup i).isSome then none
    else (s.farm.getWork i).map fun farm => .ok { s with farm }
  | .evaluate i nonce gpu =>
    if (s.submitting.lookup i).isSome then none
    else (s.farm.searching i).map fun work => .ok (s.evaluate getPOWHash i work nonce gpu)
  | .submit i =>
    (s.submitting.lookup i).map fun solution =>
      { s with submitting := s.submitting.filter fun entry => entry.1 ≠ i }.submit solution

/-- Pool mining, from the start of the program on. -/
def system : Machine Mining Event Failure where
  init s := Initial s.client ∧ s = { client := s.client }
  step := step getPOWHash

end

end Mining

/-! ## The pool -/

/-- A job as the pool knows it. -/
structure PoolJob where
  name : String
  hashPrevBlock : Uint256
  /-- the digits of the coinbase before and behind the extra nonces -/
  coinbase1 : String
  coinbase2 : String
  transactions : List CTransaction
  version : BitVec 32
  bits : BitVec 32
  time : BitVec 32
  clean : Bool
  height : BitVec 32

/-- What the pool reads from the parameters of `mining.submit`. -/
structure Share where
  jobName : String
  extraNonce2 : String
  time : BitVec 32
  nonce : BitVec 64
  hashMix : Uint256
  transaction : String
  merkleRoot : Uint256

def Share.ofRequest (jReq : Value) : Option Share :=
  match memberOf jReq "params" with
  | .array [.string _, .string jobName, .string extraNonce2, .string time, .string nonce,
      .string hashMix, .string transaction, .string merkleRoot] =>
    some ⟨jobName, extraNonce2, BitVec.ofNat 32 (hexNumber time.toList),
      BitVec.ofNat 64 (hexNumber nonce.toList), Uint256.setHex hashMix.toList, transaction,
      Uint256.setHex merkleRoot.toList⟩
  | _ => none

namespace PoolJob

/-- The parameters of `mining.notify`. -/
def params (job : PoolJob) : Value :=
  .array [.string job.name, .string (String.ofList job.hashPrevBlock.getHex),
    .string job.coinbase1, .string job.coinbase2,
    .array (job.transactions.map fun tx => .object [("data", .string (hexStr tx.serialize))]),
    .string (hexPadded 8 job.version.toNat), .string (hexPadded 8 job.bits.toNat),
    .string (hexPadded 8 job.time.toNat), .bool job.clean, .int job.height.toNat]

def coinbaseText (job : PoolJob) (extraNonce1 extraNonce2 : String) : String :=
  job.coinbase1 ++ extraNonce1 ++ extraNonce2 ++ job.coinbase2

/-- The root over the coinbase with the extra nonces and the transactions. -/
def merkleRoot (job : PoolJob) (extraNonce1 extraNonce2 : String) : Uint256 :=
  computeMerkleRoot (Sha256.hash256 (parseHex (job.coinbaseText extraNonce1 extraNonce2)) ::
    job.transactions.map fun tx => Sha256.hash256 tx.serialize)

/-- The header that the pool builds for a share, from its own copy of the job. -/
def header (job : PoolJob) (extraNonce1 : String) (share : Share) : BlockHeader where
  nVersion := job.version
  hashPrevBlock := job.hashPrevBlock
  hashMerkleRoot := job.merkleRoot extraNonce1 share.extraNonce2
  nTime := share.time
  nBits := job.bits
  nHeight := job.height
  hashMix := share.hashMix
  nNonce := share.nonce

/-- The checks of a share. -/
structure Checks (K : Nrghash.KeccakFns) (job : PoolJob) (extraNonce1 : String)
    (target : ArithUint256) (share : Share) : Prop where
  name : share.jobName = job.name
  time : share.time = job.time
  transaction : share.transaction = lowerCase (job.coinbaseText extraNonce1 share.extraNonce2)
  root : share.merkleRoot = (job.header extraNonce1 share).hashMerkleRoot
  mix : (powOutcome K (job.header extraNonce1 share)).2 = job.header extraNonce1 share
  target : gpuAccepts (powOutcome K (job.header extraNonce1 share)).1 target = true

end PoolJob

end Energiminer.Stratum
