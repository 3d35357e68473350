import Energiminer.Primitives.Work

/-!
# Solutions

`Solution` of `primitives/solution.h`: a work with the nonce and the mix that solve it, and the
texts of it that are submitted.
-/

namespace Energiminer.Primitives
open Misc Common

/-- `Solution` (`solution.h:20-28`). -/
structure Solution where
  work : Work
  deriving DecidableEq

/-- `setfill('0')`, `setw(width)` and `hex`. -/
def hexPadded (width n : Nat) : String :=
  let digits := Nat.toDigits 16 n
  String.ofList (List.replicate (width - digits.length) '0' ++ digits)

/-- `strToHex` (`common.h:184-195`). -/
def strToHex (str : List Byte) : String := String.join (str.map fun item => hexPadded 2 item.toNat)

namespace Solution

/-- `getJobName()` (`solution.h:33-36`). -/
def getJobName (s : Solution) : String := s.work.jobName

/-- `getTime()` (`solution.h:38-44`). -/
def getTime (s : Solution) : String := hexPadded 8 s.work.nTime.toNat

/-- `getExtraNonce2()` (`solution.h:46-49`). -/
def getExtraNonce2 (s : Solution) : String := s.work.getExtraNonce2

/-- `getNonce()` (`solution.h:56-63`). -/
def getNonce (s : Solution) : String := hexPadded 16 s.work.nNonce.toNat

/-- `getHashMix()` (`solution.h:65-68`). -/
def getHashMix (s : Solution) : Uint256 := s.work.hashMix

/-- `getBlockTransaction()` (`solution.cpp:16-22`) where the work is valid; otherwise it throws. -/
def getBlockTransaction (s : Solution) : Option String :=
  if s.work.isValid then s.work.getBlockTransaction else none

/-- `getSubmitBlockData()` (`solution.cpp:24-33`) where the work is valid; otherwise it throws. -/
def getSubmitBlockData (s : Solution) : Option String :=
  if s.work.isValid then some (strToHex s.work.toBlock.serialize) else none

end Solution

end Energiminer.Primitives
