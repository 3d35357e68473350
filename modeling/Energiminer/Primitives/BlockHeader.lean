import Energiminer.Primitives.Uint256

/-!
# Block headers

`BlockHeader` and `CBlockHeaderTruncatedLE` of `primitives/block.h`: the packed structure
whose bytes are hashed before the nonce is added.
-/

namespace Energiminer.Primitives
open Misc

/-- `BlockHeader` (`block.h:17-27`). -/
structure BlockHeader where
  nVersion : BitVec 32
  hashPrevBlock : Uint256
  hashMerkleRoot : Uint256
  nTime : BitVec 32
  nBits : BitVec 32
  nHeight : BitVec 32
  hashMix : Uint256
  nNonce : BitVec 64
  deriving DecidableEq

/-- A `char[65]` zero-filled and then overwritten with a string. -/
def charArray65 (s : List Char) : List Byte :=
  (List.range 65).map fun i => BitVec.ofNat 8 ((s.map Char.toNat).getD i 0)

/-- The 146 bytes of `CBlockHeaderTruncatedLE` (`block.h:275-298`). -/
def truncatedLE (h : BlockHeader) : List Byte :=
  leBytes 4 h.nVersion ++ charArray65 h.hashPrevBlock.getHex ++
    charArray65 h.hashMerkleRoot.getHex ++ leBytes 4 h.nTime ++ leBytes 4 h.nBits ++
    leBytes 4 h.nHeight

end Energiminer.Primitives
