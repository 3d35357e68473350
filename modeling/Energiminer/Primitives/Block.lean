import Energiminer.Primitives.BlockHeader
import Energiminer.Primitives.Transaction

/-!
# Blocks

`Block` of `primitives/block.h`: the header and the transactions, which are what a solution is
submitted as, and the two parts of the coinbase of a stratum job. The payments of a template are
left out; they are copied into the coinbase transaction when the block is made.
-/

namespace Energiminer.Primitives
open Misc Misc.Codec Common

variable {σ : Type} [ByteStream σ Failure]

namespace BlockHeader

/-- `BlockHeader::SerializationOp` (`block.h:62-74`). -/
def serialize (h : BlockHeader) : List Byte :=
  leBytes 4 h.nVersion ++ h.hashPrevBlock.serialize ++ h.hashMerkleRoot.serialize ++
    leBytes 4 h.nTime ++ leBytes 4 h.nBits ++ leBytes 4 h.nHeight ++ h.hashMix.serialize ++
    leBytes 8 h.nNonce

def unserialize : Into σ Failure BlockHeader :=
  (Into.field nVersion ({ · with nVersion := · }) (Into.assign (readWord 4))).andThen <|
  (Into.field hashPrevBlock ({ · with hashPrevBlock := · }) Uint256.unserialize).andThen <|
  (Into.field hashMerkleRoot ({ · with hashMerkleRoot := · }) Uint256.unserialize).andThen <|
  (Into.field nTime ({ · with nTime := · }) (Into.assign (readWord 4))).andThen <|
  (Into.field nBits ({ · with nBits := · }) (Into.assign (readWord 4))).andThen <|
  (Into.field nHeight ({ · with nHeight := · }) (Into.assign (readWord 4))).andThen <|
  (Into.field hashMix ({ · with hashMix := · }) Uint256.unserialize).andThen <|
  Into.field nNonce ({ · with nNonce := · }) (Into.assign (readWord 8))

end BlockHeader

/-- `Block` (`block.h:103-111`). -/
structure Block extends BlockHeader where
  vtx : List CTransaction
  stratumCoinbase1 : String
  stratumCoinbase2 : String
  deriving DecidableEq

namespace Block

/-- `Block::SerializationOp` (`block.h:256-261`). -/
def serialize (b : Block) : List Byte :=
  b.toBlockHeader.serialize ++ serializeVector CTransaction.serialize b.vtx

def unserialize : Into σ Failure Block :=
  (Into.field toBlockHeader ({ · with toBlockHeader := · }) BlockHeader.unserialize).andThen <|
  Into.field vtx ({ · with vtx := · })
    (unserializeVector CTransaction.sizeof CTransaction.new CTransaction.unserialize)

end Block

end Energiminer.Primitives
