import Energiminer.Core.Proofs.HashRate
import Energiminer.Core.Proofs.Registries
import Energiminer.Core.Proofs.StartNonce
import Energiminer.Core.Proofs.WorkLock
import Energiminer.Cuda.Proofs.ComputeHash
import Energiminer.Cuda.Proofs.DagKernel
import Energiminer.Cuda.Proofs.DagLoop
import Energiminer.Engines.Proofs.CpuStop
import Energiminer.Engines.Proofs.Dag
import Energiminer.Engines.Proofs.DagLoadDevices
import Energiminer.Engines.Proofs.DagShare
import Energiminer.Engines.Proofs.HashCount
import Energiminer.Engines.Proofs.Target
import Energiminer.Engines.Proofs.Thermal
import Energiminer.Getwork.Proofs.StaleSolutions
import Energiminer.Nrghash.Proofs.DagFileChecks
import Energiminer.Nrghash.Proofs.DagReader
import Energiminer.Nrghash.Proofs.Registries
import Energiminer.OpenCL.Proofs.GenerateDag
import Energiminer.OpenCL.Proofs.Results
import Energiminer.Primitives.Proofs.Base58Codec
import Energiminer.Primitives.Proofs.Compact
import Energiminer.Primitives.Proofs.Destruction
import Energiminer.Primitives.Proofs.Hasher
import Energiminer.Primitives.Proofs.Merkle
import Energiminer.Primitives.Proofs.Script
import Energiminer.Protocol.Proofs.UriRoundTrip
import Energiminer.Stratum.Proofs.Attempts
import Energiminer.Stratum.Proofs.Autodetection
import Energiminer.Stratum.Proofs.ConnectTimeout
import Energiminer.Stratum.Proofs.Difficulty
import Energiminer.Stratum.Proofs.Framing
import Energiminer.Stratum.Proofs.Messages
import Energiminer.Stratum.Proofs.Mining
import Energiminer.Stratum.Proofs.SendBuffer
import Energiminer.Stratum.Proofs.Stale
