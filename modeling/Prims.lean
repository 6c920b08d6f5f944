import Prims.Blockchain.Hash
import Prims.Consensus.Forks
import Prims.Blockchain.Validation
import Prims.Privacy.Notes
import Prims.Privacy.Transfer
import Prims.Lib.Circuit
import Prims.Privacy.Circuit
import Prims.Privacy.Conversion
import Prims.Lib.Store
import Prims.Lib.Simulation
import Prims.Storage.Backend
import Prims.Lib.Text
import Prims.Vm.Host
import Prims.Vm.Execution
import Prims.Vm.Reference
import Prims.Consensus.Mempool
import Prims.Consensus.MempoolRuns
import Prims.Consensus.Proposal
import Prims.Storage.Contracts
import Prims.Lib.RoundRobin
import Prims.Sharding.BeaconChain
import Prims.Sharding.CrossShard
import Prims.Api.Rpc
import Prims.Api.Blocks
import Prims.Storage.Atomicity
import Prims.Vm.Transfers
import Prims.Api.SendTransaction
import Prims.Lib.Tasks
import Prims.Network.Message
import Prims.Node.Ingestion
import Prims.Lib.Runs
import Prims.Sharding.StateRoots
import Prims.Sharding.Governance
import Prims.Storage.Schema
import Prims.Consensus.Tallying
import Prims.Consensus.Signing
import Prims.Sharding.Receipts
import Prims.Lib.Synthesis
import Prims.Privacy.Completeness
import Prims.Privacy.Setup
import Prims.Privacy.Membership
import Prims.Privacy.Redemption
import Prims.Sharding.Partition
import Prims.Sharding.Consensus
import Prims.Consensus.Threshold
import Prims.Consensus.Rewards
import Prims.Consensus.Proposer
import Prims.Consensus.Selection
import Prims.Consensus.Production
import Prims.Sharding.ReceiptProofs
import Prims.Consensus.ForkChoice
import Prims.Consensus.Slashing
import Prims.Storage.StorageRoot
import Prims.Storage.Scanning
import Prims.Lib.HashChain
import Prims.Network.Penalties
import Prims.Network.Publishing
import Prims.Privacy.Ceremony
import Prims.Api.Height
import Prims.Storage.Checksum
import Prims.Lib.Postcondition
import Prims.Vm.Memory
import Prims.Lib.MerkleTree
import Prims.Privacy.Roots
import Prims.Lib.ProofSystem
import Prims.Privacy.Proving
import Prims.Privacy.Spending
import Prims.Api.Queries
import Prims.Client.Commands
import Prims.Client.Sessions
import Prims.Client.Acceptance
import Prims.Client.KeyMaterial
import Prims.Client.KeyGeneration
import Prims.Lib.Retry
import Prims.Client.Flood
import Prims.Node.Flooding
import Prims.Lib.LinkedChain
import Prims.Blockchain.Chain
import Prims.Lib.Files
import Prims.Lib.Json
import Prims.Privacy.SetupDirectory
import Prims.Privacy.SetupRuns
import Prims.Privacy.SetupCompletion
import Prims.Privacy.SetupKeys
