import ChainBridge.Lib.KeyMap
import ChainBridge.Lib.Prog
import ChainBridge.Lib.Pool
import ChainBridge.Lib.Erase
import ChainBridge.Lib.Handle
import ChainBridge.Lib.Base64
import ChainBridge.Lib.Chain
import ChainBridge.Lib.TopK
import ChainBridge.Lib.FirstMatch
import ChainBridge.Lib.Cost
import ChainBridge.Lib.Twin
import ChainBridge.Lib.Locks
import ChainBridge.Lib.Serial
import ChainBridge.Lib.Ledger
import ChainBridge.Lib.Lanes
import ChainBridge.Solana
import ChainBridge.Messages
import ChainBridge.Context
import ChainBridge.Auth
import ChainBridge.Dedup
import ChainBridge.Audit
import ChainBridge.Calls
import ChainBridge.Service
import ChainBridge.Consumer
import ChainBridge.Session
import ChainBridge.Grpc
import ChainBridge.Reads
import ChainBridge.AuditDb
import ChainBridge.Vault
import ChainBridge.Provider
import ChainBridge.Nonce
import ChainBridge.AgentMemory
import ChainBridge.Embedding
import ChainBridge.Rpc
import ChainBridge.Process
import ChainBridge.MemoryTasks
import ChainBridge.Surfpool
import ChainBridge.Supervisor
import ChainBridge.Protocol
import ChainBridge.Claims
import ChainBridge.History
import ChainBridge.StoreRuns
import ChainBridge.Lemmas.Silent
import ChainBridge.Lemmas.Polls
import ChainBridge.Lemmas.Protocol
import ChainBridge.Lemmas.Claims
import ChainBridge.Lemmas.Once
import ChainBridge.Lemmas.Sample
import ChainBridge.Lemmas.Signing
import ChainBridge.Lemmas.Vault
import ChainBridge.Lemmas.Handlers
import ChainBridge.Lemmas.Courses
import ChainBridge.Lemmas.StoreRuns
import ChainBridge.Lemmas.Answering
import ChainBridge.Lemmas.Refusals
import ChainBridge.Lemmas.AgentMemory
import ChainBridge.Lemmas.MemoryIds
import ChainBridge.Lemmas.Rpc
import ChainBridge.Theorems.Dedup
import ChainBridge.Theorems.Finish
import ChainBridge.Theorems.Submission
import ChainBridge.Theorems.Cancel
import ChainBridge.Theorems.Signing
import ChainBridge.Theorems.Retry
import ChainBridge.Theorems.Identity
import ChainBridge.Theorems.AuditChain
import ChainBridge.Theorems.Tamper
import ChainBridge.Theorems.Erasure
import ChainBridge.Theorems.Kinds
import ChainBridge.Theorems.Answers
import ChainBridge.Theorems.Replies
import ChainBridge.Theorems.Confirm
import ChainBridge.Theorems.Status
import ChainBridge.Theorems.MintAuth
import ChainBridge.Theorems.Vault
import ChainBridge.Theorems.Isolation
import ChainBridge.Theorems.Sweeps
import ChainBridge.Theorems.Orphans
import ChainBridge.Theorems.Expiry
import ChainBridge.Theorems.ReplayWindow
import ChainBridge.Theorems.Refusals
import ChainBridge.Theorems.Decisions
import ChainBridge.Theorems.RetryDiscipline
import ChainBridge.Theorems.MintVerdict
import ChainBridge.Theorems.Adapters
import ChainBridge.Theorems.StatusCodes
import ChainBridge.Theorems.Cosigners
import ChainBridge.Theorems.Simulation
import ChainBridge.Theorems.VaultFormat
import ChainBridge.Theorems.Nonces
import ChainBridge.Theorems.Leases
import ChainBridge.Theorems.Consolidation
import ChainBridge.Theorems.Query
import ChainBridge.Theorems.Recall
import ChainBridge.Theorems.Embeddings
import ChainBridge.Theorems.Process
import ChainBridge.Theorems.Mediation
import ChainBridge.Theorems.Authority
import ChainBridge.Theorems.Budget
import ChainBridge.Theorems.SharedMemory
import ChainBridge.Theorems.Surfpool
import ChainBridge.Theorems.Ledger
import ChainBridge.Theorems.Supervisor
import ChainBridge.Theorems.Blockhash
