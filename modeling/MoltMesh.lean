import MoltMesh.Lib.Sha256
import MoltMesh.Lib.Table
import MoltMesh.Lib.Text
import MoltMesh.Lib.LockVoting
import MoltMesh.Identity
import MoltMesh.Pb
import MoltMesh.BlockHash
import MoltMesh.Raftpb
import MoltMesh.Store
import MoltMesh.Tendermint.Backend
import MoltMesh.Tendermint.Acts
import MoltMesh.Tendermint.Cluster
import MoltMesh.Tendermint.View
import MoltMesh.Tendermint.Agreement
import MoltMesh.Tendermint.Script
import MoltMesh.Tendermint.Safety
import MoltMesh.Tendermint.Honest
import MoltMesh.Tendermint.Trail
import MoltMesh.Tendermint.Validity
import MoltMesh.Tendermint.Crash
import MoltMesh.Tendermint.Restart
import MoltMesh.Lib.Linked
import MoltMesh.Lib.Log
import MoltMesh.Verify
import MoltMesh.Descriptor
import MoltMesh.Raft.Storage
import MoltMesh.Raft.Backend
import MoltMesh.Raft.Start
import MoltMesh.Chain
import MoltMesh.Raft.Trail
import MoltMesh.Raft.Apply
import MoltMesh.Raft.Calls
import MoltMesh.Raft.Image
import MoltMesh.Raft.Doings
import MoltMesh.Raft.Converge
import MoltMesh.Raft.Append
import MoltMesh.Raft.Integrity
import MoltMesh.Raft.Advance
import MoltMesh.Pending
import MoltMesh.Raft.Acks
import MoltMesh.Raft.Disk
import MoltMesh.Raft.Durable
import MoltMesh.Raft.Reload
import MoltMesh.Creation
import MoltMesh.Isolation
import MoltMesh.Tendermint.Queue
import MoltMesh.Raft.CatchUp
import MoltMesh.Raft.Membership
import MoltMesh.Raft.Descriptors
import MoltMesh.Raft.VoterChanges
import MoltMesh.Tendermint.Separation
import MoltMesh.Tendermint.Buffer
import MoltMesh.Tendermint.Locks
import MoltMesh.Tendermint.Certificates
import MoltMesh.Tendermint.Deadlines
import MoltMesh.Lib.Framing
import MoltMesh.Threadcrypto
import MoltMesh.Members
import MoltMesh.Rpc.Threads
import MoltMesh.Rpc.Authority
import MoltMesh.Raft.Passing
import MoltMesh.Rpc.Observers
import MoltMesh.Raft.Claims
import MoltMesh.Raft.Once
import MoltMesh.Archive.Heads
import MoltMesh.Archive.Walk
import MoltMesh.Saving
import MoltMesh.Lib.Reading
import MoltMesh.Binding
import MoltMesh.Manager
import MoltMesh.Ownership
import MoltMesh.Archive.Recovery
import MoltMesh.Archive.History
import MoltMesh.Rpc.Membership
import MoltMesh.Raft.InFlight
import MoltMesh.Raft.Matching
import MoltMesh.Lib.Trace
import MoltMesh.Tasks.Store
import MoltMesh.Tasks.Rows
import MoltMesh.Tasks.Leases
import MoltMesh.Rpc.Rolls
import MoltMesh.Rpc.Invites
import MoltMesh.Rpc.Keys
import MoltMesh.Rpc.Voters
import MoltMesh.Rpc.Subscriptions
import MoltMesh.Archive.Import
import MoltMesh.Tasks.Calls
import MoltMesh.Tasks.Keys
import MoltMesh.Tasks.Retries
import MoltMesh.Tasks.Deliveries
import MoltMesh.Tasks.Cursor
import MoltMesh.Tasks.Budget
import MoltMesh.Message
import MoltMesh.Outbox.Store
import MoltMesh.Outbox.Flush
import MoltMesh.Rpc.Tasks
import MoltMesh.Rpc.Repeats
import MoltMesh.Rpc.Redelivery
import MoltMesh.Rpc.Outcomes
import MoltMesh.Rpc.Requests
import MoltMesh.Rpc.Agents
import MoltMesh.Rpc.Replies
import MoltMesh.Backends
import MoltMesh.Names
