import BuildYourOwn.Commit.Divergence
import BuildYourOwn.Consensus.MultiPaxos
import BuildYourOwn.Consistency.Session
import BuildYourOwn.Group.Agreement
import BuildYourOwn.Group.OrderedBroadcast
import BuildYourOwn.Patterns.Rewind
import BuildYourOwn.Raft.ElectionSafety
import BuildYourOwn.Raft.Progress
import BuildYourOwn.Raft.CatchUp
import BuildYourOwn.Raft.Snapshots
import BuildYourOwn.Raft.Membership
import BuildYourOwn.Replication.ChainOrder
import BuildYourOwn.Replication.Register
import BuildYourOwn.Clocks.Causality
import BuildYourOwn.Clocks.Siblings
import BuildYourOwn.Crdt.Convergence
import BuildYourOwn.Crdt.Joins
import BuildYourOwn.Protocols.Conservation
import BuildYourOwn.Protocols.ExactlyOnce
import BuildYourOwn.Commit.Irrevocable
import BuildYourOwn.Lin.Budget
import BuildYourOwn.Lin.Culprit
import BuildYourOwn.Lin.Furthest
import BuildYourOwn.Lab.RecordBatch
import BuildYourOwn.Workload.Acquittal
import BuildYourOwn.Lab.Disassembly
import BuildYourOwn.Commit.WriteAhead
import BuildYourOwn.Consensus.Learnt
import BuildYourOwn.Consensus.Readiness
import BuildYourOwn.Consistency.Classify
import BuildYourOwn.Raft.Bookkeeping
import BuildYourOwn.Replication.RaftReads
import BuildYourOwn.Trust.CommitWait
import BuildYourOwn.Trust.RepeatableReads
import BuildYourOwn.Kafka.Meta
import BuildYourOwn.Kafka.Totality
import BuildYourOwn.Kafka.Varints
import BuildYourOwn.Resilience.AntiEntropy
import BuildYourOwn.Resilience.Gossip
import BuildYourOwn.Resilience.Leases
import BuildYourOwn.Trust.Byzantine
import BuildYourOwn.Link.ReadBack
import BuildYourOwn.Wasm.Annotations
import BuildYourOwn.Clocks.Hlc
import BuildYourOwn.Placement.Rendezvous
import BuildYourOwn.Sketches.Bloom
import BuildYourOwn.Sketches.Merkle
import BuildYourOwn.Crdt.Refusals
import BuildYourOwn.Tls.Lines
import BuildYourOwn.Tls.Nonces
import BuildYourOwn.Tls.Received
import BuildYourOwn.Lab.Ownership
import BuildYourOwn.Tls.Binder
import BuildYourOwn.Tls.Truthful
import BuildYourOwn.Link.Totality
import BuildYourOwn.Link.ArchiveRoundTrip
import BuildYourOwn.Byo.ReadBack
import BuildYourOwn.Byo.Polls
import BuildYourOwn.Byo.Settling
import BuildYourOwn.Etcd.Lines
import BuildYourOwn.Cluster.Cut
import BuildYourOwn.Etcd.Ranges
import BuildYourOwn.Prim.Orders
import BuildYourOwn.Wasm.Leb128
import BuildYourOwn.Group.Detector
import BuildYourOwn.Kafka.Assignments
import BuildYourOwn.Lin.LastReturn
