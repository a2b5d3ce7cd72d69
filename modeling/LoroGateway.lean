import LoroGateway.Lib.Bytes
import LoroGateway.Lib.Delimited
import LoroGateway.Lib.Leb128
import LoroGateway.Lib.Parsing
import LoroGateway.Lib.Program
import LoroGateway.Lib.Pool
import LoroGateway.Lib.Server
import LoroGateway.Lib.Causal
import LoroGateway.Lib.Script
import LoroGateway.Names
import LoroGateway.Store
import LoroGateway.Frame
import LoroGateway.Loro
import LoroGateway.Sample
import LoroGateway.Checkpoint
import LoroGateway.Manifest
import LoroGateway.ExactAppend
import LoroGateway.Publication
import LoroGateway.Recovery
import LoroGateway.Rotation
import LoroGateway.Protocol
import LoroGateway.Actor
import LoroGateway.World
import LoroGateway.Gateway
import LoroGateway.FrameCodec
import LoroGateway.Admission
import LoroGateway.Durability
import LoroGateway.CheckpointCodec
import LoroGateway.ManifestCodec
import LoroGateway.Served
import LoroGateway.Scripted
import LoroGateway.ManifestLog
import LoroGateway.PublicationSpec
import LoroGateway.RotationSpec
import LoroGateway.ManifestInvariant
import LoroGateway.StoreInvariant
import LoroGateway.RecoverySpec
import LoroGateway.ActorSpec
import LoroGateway.Seated
import LoroGateway.StoreSafety
import LoroGateway.ManifestPool
import LoroGateway.Blocked
import LoroGateway.CheckpointPool
import LoroGateway.FrameBijection
import LoroGateway.CheckpointBijection
import LoroGateway.TamperEvidence
import LoroGateway.Answered
import LoroGateway.ManifestCapacity
import LoroGateway.DocSpec
import LoroGateway.Remembered
import LoroGateway.DeltaLog
import LoroGateway.DeltaSafety
import LoroGateway.Lasting
import LoroGateway.Acknowledged
import LoroGateway.Visible
import LoroGateway.Tracking
import LoroGateway.Quiet
import LoroGateway.Restart
import LoroGateway.Reconcile
import LoroGateway.FrameTails
import LoroGateway.CheckpointBuild
import LoroGateway.UpdateOutcome
import LoroGateway.Departure
import LoroGateway.Connection
import LoroGateway.FragmentBudget
import LoroGateway.RefusedBatches
import LoroGateway.Reassembly
import LoroGateway.SnapshotPolicy
import LoroGateway.RecoveredBlobs
import LoroGateway.Follower
import LoroGateway.Turns
import LoroGateway.StaleReads
import LoroGateway.Preimages
import LoroGateway.DurableNames
import LoroGateway.Precheck
import LoroGateway.MessageReader
import LoroGateway.MessageGrammar
import LoroGateway.Ursula
import LoroGateway.Redirects
import LoroGateway.WindowedReads
import LoroGateway.Content
import LoroGateway.FullReplay
import LoroGateway.ResumedRotation
import LoroGateway.Retained
import LoroGateway.EmptyRooms
import LoroGateway.UnclearAnswers
import LoroGateway.Superseded
import LoroGateway.Subscribers
import LoroGateway.Lib.Fleet
import LoroGateway.Lib.Layers
import LoroGateway.OwnStreams
import LoroGateway.Rooms
import LoroGateway.Cluster
import LoroGateway.HttpCalls
import LoroGateway.HttpGateway
import LoroGateway.HttpAcks
import LoroGateway.AnswerOrder
import LoroGateway.ClientAcks
