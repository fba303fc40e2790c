import RickydataGit.Lib.BinaryFloat
import RickydataGit.Lib.Json
import RickydataGit.Lib.JsonText
import RickydataGit.Lib.JsonOrder
import RickydataGit.Lib.Sha256
import RickydataGit.Lib.Prog
import RickydataGit.Lib.Pool
import RickydataGit.Lib.Triple
import RickydataGit.Lib.Relational
import RickydataGit.Core.Number
import RickydataGit.Core.NumberText
import RickydataGit.Core.Value
import RickydataGit.Core.Signing
import RickydataGit.Core.Representation
import RickydataGit.Core.Object
import RickydataGit.Core.PrintBytes
import RickydataGit.Core.NormalForm
import RickydataGit.Git.ObjectStore
import RickydataGit.Git.Immutable
import RickydataGit.Git.RefUpdate
import RickydataGit.Git.RoundTrip
import RickydataGit.Git.Recorded
import RickydataGit.Git.FailedWrite
import RickydataGit.Git.Transparency
import RickydataGit.Git.Listing
import RickydataGit.Git.Settled
import RickydataGit.Cli.Write
import RickydataGit.Cli.LossyLines
import RickydataGit.Cli.Notes
import RickydataGit.Git.Content
import RickydataGit.Git.Verdicts
import RickydataGit.Git.Restored
import RickydataGit.Git.Resigned
import RickydataGit.Git.Copies
import RickydataGit.Git.Growth
import RickydataGit.Git.Filled
import RickydataGit.Cli.Patches
import RickydataGit.Cli.Receipts
import RickydataGit.Cli.StoreInit
import RickydataGit.Cli.SyncStatus
import RickydataGit.Cli.SyncVerify
import RickydataGit.Cli.Warnings
import RickydataGit.Cli.Attempts
import RickydataGit.Cli.Records
import RickydataGit.Cli.Commands
import RickydataGit.Cli.Outside
import RickydataGit.Cli.HexCodec
import RickydataGit.Cli.IdGrammar
import RickydataGit.Cli.IdPaths
import RickydataGit.Cli.AttemptStatus
import RickydataGit.Cli.Checkouts
import RickydataGit.Cli.AgentState
import RickydataGit.Cli.Settled
import RickydataGit.Cli.DiffCounts
import RickydataGit.Cli.Erased
import RickydataGit.Cli.Evidence
import RickydataGit.Cli.Steps
import RickydataGit.Cli.KnownRuns
import RickydataGit.Cli.WorkKeys
import RickydataGit.Cli.ReviewQueue
import RickydataGit.Cli.Provenance
import RickydataGit.Cli.PatchIds
import RickydataGit.Cli.AttemptIds
import RickydataGit.Cli.Selection
import RickydataGit.Cli.Stable
import RickydataGit.Cli.GraphScan
import RickydataGit.Cli.GraphClosed
import RickydataGit.Cli.GraphCanonical
import RickydataGit.Lib.HexDigits
import RickydataGit.Lib.KeySort
import RickydataGit.Lib.Graph
import RickydataGit.Lib.Keyed
import RickydataGit.Lib.MapDiff
import RickydataGit.Lib.Noninterference
import RickydataGit.Lib.Chunks
import RickydataGit.Lib.Uuid
import RickydataGit.Lib.History
import RickydataGit.Relay.Bundle
import RickydataGit.Relay.Store
import RickydataGit.Relay.FileStore
import RickydataGit.Relay.GcsStore
import RickydataGit.Relay.Ingress
import RickydataGit.Relay.FilePush
import RickydataGit.Relay.AllOrNothing
import RickydataGit.Relay.Kfdb
import RickydataGit.Relay.NodeNames
import RickydataGit.Relay.Lineage
import RickydataGit.Lib.Url
import RickydataGit.Relay.Routes
import RickydataGit.Relay.Indexed
import RickydataGit.Relay.SinkFailures
import RickydataGit.Lib.Paging
import RickydataGit.Relay.GcsPush
import RickydataGit.Relay.Reading
import RickydataGit.Relay.Paging
import RickydataGit.Relay.Isolation
import RickydataGit.Relay.BucketIsolation
import RickydataGit.Lib.RelyGuarantee
import RickydataGit.Relay.BucketPool
import RickydataGit.Relay.FilePool
import RickydataGit.Lib.JsonPrefix
import RickydataGit.Lib.Killed
import RickydataGit.Core.Cut
import RickydataGit.Relay.Interrupted
import RickydataGit.Relay.Server
import RickydataGit.Relay.Client
import RickydataGit.Relay.ChunkedPush
