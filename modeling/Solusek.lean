import Solusek.Lib.Runs
import Solusek.Lib.Decimal
import Solusek.Lib.Texts
import Solusek.Lib.Literals
import Solusek.Lib.Paths
import Solusek.Lib.Lines
import Solusek.Lib.Blocks
import Solusek.Lib.Forests
import Solusek.Lib.Nesting
import Solusek.Lib.OpenNodes
import Solusek.Lib.Occurrences
import Solusek.Lib.Utf8
import Solusek.Lib.Json
import Solusek.Lib.Ledgers
import Solusek.Model.Database
import Solusek.Model.Descriptors
import Solusek.Model.Session
import Solusek.Model.Transaction
import Solusek.Model.Static
import Solusek.Model.Node
import Solusek.Model.NodeChecked
import Solusek.Model.Client
import Solusek.Model.Config
import Solusek.Model.ConfigChecked
import Solusek.Model.Results
import Solusek.Model.Lock
import Solusek.Model.SpinLocks
import Solusek.Model.Ownership
import Solusek.Model.Server
import Solusek.Model.ServerAccesses
import Solusek.Model.ClientSetup
import Solusek.Model.Listener
import Solusek.Model.Certificates
import Solusek.Model.FileUtil
import Solusek.Proofs.Strings
import Solusek.Proofs.Wire
import Solusek.Proofs.PoolLease
import Solusek.Proofs.PoolInvariant
import Solusek.Proofs.DescriptorLife
import Solusek.Proofs.SessionIds
import Solusek.Proofs.StatementTexts
import Solusek.Proofs.Statements
import Solusek.Proofs.UpdateClause
import Solusek.Proofs.Atomicity
import Solusek.Proofs.StaticContainment
import Solusek.Proofs.NodeInput
import Solusek.Proofs.HeaderFraming
import Solusek.Proofs.RequestLine
import Solusek.Proofs.BodyFraming
import Solusek.Proofs.InputSafety
import Solusek.Proofs.RequestHeaders
import Solusek.Proofs.RequestRoundTrip
import Solusek.Proofs.ResponseLines
import Solusek.Proofs.ResponseTexts
import Solusek.Proofs.ResponseRoundTrip
import Solusek.Proofs.WholeMessages
import Solusek.Proofs.CookieSegments
import Solusek.Proofs.SessionCookies
import Solusek.Proofs.ConfigTexts
import Solusek.Proofs.ConfigPaths
import Solusek.Proofs.ConfigRoundTrip
import Solusek.Proofs.ConfigTree
import Solusek.Proofs.ConfigEntries
import Solusek.Proofs.ConfigLayout
import Solusek.Proofs.ConfigProgress
import Solusek.Proofs.ConfigSafety
import Solusek.Proofs.Outcomes
import Solusek.Proofs.LockRelease
import Solusek.Proofs.MutualExclusion
import Solusek.Proofs.HandleLife
import Solusek.Proofs.NodeThreads
import Solusek.Proofs.Shutdown
import Solusek.Proofs.ThreadCount
import Solusek.Proofs.CountedThreads
import Solusek.Proofs.StaticDescriptors
import Solusek.Proofs.SizeLines
import Solusek.Proofs.CutChunks
import Solusek.Proofs.CutResponses
import Solusek.Proofs.ClientHistory
import Solusek.Proofs.AddressLists
import Solusek.Proofs.ServerNames
import Solusek.Proofs.ChunkedBodies
import Solusek.Proofs.HeaderLines
import Solusek.Proofs.Endpoints
import Solusek.Proofs.RequestFields
import Solusek.Proofs.WrittenFields
import Solusek.Proofs.AddressRanges
import Solusek.Proofs.SelectedRows
import Solusek.Proofs.SessionItems
import Solusek.Proofs.Replacement
import Solusek.Proofs.ErrorResponses
import Solusek.Proofs.FileReading
import Solusek.Proofs.StaticLookup
import Solusek.Proofs.StaticIndexes
import Solusek.Proofs.StaticTypes
import Solusek.Proofs.StaticHosts
import Solusek.Proofs.CertificateLife
import Solusek.Lib.Interleavings
import Solusek.Model.Serve
import Solusek.Model.Sample
import Solusek.Proofs.Connections
import Solusek.Proofs.CallRequests
import Solusek.Proofs.Exchanges
import Solusek.Proofs.ServedFiles
import Solusek.Proofs.SampleCallbacks
import Solusek.Proofs.SampleServer
import Solusek.Model.Handlers
import Solusek.Proofs.ConnectionStrings
import Solusek.Proofs.PoolHandlers
import Solusek.Proofs.PoolConnections
import Solusek.Proofs.LostHandles
import Solusek.Proofs.ReadableAnswers
import Solusek.Proofs.RequestGates
import Solusek.Proofs.ResponseSources
import Solusek.Lib.Lifetimes
import Solusek.Model.Tls
import Solusek.Proofs.TlsLog
import Solusek.Proofs.TlsObjects
import Solusek.Proofs.TlsUses
import Solusek.Proofs.TlsConnections
import Solusek.Proofs.TlsRequests
import Solusek.Proofs.TlsServer
import Solusek.Model.Objects
import Solusek.Proofs.ConnectionObjects
import Solusek.Proofs.ServerObjects
import Solusek.Proofs.ServerCalls
import Solusek.Proofs.ServerSteps
import Solusek.Proofs.ServerDestructor
import Solusek.Proofs.ServerLife
import Solusek.Proofs.ServerLeaks
