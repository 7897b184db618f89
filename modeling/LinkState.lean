import LinkState.Library.KeyedList
import LinkState.Library.SortedList
import LinkState.Library.Run
import LinkState.Library.BitField
import LinkState.Name
import LinkState.SequencingManager
import LinkState.SequenceTrip
import LinkState.Adjacency
import LinkState.Lsa
import LinkState.Library.Least
import LinkState.NextHop
import LinkState.State
import LinkState.Library.Loop
import LinkState.Map
import LinkState.Calculator
import LinkState.Fib
import LinkState.NamePrefixTable
import LinkState.RoutingTable
import LinkState.DryRun
import LinkState.Lsdb
import LinkState.Library.Latest
import LinkState.LsdbSpec
import LinkState.TableEdits
import LinkState.Convergence
import LinkState.HelloProtocol
import LinkState.Router
import LinkState.Operations
import LinkState.AllKinds
import LinkState.Origins
import LinkState.FibLaw
import LinkState.Library.ShortestPath
import LinkState.DijkstraRun
import LinkState.HyperbolicPaths
import LinkState.Library.Symmetric
import LinkState.Correction
import LinkState.AdjMatrixSpec
import LinkState.LinkStatePaths
import LinkState.SinglePath
import LinkState.LoopFree
import LinkState.TableInputs
import LinkState.Restart
import LinkState.Library.Tokens
import LinkState.Content
import LinkState.PlainText
import LinkState.ContentTrip
import LinkState.ContentSafety
import LinkState.Exchange
import LinkState.Naming
import LinkState.SpeaksFor
import LinkState.Serving
import LinkState.Announced
import LinkState.Neighbours
import LinkState.Advertised
import LinkState.Recalculation
import LinkState.Reading
import LinkState.Channel
import LinkState.LiveLinks
import LinkState.Library.Writes
import LinkState.Registrations
import LinkState.FibUpdate
import LinkState.Fetching
import LinkState.Scheduling
import LinkState.Expirations
import LinkState.Lifetimes
import LinkState.Closures
import LinkState.Flags
import LinkState.Library.Cells
import LinkState.CalculatorMemory
import LinkState.CalculatorMatrix
import LinkState.DijkstraMemory
import LinkState.CalculatorSafety
import LinkState.Deadlines
import LinkState.Renewals
import LinkState.Tlv
import LinkState.PacketFormat
import LinkState.LsdbStatus
import LinkState.Library.Cache
import LinkState.WireCache
import LinkState.Library.Chunks
import LinkState.Publisher
import LinkState.Interests
import LinkState.OwnNames
import LinkState.Commands
import LinkState.HopOrder
import LinkState.Silence
import LinkState.FibExpirations
import LinkState.Version
import LinkState.SafeConfiguration
import LinkState.SecuritySection
import LinkState.Library.SortedTable
import LinkState.Library.Delta
import LinkState.Sync.Digest
import LinkState.Sync.State
import LinkState.Sync.RootDigest
import LinkState.Sync.Message
import LinkState.Library.EventQueue
import LinkState.Sync.DiffLog
import LinkState.Sync.Logic
import LinkState.Sync.LogicSpec
import LinkState.Sync.History
import LinkState.Library.ProtocolBuffers
import LinkState.Sync.Wire
import LinkState.Sync.Reports
import LinkState.Sync.Timers
import LinkState.Sync.Answers
import LinkState.Sync.Forward
import LinkState.Library.Gossip
import LinkState.Sync.Network
import LinkState.Sync.Agreement
import LinkState.Sync.Socket
import LinkState.SyncLogicHandler
import LinkState.Domain
import LinkState.Published
import LinkState.DomainRequests
import LinkState.DomainCatchUp
import LinkState.SameContent
import LinkState.DomainAgree
import LinkState.DomainConverge
