import SLDM.Lib.Runs
import SLDM.Lib.NestedMap
import SLDM.Lib.Ring
import SLDM.Lib.PrefixCover
import SLDM.Lib.NumberText
import SLDM.Lib.SortedMap
import SLDM.Decoder.Frontend
import SLDM.Decoder.FrontendTheorems
import SLDM.Decoder.BufferBounds
import SLDM.Decoder.PositionVectors
import SLDM.Trigger.Sessions
import SLDM.Startup.Handshake
import SLDM.Visualizer.Browser
import SLDM.Visualizer.Markers
import SLDM.Json.DescriptorLoop
import SLDM.Json.RequestText
import SLDM.Json.RoundTrip
import SLDM.Store.GarbageCollection
import SLDM.Store.CollectionCallback
import SLDM.Store.Refinement
import SLDM.Store.Removal
import SLDM.Store.LockedOperations
import SLDM.Store.PathHistoryIteration
import SLDM.Store.HistoryScan
import SLDM.Store.Lookahead
import SLDM.Store.RingBookkeeping
import SLDM.Store.Trimming
import SLDM.Store.ClearedHistory
import SLDM.Store.ConcurrentInsertTheorems
import SLDM.Client.MessageRuns
import SLDM.Client.AgeCheck
import SLDM.Client.ConcurrentHandlers
import SLDM.Client.Logging
import SLDM.Client.MissingTimestamps
import SLDM.Client.StopRequests
import SLDM.Client.ExteriorLights
import SLDM.QuadKey.CacheRestart
import SLDM.QuadKey.ScanCoverage
import SLDM.QuadKey.Unify
import SLDM.QuadKey.Checkdim
import SLDM.Options.Subscription
import SLDM.Options.BrokerLists
import SLDM.QuadKey.CacheReuse
import SLDM.QuadKey.Quadtree
import SLDM.QuadKey.PairwiseUnify
import SLDM.QuadKey.UnifyAgreement
import SLDM.QuadKey.EraseLoop
import SLDM.System.RestSessions
import SLDM.System.Delivery
import SLDM.Visualizer.Display
import SLDM.System.Packets
import SLDM.Startup.Clients
