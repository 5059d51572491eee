import ContentDiscovery.Acknowledgements
import ContentDiscovery.Addr
import ContentDiscovery.AddrIndex
import ContentDiscovery.Amplification
import ContentDiscovery.AnnouncementWaits
import ContentDiscovery.Announcements
import ContentDiscovery.Background
import ContentDiscovery.BigEndian
import ContentDiscovery.Buffered
import ContentDiscovery.CachedSources
import ContentDiscovery.Channel
import ContentDiscovery.Codec
import ContentDiscovery.Collections
import ContentDiscovery.Connections
import ContentDiscovery.ContentDisposition
import ContentDiscovery.Demux
import ContentDiscovery.Deployment
import ContentDiscovery.Directories
import ContentDiscovery.DirectoryPages
import ContentDiscovery.Discovery
import ContentDiscovery.Dns
import ContentDiscovery.Durability
import ContentDiscovery.ExtensionRules
import ContentDiscovery.HeadStart
import ContentDiscovery.HintHistory
import ContentDiscovery.Hints
import ContentDiscovery.Http
import ContentDiscovery.IndexBuilder
import ContentDiscovery.IndexKeeper
import ContentDiscovery.IndexService
import ContentDiscovery.Intervals
import ContentDiscovery.KeeperSchedule
import ContentDiscovery.KeeperSleep
import ContentDiscovery.Lifecycle
import ContentDiscovery.LinkTargets
import ContentDiscovery.Links
import ContentDiscovery.Listing
import ContentDiscovery.Lookups
import ContentDiscovery.LruHistory
import ContentDiscovery.Machine
import ContentDiscovery.Markup
import ContentDiscovery.NewestAnswer
import ContentDiscovery.Origins
import ContentDiscovery.PacedAnnouncements
import ContentDiscovery.Pacing
import ContentDiscovery.Percent
import ContentDiscovery.PkarrCache
import ContentDiscovery.PkarrNames
import ContentDiscovery.PkarrPublisher
import ContentDiscovery.Postcard
import ContentDiscovery.Probes
import ContentDiscovery.ProviderCache
import ContentDiscovery.ProviderHistory
import ContentDiscovery.PublishedNames
import ContentDiscovery.Publisher
import ContentDiscovery.PublisherBooks
import ContentDiscovery.Ranges
import ContentDiscovery.RateLimit
import ContentDiscovery.ReadCollection
import ContentDiscovery.Reassembly
import ContentDiscovery.Recency
import ContentDiscovery.RecordBinding
import ContentDiscovery.Redirects
import ContentDiscovery.RegExp
import ContentDiscovery.Republisher
import ContentDiscovery.RequestLimits
import ContentDiscovery.Resolver
import ContentDiscovery.RetryLoop
import ContentDiscovery.ServeBlob
import ContentDiscovery.ServedContent
import ContentDiscovery.ServedRequests
import ContentDiscovery.Server
import ContentDiscovery.ServerList
import ContentDiscovery.ServerListPackets
import ContentDiscovery.SharedLookups
import ContentDiscovery.SignedLists
import ContentDiscovery.SignedPacket
import ContentDiscovery.SourceCache
import ContentDiscovery.SourceSteps
import ContentDiscovery.Spacing
import ContentDiscovery.Store
import ContentDiscovery.StoreRefine
import ContentDiscovery.StoredList
import ContentDiscovery.Str
import ContentDiscovery.TimedMap
import ContentDiscovery.TokenBucket
import ContentDiscovery.TokenWindow
import ContentDiscovery.Transactions
import ContentDiscovery.UdpClient
import ContentDiscovery.WeakLocks
import ContentDiscovery.Workload
import ContentDiscovery.WriteAuthority
import ContentDiscovery.Z32
