import PVmapper.Lib.Runs
import PVmapper.Lib.Simulation
import PVmapper.Lib.Slots
import PVmapper.Lib.Deal
import PVmapper.Lib.Dial
import PVmapper.Lib.Wire
import PVmapper.Lib.Loops
import PVmapper.Lib.Pattern
import PVmapper.Model.Net
import PVmapper.Model.ProtoCa
import PVmapper.Model.Searcher
import PVmapper.Model.Listener
import PVmapper.Model.Config
import PVmapper.Model.ConfigFile
import PVmapper.Model.IocGuard
import PVmapper.Model.Dispatcher
import PVmapper.Model.ConnectionsManager
import PVmapper.Model.Network
import PVmapper.Spec.NameServer
import PVmapper.ProtoCa.Chain
import PVmapper.ProtoCa.Replies
import PVmapper.ProtoCa.Messages
import PVmapper.ProtoCa.Requests
import PVmapper.ProtoCa.Responses
import PVmapper.ProtoCa.Updates
import PVmapper.Searcher.Content
import PVmapper.Searcher.Invariant
import PVmapper.Searcher.Entries
import PVmapper.Searcher.Ids
import PVmapper.Searcher.Lookup
import PVmapper.Searcher.Ports
import PVmapper.Searcher.Attribution
import PVmapper.Searcher.Tick
import PVmapper.Searcher.Purge
import PVmapper.Searcher.Schedule
import PVmapper.Searcher.RateLimit
import PVmapper.Searcher.Starvation
import PVmapper.IocGuard.Calls
import PVmapper.IocGuard.Heartbeats
import PVmapper.IocGuard.Introduction
import PVmapper.Listener.Names
import PVmapper.Listener.Rules
import PVmapper.Config.Intervals
import PVmapper.Config.Numbers
import PVmapper.Config.Patterns
import PVmapper.Config.Lines
import PVmapper.Config.RoundTrip
import PVmapper.Dispatcher.Steps
import PVmapper.Dispatcher.Guards
import PVmapper.Dispatcher.Searches
import PVmapper.Dispatcher.Status
import PVmapper.Dispatcher.Failures
import PVmapper.Dispatcher.Datagrams
import PVmapper.Dispatcher.Ready
import PVmapper.Dispatcher.Connections
import PVmapper.Dispatcher.EventLoop
import PVmapper.Dispatcher.Requests
import PVmapper.Dispatcher.Refinement
import PVmapper.Dispatcher.Origins
import PVmapper.Searcher.Packets
import PVmapper.Searcher.Waiting
import PVmapper.Lib.Clock
import PVmapper.Dispatcher.Projection
import PVmapper.Dispatcher.Delivery
import PVmapper.IocGuard.Timeouts
import PVmapper.Dispatcher.Timeouts
import PVmapper.Network.Replays
import PVmapper.Model.Main
import PVmapper.Network.Startup
import PVmapper.Lib.Expiring
import PVmapper.Model.DnsCache
import PVmapper.DnsCache.Lookups
import PVmapper.Lib.Fields
import PVmapper.Config.Settings
import PVmapper.Network.Denials
import PVmapper.Network.Datagrams
import PVmapper.Network.Provenance
import PVmapper.Network.Honest
import PVmapper.Network.MainLoop
