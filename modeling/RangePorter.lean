import RangePorter.Listener.UdpIsolation
import RangePorter.Target.CacheSafety
import RangePorter.Stats.Conservation
import RangePorter.Listener.TcpCap
import RangePorter.UdpSession.Cleanup
import RangePorter.UdpSession.Gauge
import RangePorter.UdpSession.Lifecycle
import RangePorter.PortSet
import RangePorter.Listener.TcpTracked
import RangePorter.Stats.Window
import RangePorter.Listener.UdpReplies
import RangePorter.Listener.TcpBytes
import RangePorter.Stats.Concurrent
import RangePorter.Stats.Coherence
import RangePorter.Stats.Response
import RangePorter.Stats.Freshness
import RangePorter.Target.Incomplete
import RangePorter.UdpSession.Timing
import RangePorter.Listener.UdpFlush
import RangePorter.Listener.UdpPaths
import RangePorter.Listener.UdpReceive
import RangePorter.Target.Refresh
import RangePorter.Listener.TcpShutdown
import RangePorter.UdpSession.Linearization
import RangePorter.UdpSession.ReplyLoops
import RangePorter.UdpSession.Sweep
import RangePorter.Listener.UdpRequests
import RangePorter.Listener.UdpShutdown
import RangePorter.Net.Parse
import RangePorter.Net.RoundTrip
import RangePorter.Target.Bind
import RangePorter.Socket
import RangePorter.Config
import RangePorter.Runtime
import RangePorter.App.Shutdown
