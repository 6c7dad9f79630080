import Samaritan.Lib.Machine
import Samaritan.Lib.Ownership
import Samaritan.Lib.Decimal
import Samaritan.Lib.Stream
import Samaritan.Lib.CaseFold
import Samaritan.Lib.WaitFor
import Samaritan.Lib.KeyMap
import Samaritan.Lib.LinkedList
import Samaritan.Lib.BinarySearch
import Samaritan.Lib.Ranking
import Samaritan.Lib.Fields
import Samaritan.Lib.Execution
import Samaritan.Lib.Crc
import Samaritan.Lib.Hysteresis
import Samaritan.Lib.Search
import Samaritan.Lib.Program
import Samaritan.Lib.Tally
import Samaritan.Lib.Rotation
import Samaritan.Lib.Budget
import Samaritan.Redis.Resp
import Samaritan.Redis.Bufio
import Samaritan.Redis.Codec
import Samaritan.Redis.CodecRoundTrip
import Samaritan.Redis.Session
import Samaritan.Redis.Client
import Samaritan.Redis.ClientReplies
import Samaritan.Redis.ClientShutdown
import Samaritan.Redis.ClientStream
import Samaritan.Redis.ClientBacklog
import Samaritan.Redis.Filter
import Samaritan.Redis.Handler
import Samaritan.Redis.Framing
import Samaritan.Redis.Transparency
import Samaritan.Redis.Scan
import Samaritan.Redis.Registry
import Samaritan.Redis.RegistryFreshness
import Samaritan.Redis.RegistryLive
import Samaritan.Redis.RegistryCounters
import Samaritan.Redis.System
import Samaritan.Redis.SystemOwnership
import Samaritan.Redis.SystemResponses
import Samaritan.Redis.SystemStats
import Samaritan.Redis.SystemAsking
import Samaritan.Redis.Fanout
import Samaritan.Redis.SystemDeadlock
import Samaritan.Redis.Routing
import Samaritan.Redis.RoutingSpec
import Samaritan.Redis.Replies
import Samaritan.Redis.StreamReader
import Samaritan.Redis.DecodeCalls
import Samaritan.Redis.Grammar
import Samaritan.Redis.LateErrors
import Samaritan.Redis.SystemOrder
import Samaritan.Redis.ClusterNodes
import Samaritan.Redis.ClusterReplicas
import Samaritan.Redis.ClusterTopology
import Samaritan.Redis.SlotsRefresh
import Samaritan.Hosts.Set
import Samaritan.Hosts.Registered
import Samaritan.Hosts.HealthCheck
import Samaritan.Hosts.Thresholds
import Samaritan.Hosts.Expect
import Samaritan.Hosts.Replace
import Samaritan.Hosts.Order
import Samaritan.Hosts.MysqlCheck
import Samaritan.Services.Config
import Samaritan.Services.Processor
import Samaritan.Services.HealthChecks
import Samaritan.Services.Controller
import Samaritan.Services.Discovery
import Samaritan.Services.Listener
import Samaritan.Services.ListenerConns
import Samaritan.HotKeys.Counter
import Samaritan.HotKeys.CounterLists
import Samaritan.HotKeys.Lfu
import Samaritan.HotKeys.CounterLfu
import Samaritan.HotKeys.Collector
import Samaritan.HotKeys.TopKeys
import Samaritan.HotRestart.Rpc
import Samaritan.Tcp.Balancer
import Samaritan.Tcp.HandleConn
import Samaritan.Tcp.Forwarding
import Samaritan.Tcp.Accounting
import Samaritan.Tcp.Ending
import Samaritan.Tcp.Fairness
import Samaritan.HotRestart.Restart
import Samaritan.HotRestart.HandOver
import Samaritan.HotRestart.Placed
import Samaritan.HotRestart.Settled
