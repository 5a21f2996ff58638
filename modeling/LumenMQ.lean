import LumenMQ.Admin.Router
import LumenMQ.Admission
import LumenMQ.Broker.Filters
import LumenMQ.Broker.OfflineLog
import LumenMQ.Broker.PacketIds
import LumenMQ.Broker.QueueRace
import LumenMQ.Broker.Retransmission
import LumenMQ.Broker.SessionExpiry
import LumenMQ.Broker.SubscriptionPruning
import LumenMQ.Broker.SubscriptionRace
import LumenMQ.Broker.SweepRace
import LumenMQ.HeldMessages
import LumenMQ.CleanupRace
import LumenMQ.Codec.Lengths
import LumenMQ.Codec.Safety
import LumenMQ.Codec.Stream
import LumenMQ.Codec.Version5
import LumenMQ.Config.Merge
import LumenMQ.Connections
import LumenMQ.Deliveries
import LumenMQ.DevicePublishes
import LumenMQ.DeviceRecords
import LumenMQ.DeviceReturn
import LumenMQ.DeviceTopics
import LumenMQ.ExactlyOnce
import LumenMQ.FreshSession
import LumenMQ.Net.SnCodec
import LumenMQ.Net.SnTopics
import LumenMQ.Net.WsStream
import LumenMQ.OfflineKeys
import LumenMQ.OfflineReplay
import LumenMQ.Orphans
import LumenMQ.Plugin.ForwardQueue
import LumenMQ.Plugin.SubscribeAcl
import LumenMQ.Plugin.UrlHost
import LumenMQ.QueueCapacity
import LumenMQ.RetainDisk
import LumenMQ.Security.BitTrie
import LumenMQ.Security.Buckets
import LumenMQ.SharedTurns
import LumenMQ.Startup
import LumenMQ.Subacks
import LumenMQ.Wills
import Mathlib.Data.List.Basic
import Mathlib.Data.List.Count
