import ClashMeta.Core.Routing
import ClashMeta.Core.Binding
import ClashMeta.Core.Dns.Hits
import ClashMeta.Core.Dns.Exchange
import ClashMeta.Core.Profile
import ClashMeta.Core.Refresh
import ClashMeta.Core.SniffHello
import ClashMeta.Core.Registry
import ClashMeta.Core.Upload
import ClashMeta.Core.SocksAddress
import ClashMeta.Core.VlessOnly
import ClashMeta.Core.Packet.ByteStreams
import ClashMeta.Core.Packet.Hijack
import ClashMeta.Core.Packet.Isolation
import ClashMeta.Core.Packet.Geometry
import ClashMeta.Core.Packet.Tables
import ClashMeta.Platform.DesiredRoutes
import ClashMeta.Protocol.Xudp.Atomicity
import ClashMeta.Protocol.Xudp.Teardown
import ClashMeta.Protocol.Xudp.PacketRoundTrip
import ClashMeta.Protocol.Xudp.Rejection
import ClashMeta.Protocol.Xudp.Metadata
import ClashMeta.Protocol.Xudp.SessionIds
import ClashMeta.Protocol.Xudp.Delivery
import ClashMeta.Protocol.WebSocket.Pongs
import ClashMeta.Protocol.WebSocket.Upgrade
import ClashMeta.Protocol.WebSocket.EarlyData
import ClashMeta.Protocol.Vless.Stripping
import ClashMeta.Protocol.Datagram
import ClashMeta.Protocol.Grpc.GunStream
import ClashMeta.Protocol.Grpc.Limits
import ClashMeta.Protocol.Tls.Records
import ClashMeta.Protocol.Vision.HelloSteps
import ClashMeta.Protocol.Vision.WriteSide
import ClashMeta.Config.IpRanges
import ClashMeta.Config.DomainSets
import ClashMeta.Config.RoundTrip
import ClashMeta.Protocol.Grpc.PoolKey
import ClashMeta.Ffi.Packets
