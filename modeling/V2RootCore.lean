import V2RootCore.Proof.Kcp.Delivery
import V2RootCore.Proof.ShareLink.Usable
import V2RootCore.Proof.Library.Lifecycle
import V2RootCore.Proof.Mux.Allocation
import V2RootCore.Proof.Vless.XorConn
import V2RootCore.Proof.Vless.Ticket
import V2RootCore.Proof.Vmess.Packet
import V2RootCore.Proof.Vmess.Nonce
import V2RootCore.Proof.Transport.Pipe
import V2RootCore.Proof.Vision.Reader
import V2RootCore.Proof.Socks.Udp
import V2RootCore.Proof.Socks.Server
import V2RootCore.Proof.Proxyman.Outbound
import V2RootCore.Proof.Core.Features
import V2RootCore.Proof.Task.Periodic
import V2RootCore.Proof.Signal.Timer
import V2RootCore.Proof.Users
import V2RootCore.Proof.Proxyman.Select
import V2RootCore.Proof.Conf.Override
import V2RootCore.Proof.Dns.Servers
import V2RootCore.Proof.Dns.CacheController
import V2RootCore.Proof.Bittorrent.Sniff
import V2RootCore.Proof.Tls.ClientHello
import V2RootCore.Proof.Http.Interim
import V2RootCore.Proof.Buf.BufferedWriter
import V2RootCore.Proof.Conf.JsonReader
import V2RootCore.Proof.Dns.Message
import V2RootCore.Proof.Http.Sniff
import V2RootCore.Proof.Quic.Reassembly
import V2RootCore.Proof.Grpc.HunkConn
import V2RootCore.Proof.Mux.Picker
import V2RootCore.Proof.Kcp.Clock
import V2RootCore.Proof.Kcp.Mtu
import V2RootCore.Proof.Vision.Reshape
import V2RootCore.Proof.Vision.Filter
import V2RootCore.Proof.Vless.Padding
import V2RootCore.Proof.Freedom.Fragment
import V2RootCore.Proof.SplitHttp.Xmux
import V2RootCore.Proof.Router.LeastLoad
import V2RootCore.Proof.Observatory.HealthPing
import V2RootCore.Proof.Transport.SortIps
import V2RootCore.Proof.Conf.Geodata
import V2RootCore.Proof.Uuid
import V2RootCore.Proof.Conf.PortList
import V2RootCore.Proof.Stats.Traffic
import V2RootCore.Proof.Kcp.Loss
import V2RootCore.Proof.Kcp.RoundTrip
import V2RootCore.Proof.Router.RoundRobin
