import Netmux.Lib.Checked
import Netmux.Lib.Run
import Netmux.Lib.Commute
import Netmux.Lib.Bytes
import Netmux.Lib.OnesComplement
import Netmux.Lib.Table
import Netmux.Lib.Tally
import Netmux.Lib.Double
import Netmux.Lib.HalfEven
import Netmux.Lib.Cycle
import Netmux.Lib.ByteOrder
import Netmux.Lib.Span
import Netmux.Lib.Text
import Netmux.Lib.Utf8
import Netmux.Lib.XorMultiply
import Netmux.Lib.Ownership
import Netmux.Lib.FixedBuffer
import Netmux.Lib.Congruential
import Netmux.Error
import Netmux.Packet.Address
import Netmux.Packet.Checksum
import Netmux.Packet.Parse
import Netmux.Packet.Ipv6
import Netmux.Packet.Rewrite
import Netmux.Packet.RewriteCorrect
import Netmux.Packet.Transport
import Netmux.Packet.Fragment
import Netmux.Packet.Padding
import Netmux.Packet.Agreement
import Netmux.Packet.RewriteLaws
import Netmux.Packet.Rfc1071
import Netmux.Packet.FlowKey
import Netmux.Packet.ExtensionWalk
import Netmux.Packet.Ipv6Text
import Netmux.Packet.AddressText
import Netmux.Session.NatTable
import Netmux.Session.ReturnKeys
import Netmux.Session.Registrations
import Netmux.Host.Interface
import Netmux.Host.Stats
import Netmux.Host.Counters
import Netmux.Host.Throughput
import Netmux.Host.Format
import Netmux.Host.Tun
import Netmux.Host.InterfaceRequest
import Netmux.Sched.Policy
import Netmux.Sched.Aggregator
import Netmux.Sched.LiveUplink
import Netmux.Sched.FlowAffinity
import Netmux.Sched.HashPool
import Netmux.Sched.FragmentRouting
import Netmux.Sched.RoundRobin
import Netmux.Sched.Starvation
import Netmux.Sched.Generator
import Netmux.Sched.GeneratorCycle
import Netmux.Sched.HashShare
import Netmux.Sched.HashBits
import Netmux.Sched.TieBreak
import Netmux.Sched.Failover
import Netmux.Sched.LastRefresh
import Netmux.Sched.Connections
import Netmux.Sched.DecisionLog
import Netmux.App.DataPlane
import Netmux.App.EgressSafety
import Netmux.App.Serial
import Netmux.App.Accounts
import Netmux.App.FlowLog
import Netmux.App.Threads
import Netmux.App.Locking
import Netmux.App.Atomicity
import Netmux.App.Progress
import Netmux.App.Summary
import Netmux.App.Listing
import Netmux.App.Solicited
import Netmux.App.ReplyDelivery
import Netmux.App.StartUp
import Netmux.App.Descriptors
import Netmux.App.Sockets
import Netmux.App.ReturnInterface
import Netmux.App.Drops
import Netmux.App.Buffers
import Netmux.App.Destination
import Netmux.App.NetMux
import Netmux.App.Disabling
import Netmux.App.Priorities
import Netmux.App.Tuning
import Netmux.App.Simulation
import Netmux.App.NoPanic
import Netmux.App.Boot
