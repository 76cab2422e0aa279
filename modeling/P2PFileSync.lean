import P2PFileSync.Foundations.TokenSystem
import P2PFileSync.Foundations.Walks
import P2PFileSync.Foundations.WireFormat
import P2PFileSync.Foundations.CheckedCalls
import P2PFileSync.Foundations.BinaryDigits
import P2PFileSync.Foundations.BitPolynomial
import P2PFileSync.DataStruct.FIFOCache
import P2PFileSync.DataStruct.RoutingTable
import P2PFileSync.DataStruct.RoutingThreads
import P2PFileSync.DataStruct.InstancePool
import P2PFileSync.Packet.WireCodec
import P2PFileSync.PeerSession
import P2PFileSync.ServerContext
import P2PFileSync.Connection
import P2PFileSync.Forgery
import P2PFileSync.Packet.Handler
import P2PFileSync.Packet.HelloMessage
import P2PFileSync.Packet.HelloThreads
import P2PFileSync.Network.Model
import P2PFileSync.Network.Relaying
import P2PFileSync.Network.Duplicates
import P2PFileSync.Network.Chain
import P2PFileSync.Network.Flooding
import P2PFileSync.Network.FloodingOrder
import P2PFileSync.Network.HelloExchange
import P2PFileSync.Utils.RabinChecksum
import P2PFileSync.Utils.ShiftAmounts
import P2PFileSync.Utils.AddressForms
import P2PFileSync.File.FileNode
import P2PFileSync.File.FileSize
import P2PFileSync.File.FileBlocks
import P2PFileSync.File.FileThreads
import P2PFileSync.DataStruct.FIFOWindow
import P2PFileSync.DataStruct.FIFOBounds
import P2PFileSync.DataStruct.TaskHandOver
import P2PFileSync.DataStruct.TaskWakeUp
import P2PFileSync.DataStruct.TaskBag
import P2PFileSync.Interface.CommandLines
import P2PFileSync.Interface.ErrorMessages
import P2PFileSync.Interface.ConnectionLines
import P2PFileSync.Interface.ConnectionStop
import P2PFileSync.ManagementApi.Base64
import P2PFileSync.ManagementApi.CurlBuffer
import P2PFileSync.ManagementApi.Replies
import P2PFileSync.ManagementApi.Registration
import P2PFileSync.ManagementApi.JsonValues
import P2PFileSync.ManagementApi.JsonMaps
import P2PFileSync.ManagementApi.ClientCertificate
import P2PFileSync.ManagementApi.RegisteredAddresses
import P2PFileSync.File.BlockChain
import P2PFileSync.File.INodeTree
import P2PFileSync.DataStruct.CASQueue
import P2PFileSync.Utils.Ipv4Language
import P2PFileSync.Utils.ConfigReader
import P2PFileSync.Interface.UserCommand
import P2PFileSync.KnownHosts
import P2PFileSync.ManagementApi.DeviceInfo
import P2PFileSync.ManagementInterface
import P2PFileSync.Interface.ConnectionSessions
import P2PFileSync.Interface.UserSessions
import P2PFileSync.Network.FloodingCost
import P2PFileSync.Packet.HelloProvenance
import P2PFileSync.SendThreads
import P2PFileSync.Startup
import P2PFileSync.Utils.ChecksumErrors
import P2PFileSync.StartupServing
