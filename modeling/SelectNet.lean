import SelectNet.Allocation.BlockSizes
import SelectNet.Allocation.CloseRaces
import SelectNet.Allocation.PackageThreads
import SelectNet.Allocation.PoolDisposal
import SelectNet.Allocation.PoolGrowth
import SelectNet.Allocation.PoolLedger
import SelectNet.Allocation.PoolSafety
import SelectNet.Allocation.PoolShrink
import SelectNet.Allocation.PoolStatistics
import SelectNet.Allocation.PoolSteps
import SelectNet.Allocation.QueueFifo
import SelectNet.Allocation.QueueInPool
import SelectNet.Allocation.QueueThreads
import SelectNet.Allocation.RecvBuffers
import SelectNet.Allocation.SendBuffers
import SelectNet.Allocation.SharedPools
import SelectNet.Allocation.SizedPools
import SelectNet.ClientTest.Batch
import SelectNet.ClientTest.Client01
import SelectNet.ClientTest.Client04
import SelectNet.ClientTest.Commands
import SelectNet.CommonLib.ClientSocket
import SelectNet.CommonLib.ClientThreads
import SelectNet.CommonLib.ClientTurn
import SelectNet.CommonLib.ClientWorld
import SelectNet.CommonLib.ConfigHelp
import SelectNet.CommonLib.Endpoint
import SelectNet.CommonLib.Heap
import SelectNet.CommonLib.IOBuffer
import SelectNet.CommonLib.MemInfo
import SelectNet.CommonLib.MemoryBlock
import SelectNet.CommonLib.MemoryPool
import SelectNet.CommonLib.MessageStrings
import SelectNet.CommonLib.Messages
import SelectNet.CommonLib.Msg
import SelectNet.CommonLib.MyQueue
import SelectNet.CommonLib.PoolChunks
import SelectNet.CommonLib.PoolUnits
import SelectNet.CommonLib.QueueRep
import SelectNet.CommonLib.ReceiveThreads
import SelectNet.CommonLib.RecvLoop
import SelectNet.CommonLib.SelectClient
import SelectNet.CommonLib.SelectClientThread
import SelectNet.CommonLib.SelectServer
import SelectNet.CommonLib.SelectServerThread
import SelectNet.CommonLib.SendCounter
import SelectNet.CommonLib.SendLoop
import SelectNet.CommonLib.SendVariant
import SelectNet.CommonLib.Utils
import SelectNet.CommonLib.VarMemPool
import SelectNet.Configuration.ClientConfig
import SelectNet.Configuration.ReadBack
import SelectNet.Configuration.Strsplit
import SelectNet.Connection.BufferFifo
import SelectNet.Connection.DataBounds
import SelectNet.Connection.DataMessages
import SelectNet.Connection.Echo
import SelectNet.Connection.EchoServer
import SelectNet.Connection.MessageValidity
import SelectNet.Connection.Pipe
import SelectNet.Connection.Receiver
import SelectNet.Connection.Reconnect
import SelectNet.Connection.ReconnectEasyTcp
import SelectNet.Connection.ReconnectSelectClient
import SelectNet.Connection.ReconnectThread
import SelectNet.Connection.RecvAgreement
import SelectNet.Connection.RecvBounds
import SelectNet.Connection.RecvFraming
import SelectNet.Connection.RecvPaths
import SelectNet.Connection.RecvTermination
import SelectNet.Connection.RecvThreads
import SelectNet.Connection.SendExits
import SelectNet.Connection.SendFifo
import SelectNet.Connection.SendStream
import SelectNet.Connection.SendTermination
import SelectNet.Connection.SendThreads
import SelectNet.EasyTcpClient.EasyTcpClient
import SelectNet.EasyTcpServer.CellServer
import SelectNet.EasyTcpServer.EasyTcpServer
import SelectNet.Foundation.ByteMemory
import SelectNet.Foundation.CString
import SelectNet.Foundation.Decimal
import SelectNet.Foundation.Dispatch
import SelectNet.Foundation.DoublyLinked
import SelectNet.Foundation.FrameChannel
import SelectNet.Foundation.Framing
import SelectNet.Foundation.Lifetimes
import SelectNet.Foundation.Loop
import SelectNet.Foundation.Machine
import SelectNet.Foundation.Mutex
import SelectNet.Foundation.PartialWrites
import SelectNet.Foundation.Splitting
import SelectNet.Foundation.StringFields
import SelectNet.Server.Adoption
import SelectNet.Server.Broadcast
import SelectNet.Server.Drain
import SelectNet.Server.EasyAccounts
import SelectNet.Server.FdSetBounds
import SelectNet.Server.FdSetCalls
import SelectNet.Server.HandlePoll
import SelectNet.Server.Handler
import SelectNet.Server.HandlerCounters
import SelectNet.Server.Isolation
import SelectNet.Server.LiveSockets
import SelectNet.Server.LoadBalance
import SelectNet.Server.Ownership
import SelectNet.Server.Pairing
import SelectNet.Server.Polling
import SelectNet.Server.Shutdown
import SelectNet.Server.Sweep
import SelectNet.Server.TurnRules
import SelectNet.ServerTest.Answers
import SelectNet.ServerTest.ChatRoom
import SelectNet.ServerTest.Guests
import SelectNet.ServerTest.LoginCopies
import SelectNet.ServerTest.Server01
import SelectNet.ServerTest.Server02
import SelectNet.ServerTest.Speaking
