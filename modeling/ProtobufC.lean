import ProtobufC.Runtime.EnumLookup
import ProtobufC.Runtime.NameLookup
import ProtobufC.Wire.Acceptance
import ProtobufC.Wire.ReservedCounts
import ProtobufC.Wire.ThreeWalks
import ProtobufC.Wire.CheckSound
import ProtobufC.Wire.WireFormat
import ProtobufC.Wire.FailingGrowth
import ProtobufC.Dispatch.ChangeInverse
import ProtobufC.Dispatch.TimerOrder
import ProtobufC.Buffer.Fifo
import ProtobufC.Buffer.CopyVariants
import ProtobufC.Buffer.StrIndexOf
import ProtobufC.Rpc.EarlyRequests
import ProtobufC.Rpc.WatchesExact
import ProtobufC.Rpc.FiresOnce
import ProtobufC.Rpc.FreeListExact
import ProtobufC.Rpc.ReleasedOnce
import ProtobufC.Wire.VarintExact
import ProtobufC.Dispatch.Round
import ProtobufC.Dispatch.Conservation
import ProtobufC.Dispatch.PollTimeout
import ProtobufC.Dispatch.PollRound
import ProtobufC.Rpc.RequestsOwned
import ProtobufC.Rpc.ChunkedResponses
import ProtobufC.Rpc.ChunkedRequests
import ProtobufC.Wire.OldSchema
import ProtobufC.Rpc.RemoteCalls
import ProtobufC.Rpc.ClientRequests
import ProtobufC.Rpc.ServerRequests
import ProtobufC.Rpc.OtherConnections
import ProtobufC.Rpc.RpcSystem
import ProtobufC.Rpc.RpcSteps
import ProtobufC.Rpc.CallsExact
import ProtobufC.Rpc.MessageCalls
import ProtobufC.Rpc.ServerDestroy
import ProtobufC.Generator.Text
import ProtobufC.Generator.MessageTables
import ProtobufC.Rpc.FragmentReads
import ProtobufC.Generator.Names
import ProtobufC.Generator.Symbols
import ProtobufC.Wire.ReadBack
