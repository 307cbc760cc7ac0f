import ComputerNetworking.Lib.Stream
import ComputerNetworking.Sbcp.Accessors
import ComputerNetworking.Sbcp.Names
import ComputerNetworking.Lib.Transition
import ComputerNetworking.Lib.Framing
import ComputerNetworking.Chat.Authenticity
import ComputerNetworking.Lib.Chunks
import ComputerNetworking.Tftp.Netascii
import ComputerNetworking.Tftp.Packet
import ComputerNetworking.Tftp.LockStep
import ComputerNetworking.Tftp.ReadComplete
import ComputerNetworking.Tftp.WriteRequest
import ComputerNetworking.Tftp.OctetUpload
import ComputerNetworking.Tftp.NetasciiUpload
import ComputerNetworking.Lib.CxxString
import ComputerNetworking.Lib.Loop
import ComputerNetworking.Http.FirstLine
import ComputerNetworking.Http.Message
import ComputerNetworking.Http.ParseTermination
import ComputerNetworking.Lib.UnorderedMap
import ComputerNetworking.Proxy.Cache
import ComputerNetworking.Proxy.Handler
import ComputerNetworking.Proxy.Refresh
import ComputerNetworking.Proxy.CrossUri
import ComputerNetworking.Sbcp.Decoding
import ComputerNetworking.Sbcp.RoundTrip
import ComputerNetworking.Sbcp.Grammar
import ComputerNetworking.Chat.Loop
import ComputerNetworking.Chat.Membership
import ComputerNetworking.Chat.Roster
import ComputerNetworking.Chat.Acknowledge
import ComputerNetworking.Chat.Departure
import ComputerNetworking.Chat.Segments
import ComputerNetworking.Proxy.Revalidation
import ComputerNetworking.Lib.History
import ComputerNetworking.Proxy.Coherence
import ComputerNetworking.Chat.Refinement
import ComputerNetworking.Tftp.NetasciiRoundTrip
import ComputerNetworking.Elixir.Codec
import ComputerNetworking.Elixir.Agreement
import ComputerNetworking.Lib.Search
import ComputerNetworking.Proxy.RequestReading
import ComputerNetworking.Http.Print
import ComputerNetworking.Http.NormalForm
import ComputerNetworking.Proxy.Discipline
import ComputerNetworking.Http.Acceptance
import ComputerNetworking.Http.Client
import ComputerNetworking.Proxy.Survival
import ComputerNetworking.Tcp.ClientHandler
import ComputerNetworking.Tcp.Server
import ComputerNetworking.Sbcp.Mutators
import ComputerNetworking.Sbcp.Indexing
import ComputerNetworking.Lib.Memory
import ComputerNetworking.Sbcp.Construction
import ComputerNetworking.Http.HeaderLine
import ComputerNetworking.Proxy.Target
import ComputerNetworking.Lib.CString
import ComputerNetworking.Tftp.Request
import ComputerNetworking.Tftp.RequestHandling
import ComputerNetworking.Tftp.Datagrams
import ComputerNetworking.Lib.Lines
import ComputerNetworking.Tcp.Client
import ComputerNetworking.Echo.Programs
import ComputerNetworking.Echo.EndToEnd
import ComputerNetworking.Lib.CallLoop
import ComputerNetworking.Tcp.Transfer
import ComputerNetworking.Chat.Client
import ComputerNetworking.Chat.Conversation
import ComputerNetworking.Lib.Patience
import ComputerNetworking.Server.RunServer
import ComputerNetworking.Tftp.Download
import ComputerNetworking.Tftp.FileServer
import ComputerNetworking.Tftp.Retransmission
import ComputerNetworking.Http.Encode
import ComputerNetworking.Web.Exchange
import ComputerNetworking.Web.Origin
import ComputerNetworking.Web.OwnPages
