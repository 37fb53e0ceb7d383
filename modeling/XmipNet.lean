import XmipNet.Authority
import XmipNet.BufRead
import XmipNet.Connect
import XmipNet.Delivery
import XmipNet.Endpoint
import XmipNet.Foundation.BigEndian
import XmipNet.Foundation.Bits
import XmipNet.Foundation.Blocks
import XmipNet.Foundation.Cuts
import XmipNet.Foundation.Duplex
import XmipNet.Foundation.Fallible
import XmipNet.Foundation.FittingPrefix
import XmipNet.Foundation.Framing
import XmipNet.Foundation.Handler
import XmipNet.Foundation.Joining
import XmipNet.Foundation.Memo
import XmipNet.Foundation.NatMap
import XmipNet.Foundation.PrefixTrie
import XmipNet.Foundation.Reading
import XmipNet.Foundation.Splitting
import XmipNet.Foundation.Transcript
import XmipNet.Foundation.Trimming
import XmipNet.Foundation.Utf8
import XmipNet.Grpc
import XmipNet.Head
import XmipNet.Http
import XmipNet.Http.Blank
import XmipNet.Http.Body
import XmipNet.Http.Chunking
import XmipNet.Http.Ends
import XmipNet.Http.Exchange
import XmipNet.Http.Framing
import XmipNet.Http.Kept
import XmipNet.Http.Legible
import XmipNet.Http.Message
import XmipNet.Http.Persistence
import XmipNet.Http.Received
import XmipNet.Http.Rewriting
import XmipNet.Http.RoundTrip
import XmipNet.Http.Single
import XmipNet.Http.Truncation
import XmipNet.Http2.Accounts
import XmipNet.Http2.Aftermath
import XmipNet.Http2.Agreement
import XmipNet.Http2.Announced
import XmipNet.Http2.Answers
import XmipNet.Http2.Asked
import XmipNet.Http2.Audience
import XmipNet.Http2.Beats
import XmipNet.Http2.Census
import XmipNet.Http2.Client
import XmipNet.Http2.ClientRuns
import XmipNet.Http2.Connection
import XmipNet.Http2.Contents
import XmipNet.Http2.Core
import XmipNet.Http2.Course
import XmipNet.Http2.Credit
import XmipNet.Http2.Deals
import XmipNet.Http2.Error
import XmipNet.Http2.Exchanges
import XmipNet.Http2.Failures
import XmipNet.Http2.Farewell
import XmipNet.Http2.Finishing
import XmipNet.Http2.Frame
import XmipNet.Http2.Frames
import XmipNet.Http2.Framing
import XmipNet.Http2.Heeding
import XmipNet.Http2.History
import XmipNet.Http2.Holding
import XmipNet.Http2.Hpack.Channel
import XmipNet.Http2.Hpack.Code
import XmipNet.Http2.Hpack.Decoder
import XmipNet.Http2.Hpack.Encoder
import XmipNet.Http2.Hpack.Fifo
import XmipNet.Http2.Hpack.Huffman
import XmipNet.Http2.Hpack.Integer
import XmipNet.Http2.Hpack.Literal
import XmipNet.Http2.Hpack.Reading
import XmipNet.Http2.Hpack.Safety
import XmipNet.Http2.Hpack.Table
import XmipNet.Http2.Hpack.Unpacking
import XmipNet.Http2.Hpack.Widths
import XmipNet.Http2.InFlight
import XmipNet.Http2.Incoming
import XmipNet.Http2.Items
import XmipNet.Http2.Limits
import XmipNet.Http2.Malformed
import XmipNet.Http2.Message
import XmipNet.Http2.Mishaps
import XmipNet.Http2.Outgoing
import XmipNet.Http2.Passage
import XmipNet.Http2.Pings
import XmipNet.Http2.Preface
import XmipNet.Http2.Procedure
import XmipNet.Http2.Purse
import XmipNet.Http2.Receive
import XmipNet.Http2.Records
import XmipNet.Http2.Replied
import XmipNet.Http2.Requests
import XmipNet.Http2.Send
import XmipNet.Http2.Server
import XmipNet.Http2.ServerRuns
import XmipNet.Http2.Serving
import XmipNet.Http2.Settings
import XmipNet.Http2.Sight
import XmipNet.Http2.Simulation
import XmipNet.Http2.Sizes
import XmipNet.Http2.Speech
import XmipNet.Http2.Spending
import XmipNet.Http2.Stream
import XmipNet.Http2.Terse
import XmipNet.Http2.Turns
import XmipNet.Http2.Utterances
import XmipNet.Http2.Window
import XmipNet.Lines
import XmipNet.Mac
import XmipNet.Naming
import XmipNet.NetError
import XmipNet.Network
import XmipNet.NodeFrame
import XmipNet.Pipe.Caller
import XmipNet.Pipe.Listener
import XmipNet.Pipe.Stream
import XmipNet.Read
import XmipNet.Reader
import XmipNet.Slices
import XmipNet.Source
import XmipNet.Status
import XmipNet.Target
import XmipNet.Text
import XmipNet.Uri
import XmipNet.Versions
import XmipNet.Watched
import XmipNet.Wire
import XmipNet.Words
