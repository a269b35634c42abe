import Rsurl.Library.BitString
import Rsurl.Library.Outcome
import Rsurl.Library.Fifo
import Rsurl.Library.Loop
import Rsurl.Error
import Rsurl.Hpack.Integer
import Rsurl.Hpack.Huffman
import Rsurl.Hpack.HuffmanTable
import Rsurl.Hpack.HuffmanCodec
import Rsurl.Hpack.Table
import Rsurl.Hpack.Literal
import Rsurl.Hpack.Sync
import Rsurl.Http2.Frame
import Rsurl.Http2.Stream
import Rsurl.Http2.Connection
import Rsurl.Http2.Dispatch
import Rsurl.Http2.Request
import Rsurl.Http2.Response
import Rsurl.Http2.Driver
import Rsurl.Http2.Sending
import Rsurl.Http2.Multiplex
import Rsurl.Http2.Reachable
import Rsurl.Http2.Alike
import Rsurl.Http2.Sections
import Rsurl.Http2.HeaderBlocks
import Rsurl.Http2.Accepted
import Rsurl.Library.Trace
import Rsurl.Http2.Received
import Rsurl.Http2.ContentLength
import Rsurl.Http2.Accounting
import Rsurl.Http2.Moves
import Rsurl.Http2.Pump
import Rsurl.Http2.Standing
import Rsurl.Http2.Batch
import Rsurl.Http2.DecodeErrors
import Rsurl.Http2.Exchange
import Rsurl.Http2.Pooling
import Rsurl.Http2.SendWindows
import Rsurl.Http2.Termination
import Rsurl.Http2.Pool
import Rsurl.Text
import Rsurl.Url
import Rsurl.Http.Request
import Rsurl.Http.Redirect
import Rsurl.Http.Credentials
import Rsurl.Aio.Exchange
import Rsurl.Aio.Agreement
import Rsurl.Http.Digest
import Rsurl.Http.Versions
import Rsurl.Http.Disclosure
import Rsurl.Cookie.Jar
import Rsurl.Cookie.Scope
import Rsurl.Cookie.Netscape
import Rsurl.Cookie.Keys
import Rsurl.Cookie.RoundTrip
import Rsurl.Http1.Head
import Rsurl.Http1.Exchange
import Rsurl.Library.Resume
import Rsurl.Http1.Segmentation
import Rsurl.Http1.Legacy
import Rsurl.Http.Replay
import Rsurl.Library.Extent
import Rsurl.Tmpfile.Blob
import Rsurl.Tmpfile.Refinement
import Rsurl.Library.Endian
import Rsurl.Library.Framing
import Rsurl.Library.Receiver
import Rsurl.WebSocket.Frame
import Rsurl.WebSocket.Transport
import Rsurl.WebSocket.Reader
import Rsurl.Aio.WebSocket
import Rsurl.WebSocket.Agreement
import Rsurl.WebSocket.Reassembly
import Rsurl.WebSocket.Writer
import Rsurl.WebSocket.Outgoing
import Rsurl.WebSocket.Interleaving
import Rsurl.Library.Claiming
import Rsurl.Download.Response
import Rsurl.Download.Plan
import Rsurl.Download.Chunk
import Rsurl.Download.Workers
import Rsurl.Bittorrent.Picker
import Rsurl.Bittorrent.Storage
import Rsurl.Bittorrent.Pieces
import Rsurl.Bittorrent.Verified
import Rsurl.Bittorrent.Seed
import Rsurl.Library.Tally
import Rsurl.Bittorrent.Swarm
import Rsurl.Bittorrent.Moves
import Rsurl.Bittorrent.Books
import Rsurl.Bittorrent.Engine
import Rsurl.Bittorrent.Idle
import Rsurl.Library.Talk
import Rsurl.Library.Delimited
import Rsurl.Ascii
import Rsurl.Net.Addr
import Rsurl.Net.Wire
import Rsurl.Net.Proxy
import Rsurl.Net.Grammar
import Rsurl.Net.Tunnel
import Rsurl.Net.Connect
import Rsurl.Ftp.Client
import Rsurl.Mail.Smtp
import Rsurl.Mail.Pop3
import Rsurl.Mail.Imap
import Rsurl.Net.Resumed
import Rsurl.StartTls.Closed
import Rsurl.StartTls.Sealed
import Rsurl.Hpack.HuffmanImage
import Rsurl.Hpack.Hostile
import Rsurl.Http1.Remainder
import Rsurl.Library.DotSegments
import Rsurl.Url.Parts
import Rsurl.Url.Path
import Rsurl.Url.Authority
import Rsurl.Url.Reference
import Rsurl.Library.LineEnds
import Rsurl.Http.Head
import Rsurl.Hpack.Owing
import Rsurl.Library.Calendar
import Rsurl.Sigv4
import Rsurl.Download.Layout
import Rsurl.Utf8
import Rsurl.Download.Metadata
import Rsurl.Download.PartFile
import Rsurl.WebSocket.Codec
import Rsurl.WebSocket.Deflate
import Rsurl.Library.Retry
import Rsurl.Download.Single
import Rsurl.Download.Attempts
import Rsurl.Download.Bootstrap
import Rsurl.Download.SizeCap
import Rsurl.Multi
import Rsurl.Bittorrent.Job
import Rsurl.Library.Checked
import Rsurl.Ldap.Exact
import Rsurl.Split
import Rsurl.Ldap.ReadBack
import Rsurl.Library.Entries
import Rsurl.Numeral
import Rsurl.Bittorrent.Infohash
import Rsurl.Bittorrent.Confined
import Rsurl.Ldap.Ldif
import Rsurl.Mqtt.RoundTrip
import Rsurl.Http2.ContentCoding
import Rsurl.Http.Digest.Header
import Rsurl.Mail.Transparency
import Rsurl.Net.ProxyConfig
import Rsurl.Cli.Userinfo
import Rsurl.Net.NoProxy
import Rsurl.Cli.HttpDate
import Rsurl.Cli.Multipart
import Rsurl.Cli.Resume
import Rsurl.Mail.LineReader
import Rsurl.Mail.Fetched
import Rsurl.Tls.Base64
import Rsurl.Bittorrent.Peer
import Rsurl.Cli.Disposition
import Rsurl.Ssh.Userinfo
import Rsurl.Http3.Dial
import Rsurl.Http.WellFormed
import Rsurl.Rtsp.Session
import Rsurl.Aio.Framed
import Rsurl.Sigv4.Sign
import Rsurl.Library.Lockstep
import Rsurl.Tftp.Client
import Rsurl.Tftp.Download
import Rsurl.Tftp.Upload
import Rsurl.Telnet
