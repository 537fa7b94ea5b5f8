import Awoke.Lib.Run
import Awoke.Lib.Cells
import Awoke.Lib.CellOps
import Awoke.Error
import Awoke.Util.Bitmap
import Awoke.Util.Queue
import Awoke.Proofs.Bitmap
import Awoke.Proofs.Queue
import Awoke.Util.Fifo
import Awoke.Proofs.Fifo
import Awoke.Lib.BinHeap
import Awoke.Util.Minpq
import Awoke.Proofs.Minpq
import Awoke.Proofs.MinpqResize
import Awoke.Proofs.MinpqDel
import Awoke.Cmder.RxPoll
import Awoke.Cmder.Xfer
import Awoke.Proofs.RxPoll
import Awoke.Proofs.XferStream
import Awoke.Cmder.Stream
import Awoke.Proofs.Buffer
import Awoke.Proofs.StreamStep
import Awoke.Proofs.Stream
import Awoke.Proofs.StreamDelivery
import Awoke.Proofs.StreamMedia
import Awoke.Proofs.BufferPool
import Awoke.Proofs.BufferIds
import Awoke.Util.Worker
import Awoke.Proofs.Worker
import Awoke.Mtk.Chunkinfo
import Awoke.Proofs.UploadPlan
import Awoke.Cmder.Litetalk
import Awoke.Proofs.Litetalk
import Awoke.Cmder.Work
import Awoke.Proofs.CmderWork
import Awoke.Mtk.Connect
import Awoke.Mtk.Work
import Awoke.Mtk.Context
import Awoke.Mtk.Client
import Awoke.Proofs.MtkWork
import Awoke.Proofs.MtkContext
import Awoke.Proofs.MtkPhase
import Awoke.Proofs.Keepalive
import Awoke.Proofs.Watchdog
import Awoke.Proofs.NoticeLink
import Awoke.Proofs.MtkData
import Awoke.Proofs.SessionProgress
import Awoke.Util.WorkerControl
import Awoke.Util.WorkerThread
import Awoke.Proofs.Download
import Awoke.Proofs.ShortLink
import Awoke.Proofs.SpiFlash
import Awoke.Http.Response
import Awoke.Proofs.MemtraceExport
import Awoke.Proofs.Memtrace
import Awoke.Proofs.Filecache
import Awoke.Proofs.WorkerThread
import Awoke.Lib.DoWhile
import Awoke.Benchmark.EotsHd
import Awoke.Proofs.EotsHd
import Awoke.Benchmark.MemtraceLog
import Awoke.Proofs.MemtraceLog
import Awoke.Benchmark.SpiFlash
import Awoke.Http.Message
import Awoke.Proofs.HttpParse
import Awoke.Proofs.HttpResponse
import Awoke.Proofs.HttpLegible
import Awoke.Proofs.WorkerStop
import Awoke.Dns.Reply
import Awoke.Proofs.DnsReply
import Awoke.Proofs.QueueSlots
import Awoke.Proofs.BufferResize
import Awoke.Proofs.BufferHeap
import Awoke.Proofs.XferMatch
import Awoke.Cmder.XferRead
import Awoke.Proofs.XferRead
import Awoke.Proofs.XferData
import Awoke.Proofs.XferServed
import Awoke.Lib.Search
import Awoke.Cmder.LitetalkFrame
import Awoke.Proofs.LitetalkMatch
import Awoke.Proofs.LitetalkScan
import Awoke.Proofs.LitetalkBuild
import Awoke.Proofs.LitetalkDownload
import Awoke.Cmder.StreamUses
import Awoke.Proofs.StreamBreak
import Awoke.Cmder.Ecmd
import Awoke.Proofs.PollRepeat
import Awoke.Proofs.StreamUses
import Awoke.Proofs.WorkerRuns
import Awoke.Http.Request
import Awoke.Proofs.HttpSend
import Awoke.Lib.Crc
import Awoke.Proofs.Crc16
import Awoke.Lib.OnesSum
import Awoke.Proofs.ChecksumU16
import Awoke.Proofs.StringCodec
import Awoke.Lib.SearchTree
import Awoke.Proofs.Btree
import Awoke.Vin.Parser
import Awoke.Proofs.VinParser
import Awoke.Event.Loop
import Awoke.Event.Registry
import Awoke.Proofs.EventStep
import Awoke.Proofs.EventLoop
import Awoke.Rtmsg.Message
import Awoke.Proofs.RtmsgRecv
import Awoke.Proofs.BuildPtr
import Awoke.Http.RequestPackage
import Awoke.Proofs.RequestPackage
import Awoke.Http.Uri
import Awoke.Proofs.Uri
import Awoke.Proofs.UriText
import Awoke.Proofs.HeadLines
import Awoke.Proofs.ResponseHead
import Awoke.Lib.InOrder
import Awoke.Benchmark.Fbkflow
import Awoke.Proofs.Fbkflow
import Awoke.Lib.Sectors
import Awoke.Benchmark.SpiBus
import Awoke.Proofs.SpiBus
import Awoke.Proofs.SpiProgram
import Awoke.Proofs.SpiPlan
import Awoke.Proofs.SpiErase
import Awoke.Proofs.SpiReport
import Awoke.Proofs.EcmdFrames
import Awoke.Benchmark.Nvm
import Awoke.Proofs.Nvm
import Awoke.Util.LogLine
import Awoke.Proofs.LogLine
import Awoke.Benchmark.Iostream
import Awoke.Proofs.Iostream
import Awoke.Lib.Pieces
import Awoke.Ry.Message
import Awoke.Proofs.RyMessage
import Awoke.Lib.Cbc
import Awoke.Sec.Aes
import Awoke.Proofs.Aes
import Awoke.Lib.Links
import Awoke.Util.AwokeList
import Awoke.Proofs.AwokeList
import Awoke.Lib.Increasing
import Awoke.Gps.History
import Awoke.Proofs.GpsHistory
import Awoke.Proofs.DnsTable
import Awoke.Dns.Wire
import Awoke.Proofs.DnsTable
import Awoke.Proofs.DnsNames
import Awoke.Dns.Request
import Awoke.Proofs.DnsRequest
import Awoke.Lib.Rijndael
import Awoke.Sec.AesBlock
import Awoke.Proofs.AesBlock
import Awoke.Lib.Copy
import Awoke.Sec.AesBytes
import Awoke.Proofs.AesBytes
import Awoke.Lib.Words
import Awoke.Lib.Tiling
import Awoke.Benchmark.Bget
import Awoke.Benchmark.BgetClient
import Awoke.Proofs.BgetLinks
import Awoke.Proofs.BgetHeap
import Awoke.Proofs.BgetAlloc
import Awoke.Proofs.BgetFree
import Awoke.Proofs.BgetPool
import Awoke.Proofs.BgetCalls
import Awoke.Proofs.BgetRuns
import Awoke.Sec.Base64
import Awoke.Proofs.Base64
import Awoke.Util.Printf
import Awoke.Util.Format
import Awoke.Proofs.Printf
import Awoke.Proofs.PrintfFormat
import Awoke.Util.Lock
import Awoke.Proofs.Lock
import Awoke.Proofs.Relay
import Awoke.Lib.MerkleDamgard
import Awoke.Util.Md5
import Awoke.Proofs.Md5
