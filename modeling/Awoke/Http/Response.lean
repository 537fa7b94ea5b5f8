/-
Responses of the HTTP client, `awoke_http.c`.

A response is received into one buffer, which grows by a chunk before every read but the
first.  After each read the buffer is ended with a NUL and searched for the end of the head
and for the length of the body; the response is complete when as many bytes are behind the
head as the length says.  Only then is the head taken apart.

Memory is there when it is asked for.  What the connection receives is given as a socket.
To write behind an allocation, or to count on from a null pointer that `strstr` returned,
has no result.
-/
import Awoke.Lib.CString
import Awoke.Lib.Socket
import Awoke.Error

namespace Awoke.Http

/-- The bytes of a string constant. -/
def ascii (s : String) : List UInt8 := s.toList.map fun c => c.toNat.toUInt8

/-- `STR_CRLD`. -/
def crlf : List UInt8 := ascii "\r\n"

/-- What ends a head. -/
def blankLine : List UInt8 := ascii "\r\n\r\n"

/-! ### Names -/

/-- `request_headers`, without the marks at its end. -/
inductive HeaderType
  | unknown
  | host
  | userAgent
  | accept
  | acceptCharset
  | acceptEncoding
  | acceptLanguage
  | connection
  | contentLength
  | contentType
  | keepAlive
  | authorization
  deriving DecidableEq, Repr

/-- `http_protocol`. -/
inductive Protocol
  | unknown
  | http10
  | http11
  | http20
  deriving DecidableEq, Repr

/-- `g_header_keys_table`. -/
def headerKeysTable : List (List UInt8 × HeaderType) :=
  [ (ascii "Host", .host),
    (ascii "User-Agent", .userAgent),
    (ascii "Accept", .accept),
    (ascii "Accept-Charset", .acceptCharset),
    (ascii "Accept-Encoding", .acceptEncoding),
    (ascii "Accept-Language", .acceptLanguage),
    (ascii "Connection", .connection),
    (ascii "Content-Length", .contentLength),
    (ascii "Content-Type", .contentType),
    (ascii "Keep-Alive", .keepAlive),
    (ascii "Authorization", .authorization) ]

/-- `g_protocol_table`. -/
def protocolTable : List (List UInt8 × Protocol) :=
  [ (ascii "HTTP/1.0", .http10),
    (ascii "HTTP/1.1", .http11),
    (ascii "HTTP/2.0", .http20) ]

/-- The first entry that agrees with `key` as far as `key` goes: `strncmp` with its length. -/
def lookup {β : Type} (table : List (List UInt8 × β)) (unknown : β) (key : List UInt8) : β :=
  ((table.find? fun entry => key.isPrefixOf entry.1).map Prod.snd).getD unknown

/-- `find_key`. -/
def findKey (type : HeaderType) : Option (List UInt8) :=
  (headerKeysTable.find? fun entry => entry.2 = type).map Prod.fst

/-- `parse_key`. -/
def parseKey (key : List UInt8) : HeaderType := lookup headerKeysTable .unknown key

/-- `get_protocol`. -/
def getProtocol (key : List UInt8) : Protocol := lookup protocolTable .unknown key

/-! ### The buffer -/

/-- `HTTP_BUFFER_CHUNK`. -/
def bufferChunk : Nat := 8092

/-- `HTTP_BUFFER_LIMIT`. -/
def bufferLimit : Nat := 8 * bufferChunk

/-- `struct _http_buffchunk`: the bytes up to `length`, `size`, and how much was allocated. -/
structure Buffchunk where
  buff : List UInt8
  size : Nat
  alloc : Nat

namespace Buffchunk

/-- `length`. -/
def length (chunk : Buffchunk) : Nat := chunk.buff.length

/-- `http_buffchunk_init`. -/
def init : Buffchunk := { buff := [], size := bufferChunk, alloc := bufferChunk }

/-- `http_buffchunk_resize`. -/
def resize (chunk : Buffchunk) (newSize : Nat) : ErrType × Buffchunk :=
  if newSize ≤ chunk.size then (.etOk, chunk)
  else if bufferLimit < newSize then (.etMemLimit, chunk)
  else (.etOk, { chunk with size := newSize, alloc := newSize + 1 })

/-- The bytes of a `recv`, and the NUL behind them. -/
def store (chunk : Buffchunk) (bs : List UInt8) : Option Buffchunk :=
  if chunk.length + bs.length < chunk.alloc then some { chunk with buff := chunk.buff ++ bs }
  else none

/-- The buffer as a C string. -/
def text (chunk : Buffchunk) : List UInt8 := CString.text chunk.buff

end Buffchunk

/-! ### Responses -/

/-- `mem_ptr_t` into the buffer, as an offset and a length. -/
structure MemPtr where
  p : Nat
  len : UInt64
  deriving DecidableEq, Repr

/-- From one pointer to another; the difference is unsigned. -/
def MemPtr.between (head tail : Nat) : MemPtr :=
  { p := head, len := UInt64.ofNat tail - UInt64.ofNat head }

/-- `struct _http_header`. -/
structure Header where
  type : HeaderType
  key : Option (List UInt8)
  val : Option MemPtr

/-- `headers`, indexed by type. -/
abbrev Headers := HeaderType → Header

/-- `http_header_init`. -/
def headerInit : Headers := fun _ => { type := .unknown, key := none, val := none }

/-- `header_set`. -/
def headerSet (headers : Headers) (type : HeaderType) (val : MemPtr) : Headers :=
  match findKey type with
  | none => headers
  | some key => fun t => if t = type then { type, key := some key, val := some val } else headers t

/-- `struct _http_response`. -/
structure Response where
  status : Int
  protocol : Protocol
  contentLength : UInt64
  firstline : Option MemPtr
  protocolP : Option MemPtr
  statuscodeP : Option MemPtr
  body : Option MemPtr
  headers : Headers
  buffchunk : Buffchunk

namespace Response

/-- `http_response_init`. -/
def init : Response where
  status := 200
  protocol := .unknown
  contentLength := 0
  firstline := none
  protocolP := none
  statuscodeP := none
  body := none
  headers := headerInit
  buffchunk := .init

/-- The bytes `body` points to. -/
def bodyBytes (rsp : Response) : Option (List UInt8) :=
  rsp.body.map fun b => (rsp.buffchunk.buff.drop b.p).take b.len.toNat

/-- The search for `Content-Length`, and the `sscanf` behind it. -/
def scanContentLength (text : List UInt8) : Option UInt64 :=
  (CString.strstr text 0 (ascii "Content-Length")).bind fun pos =>
    match text.drop (pos + (ascii "Content-Length").length) with
    | 58 :: value => CString.scanUlong value
    | _ => none

/-- `http_response_preparse`. -/
def preparse (rsp : Response) : Option Response :=
  let text := rsp.buffchunk.text
  let contentLength :=
    if rsp.contentLength = 0 then (scanContentLength text).getD 0 else rsp.contentLength
  (CString.strstr text 0 blankLine).map fun pos =>
    { rsp with
      contentLength := contentLength
      body := some (.between (pos + 4) rsp.buffchunk.length) }

/-- `http_response_recv_finish`. -/
def recvFinish (rsp : Response) : Option (Bool × Response) :=
  rsp.preparse.map fun rsp => ((rsp.body.map MemPtr.len).getD 0 == rsp.contentLength, rsp)

/-- The loop of `response_parse_header` over the lines up to `tail`. -/
def parseLines (text : List UInt8) (tail head : Nat) (headers : Headers) : Option Headers :=
  match _hstop : CString.strstr text head crlf with
  | none => some headers
  | some stop =>
      if stop ≤ tail then
        match CString.strstr text head (ascii ": ") with
        | none => none
        | some pos =>
            parseLines text tail (stop + 2)
              (headerSet headers (parseKey ((text.drop head).take (pos - head)))
                (.between (pos + 2) stop))
      else some headers
termination_by tail + 1 - head
decreasing_by
  have := ((CString.strstr_eq_some_iff (by decide)).mp _hstop).1
  omega

/-- `response_parse_header`. -/
def parseHeader (rsp : Response) : Option (ErrType × Response) :=
  let text := rsp.buffchunk.text
  match CString.strstr text 0 crlf with
  | none => some (.etParser, rsp)
  | some tail =>
      let rsp := { rsp with firstline := some (.between 0 tail) }
      match CString.strstr text 0 (ascii " ") with
      | none => some (.etParser, rsp)
      | some pos =>
          let rsp := { rsp with
            protocolP := some (.between 0 pos)
            protocol := getProtocol (text.take pos) }
          let head := pos + 1
          match CString.strstr text head (ascii " ") with
          | none => some (.etParser, rsp)
          | some _ =>
              let rsp := { rsp with
                statuscodeP := some (.between head tail)
                status := (CString.scanInt (text.drop head)).getD rsp.status }
              let head := tail + 2
              match CString.strstr text head blankLine with
              | none => some (.etParser, rsp)
              | some tail =>
                  (parseLines text tail head rsp.headers).map fun headers =>
                    (.etOk, { rsp with
                      headers := headers
                      body := some { p := tail + 4, len := rsp.contentLength } })

end Response

/-! ### Receiving -/

/-- `awoke_tcp_connect_recv` that does not block: its code, what was read, and the socket. -/
def tcpConnectRecv (socket : Socket.Stream UInt8) (maxSize : Nat) :
    ErrType × List UInt8 × Socket.Stream UInt8 :=
  match socket.recv maxSize with
  | (.failed, socket) => (.etSockRecv, [], socket)
  | (.closed, socket) => (.etOk, [], socket)
  | (.bytes bs, socket) => (.etOk, bs, socket)

/-- What receiving came to: its code, the response, which is freed on an error, and how much
there was after each turn of the loop. -/
structure Received where
  ret : ErrType
  rsp : Option Response
  lengths : List Nat

/-- The loop of `http_response_recv` and what follows it. -/
def recvLoop : Nat → Response → Socket.Stream UInt8 → List Nat → Option Received
  | 0, _, _, _ => none
  | n + 1, rsp, socket, lengths =>
      let chunk := rsp.buffchunk
      let resized :=
        if chunk.length = 0 then (.etOk, chunk) else chunk.resize (chunk.size + bufferChunk)
      if resized.1 ≠ .etOk then some { ret := resized.1, rsp := none, lengths }
      else
        let chunk := resized.2
        let read := tcpConnectRecv socket (chunk.size - chunk.length)
        if read.1 ≠ .etOk then some { ret := read.1, rsp := none, lengths }
        else
          (chunk.store read.2.1).bind fun chunk =>
            (Response.recvFinish { rsp with buffchunk := chunk }).bind fun q =>
              let lengths := lengths ++ [chunk.length]
              if q.1 then
                q.2.parseHeader.map fun parsed =>
                  { ret := .etOk, rsp := some parsed.2, lengths }
              else recvLoop n q.2 read.2.2 lengths

/-- `http_response_recv` with a response as `http_response_init` leaves it, in so many turns
at most. -/
def responseRecv (n : Nat) (socket : Socket.Stream UInt8) : Option Received :=
  recvLoop n .init socket []

end Awoke.Http
