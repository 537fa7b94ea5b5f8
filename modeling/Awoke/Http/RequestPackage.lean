/-
Packaging a request, `http_request_package` in `awoke_http.c`.

The text of a request is built in its buffer.  The builder is made from the buffer when the
request is initialised; for a body `http_request` makes the buffer larger afterwards, which may
move it.  Memory is there when it is asked for; `place` is the block that `realloc` returns, the
same one or another.

`mem_mkptr_num` prints the length of the body into an array of its own and returns a pointer to
it.  A header with such a value has `none`, and to print it has no result.

The messages for the log go through `awoke_log`, which prints them itself: `%.*s` of a null
pointer reads there, also with length zero, and a line that does not fit its buffer is written
behind it.  Neither has a result.  The messages of `log_debug` that hold numbers only are left
out.
-/
import Awoke.Http.Response
import Awoke.Util.LogLine

namespace Awoke.Http

open LogLine (Logs Place)

/-! ### The log -/

/-- A line of `request_build_headers`. -/
def inBuildHeaders (line : Int) : Place :=
  { func := { bytes := ascii "request_build_headers", no_nul := by decide }, line := line }

/-- A line of `http_header_dump`. -/
def inHeaderDump (line : Int) : Place :=
  { func := { bytes := ascii "http_header_dump", no_nul := by decide }, line := line }

/-- A line of `http_request_dump`. -/
def inRequestDump (line : Int) : Place :=
  { func := { bytes := ascii "http_request_dump", no_nul := by decide }, line := line }

/-- A line of `http_request_package`. -/
def inRequestPackage (line : Int) : Place :=
  { func := { bytes := ascii "http_request_package", no_nul := by decide }, line := line }

/-! ### Requests -/

/-- `struct _http_header` of a request. -/
structure ReqHeader where
  type : HeaderType
  key : Option (List UInt8)
  val : Option CStr

/-- `headers` of a request, indexed by type. -/
abbrev ReqHeaders := HeaderType → ReqHeader

/-- The slots of `headers`, in order. -/
def headerTypes : List HeaderType :=
  [.unknown, .host, .userAgent, .accept, .acceptCharset, .acceptEncoding, .acceptLanguage,
    .connection, .contentLength, .contentType, .keepAlive, .authorization]

/-- `struct _http_buffchunk`, with its memory. -/
structure ReqChunk where
  mem : MemBlock
  size : Int
  length : Int

/-- `http_buffchunk_init`, with a block of zeros. -/
def ReqChunk.init (id : Nat) : ReqChunk where
  mem := { id := id, alloc := bufferChunk, cells := fun _ => 0 }
  size := bufferChunk
  length := 0

/-- `http_buffchunk_resize`. -/
def ReqChunk.resize (chunk : ReqChunk) (newSize : Int) (place : Nat) : ErrType × ReqChunk :=
  if chunk.size ≥ newSize then (.etOk, chunk)
  else if newSize > bufferLimit then (.etMemLimit, chunk)
  else
    (.etOk, { chunk with
      mem := { chunk.mem with id := place, alloc := (newSize + 1).toNat }
      size := newSize })

/-- `struct _http_request`.  The extended headers have a type and a value each. -/
structure Request where
  uri : CStr
  host : CStr
  path : CStr
  body : CStr
  method : CStr
  protocol : CStr
  extendHeaders : Option (HeaderType → HeaderType × CStr)
  headers : ReqHeaders
  bp : BuildPtr
  buffchunk : ReqChunk

/-- `header_set` for a request. -/
def requestSetHeader (headers : ReqHeaders) (type : HeaderType) (val : Option CStr) : ReqHeaders :=
  match findKey type with
  | none => headers
  | some key => fun t => if t = type then { type, key := some key, val } else headers t

/-- `request_set_extend_header`. -/
def requestSetExtendHeader (headers : ReqHeaders) (extend : HeaderType → HeaderType × CStr) :
    ReqHeaders :=
  headerTypes.foldl (fun headers i =>
    if (extend i).1 ≠ .unknown then requestSetHeader headers (extend i).1 (some (extend i).2)
    else headers) headers

namespace Request

/-- `http_request_init`. -/
def init (id : Nat) : Request where
  uri := .empty
  host := .empty
  path := .empty
  body := .empty
  method := .empty
  protocol := .empty
  extendHeaders := none
  headers := fun _ => { type := .unknown, key := none, val := none }
  bp := buildPtrMake (ReqChunk.init id).mem bufferChunk 0
  buffchunk := .init id

/-- The headers that `http_request_package` sets before it builds anything. -/
def setHeaders (req : Request) : ReqHeaders :=
  let headers := requestSetHeader req.headers .host (some req.host)
  let headers :=
    if req.body.len ≠ 0 then requestSetHeader headers .contentLength none else headers
  match req.extendHeaders with
  | none => headers
  | some extend => requestSetExtendHeader headers extend

/-- `__build_ptr` with the builder of the request. -/
def build (req : Request) (text : List UInt8) : Option Request :=
  (BuildPtr.build (req.bp, req.buffchunk.mem) text).map fun s =>
    { req with bp := s.1, buffchunk := { req.buffchunk with mem := s.2 } }

/-- `request_build_startline`. -/
def buildStartline (req : Request) : Option Request :=
  req.build (req.method.bytes ++ ascii " " ++ req.path.bytes ++ ascii " " ++ req.protocol.bytes ++
    crlf)

/-- `request_build_header`. -/
def buildHeader (req : Request) (h : ReqHeader) : Option Request :=
  h.val.bind fun val => req.build (h.key.getD [] ++ ascii ": " ++ val.bytes ++ crlf)

/-- A turn of the loop of `request_build_headers`. -/
def headerTurn (logs : Logs) (req : Request) (h : ReqHeader) : Option Request := do
  logs.print .logTrace (inBuildHeaders 467) (do
    let key ← h.key
    let val ← h.val
    return ascii "header key:" ++ key ++ ascii " val:" ++ val.bytes)
  if h.key.isSome then req.buildHeader h else some req

/-- `request_build_headers`. -/
def buildHeaders (logs : Logs) (req : Request) : Option Request := do
  logs.print .logTrace (inBuildHeaders 464) (some (ascii "request_build_headers"))
  headerTypes.foldlM (fun r t => headerTurn logs r (req.headers t)) req

/-- `request_build_body`. -/
def buildBody (req : Request) : Option Request := req.build req.body.bytes

/-- `http_header_dump`. -/
def headerDump (logs : Logs) (headers : ReqHeaders) : Option Unit :=
  headerTypes.forM fun t =>
    if (headers t).key.getD [] ≠ [] then
      logs.print .logInfo (inHeaderDump 493) (do
        let key ← (headers t).key
        let val ← (headers t).val
        return key ++ ascii " " ++ val.bytes)
    else some ()

/-- The line in front of a dump and behind it. -/
def dumpRule : List UInt8 := ascii "--------------------------------"

/-- `http_request_dump`. -/
def dump (logs : Logs) (req : Request) : Option Unit := do
  logs.print .logInfo (inRequestDump 503) (some (ascii ">>> HTTP Request dump:"))
  logs.print .logInfo (inRequestDump 504) (some dumpRule)
  logs.print .logInfo (inRequestDump 505) (some (ascii "uri : " ++ req.uri.bytes))
  logs.print .logInfo (inRequestDump 506) (some (ascii "method : " ++ req.method.bytes))
  logs.print .logInfo (inRequestDump 507) (some (ascii "protocol : " ++ req.protocol.bytes))
  headerDump logs req.headers
  logs.print .logTrace (inRequestDump 509)
    (some (ascii "HTTP Text:\n" ++
      (Cells.slice req.buffchunk.mem.cells 0 req.buffchunk.length.toNat).takeWhile (· ≠ 0)))
  logs.print .logInfo (inRequestDump 510) (some dumpRule)

/-- `http_request_package`. -/
def package (logs : Logs) (req : Request) : Option (ErrType × Request) := do
  let req := { req with headers := req.setHeaders }
  let req ← req.buildStartline
  let req ← req.buildHeaders logs
  let req ← req.build crlf
  logs.print .logTrace (inRequestPackage 552) (some (ascii "STR_CRLD ok"))
  let req ← (if req.body.len ≠ 0 then
      req.buildBody.bind fun req =>
        (logs.print .logTrace (inRequestPackage 556) (some (ascii "body ok"))).map fun _ => req
    else some req)
  let req := { req with
    buffchunk := { req.buffchunk with length := (req.bp.len.setWidth 32).toInt } }
  req.dump logs
  return (.etOk, req)

/-- The header that `http_request` sets for a protocol. -/
def connectionHeader (headers : ReqHeaders) (protocol : CStr) : ReqHeaders :=
  if protocol.bytes.isPrefixOf (ascii "HTTP/1.1") then
    requestSetHeader headers .connection
      (some { bytes := ascii "keep-alive", no_nul := by decide })
  else headers

/-- `http_request` from where the connection is there up to the packaging. -/
def prepare (req : Request) (uri host path method protocol body : CStr)
    (extend : Option (HeaderType → HeaderType × CStr)) (place : Nat) : Request :=
  let req := { req with
    uri := uri
    host := host
    path := path
    method := method
    protocol := protocol
    extendHeaders := extend
    headers := connectionHeader req.headers protocol }
  if method.bytes.isPrefixOf (ascii "POST") then
    { req with
      body := body
      buffchunk := (req.buffchunk.resize (BitVec.ofNat 32 body.len).toInt place).2 }
  else req

end Request

end Awoke.Http
