/-
Responses on the DATA channel, `short_link_read` in `micro_talk.c`.

All connections are read into the receive buffer of their context.  When a response turns
out to be longer than the room there is, its bytes move to a spare buffer of the connection,
which is released with it.  After a read or a write that went well the receive buffer is
cleared.

What a connection receives is given as a socket.  Requests are sent without an error, and
memory is there when it is asked for.  To use the spare buffer after it was freed has no
result.
-/
import Awoke.Lib.Socket
import Awoke.Util.Buffer
import Awoke.Util.Package

namespace Awoke.Mtk

/-- `MTK_RSP_HEADER_LENGTH`. -/
def rspHeaderLength : Int := 4

/-! ### Reading a response -/

/-- `short_link_read` between two calls of `recv`: the two buffers, whether `chunk` is the
spare one, `need_read`, and the socket; with them what the connection has received, and how
much that was whenever a header was read. -/
structure Reading where
  rx : Buffchunk
  spare : Option Buffchunk
  nextId : UInt16
  inSpare : Bool
  needRead : Int
  socket : Socket.Stream UInt8
  received : Nat
  headers : List Nat

namespace Reading

/-- The buffer `chunk` points to. -/
def chunk (r : Reading) : Buffchunk := if r.inSpare then r.spare.getD r.rx else r.rx

/-- Change that buffer. -/
def setChunk (r : Reading) (chunk : Buffchunk) : Reading :=
  if r.inSpare then { r with spare := some chunk } else { r with rx := chunk }

/-- What is done when there is less room than `need_read`. -/
def makeRoom (r : Reading) : Option (ErrType × Reading) :=
  if r.chunk.remain < r.needRead then
    match r.spare with
    | none =>
        match Buffchunk.create r.nextId (r.needRead + r.chunk.length) with
        | (none, _) => some (.etNomem, r)
        | (some spare, id) => some (.etOk, { r with
            nextId := id
            spare := some { spare with
              p := Cells.write spare.p 0 r.chunk.contents
              length := r.chunk.length }
            inSpare := true })
    | some _ =>
        let resized := r.chunk.resize (r.needRead + r.chunk.length) false
        if resized.1 = .etOk then some (.etOk, r.setChunk resized.2) else none
  else some (.etOk, r)

/-- The bytes of a `recv`, stored where `chunk` ends. -/
def store (r : Reading) (bs : List UInt8) (socket : Socket.Stream UInt8) (length : Int) :
    Reading :=
  { r.setChunk { r.chunk with
      p := Cells.write r.chunk.p r.chunk.length bs
      length := r.chunk.length + length } with
    socket := socket
    received := r.received + bs.length }

/-- The length of the response, as the header has it. -/
def length (r : Reading) : UInt16 := htons (pullWord r.chunk.p 1)

end Reading

/-- The loop of `short_link_read` and its end: the code, what the `RECEIVE` callback was
called with, and how things stand. -/
def readLoop : Nat → Reading → Option (ErrType × List (List UInt8) × Reading)
  | 0, _ => none
  | n + 1, r =>
      r.makeRoom.bind fun q =>
        if q.1 ≠ .etOk then some (q.1, [], q.2)
        else
          let r := q.2
          let maxRead := r.chunk.remain
          match r.socket.recv maxRead.toNat with
          | (.closed, _) => some (.etSockRecv, [], r)
          | (.failed, _) => some (.etSockRecv, [], r)
          | (.bytes bs, socket) =>
              if maxRead < bs.length then
                readLoop n { r.store bs socket maxRead with needRead := bs.length - maxRead }
              else
                let r := r.store bs socket bs.length
                let r := { r with headers := r.headers ++ [r.received] }
                if r.chunk.length < r.length.toNat + rspHeaderLength then
                  readLoop n { r with
                    needRead := r.length.toNat + rspHeaderLength - r.chunk.length }
                else some (.etOk, [r.chunk.contents], r)

/-! ### Connections, one after the other -/

/-- What outlives a read: the receive buffer of the context, the spare buffer of the
connection, and the counter of `buffchunk_id`. -/
structure ShortLink where
  rx : Buffchunk
  spare : Option Buffchunk
  nextId : UInt16

/-- What `mtk_context_create` and a first connection begin with. -/
def ShortLink.init (id : UInt16) : ShortLink :=
  { rx := { id := id, p := fun _ => 0, size := 4096, length := 0 }
    spare := none
    nextId := id + 1 }

/-- A connection on the DATA channel: how many requests are written on it before it is read,
and what it receives. -/
structure Connection where
  requests : Nat
  socket : Socket.Stream UInt8

/-- What a connection came to: the code of its read, what the receive buffer had in it when
the read began, what was received and when a header was read, and the calls of the `RECEIVE`
callback. -/
structure Served where
  ret : ErrType
  left : Int
  received : Nat
  headers : List Nat
  calls : List (List UInt8)

namespace ShortLink

/-- `mtk_service_connect` after `handle_read`. -/
def serviceConnect (s : ShortLink) (ret : ErrType) : ShortLink :=
  if ret ≠ .etOk then s else { s with rx := s.rx.clear }

/-- The spare buffer in `mtk_connect_release`. -/
def release (s : ShortLink) : ShortLink := { s with spare := none }

/-- Requests that are written: each is an event of its own, served by `mtk_service_connect`
with `mtk_handle_write_event`. -/
def write (s : ShortLink) : Nat → ShortLink
  | 0 => s
  | n + 1 => (s.serviceConnect .etOk).write n

/-- `short_link_read` begins. -/
def reading (s : ShortLink) (socket : Socket.Stream UInt8) : Reading where
  rx := s.rx
  spare := s.spare
  nextId := s.nextId
  inSpare := false
  needRead := s.rx.remain
  socket := socket
  received := 0
  headers := []

/-- A connection, from its requests to its release.  A read that went well releases it, since
no connection of the channel is kept alive; after any other `mtk_service_run` does. -/
def serve (s : ShortLink) (c : Connection) : Option (ShortLink × Served) :=
  let s := s.write c.requests
  (readLoop (c.socket.left.length + 1) (s.reading c.socket)).map fun q =>
    let r := q.2.2
    let s' : ShortLink := { rx := r.rx, spare := r.spare, nextId := r.nextId }
    (s'.release.serviceConnect q.1,
      { ret := q.1
        left := s.rx.length
        received := r.received
        headers := r.headers
        calls := q.2.1 })

end ShortLink

end Awoke.Mtk
