/-
Messages of the router, `awoke_rtmsg.c`.

A message is a header and as many bytes as the header says.  The header is read in one piece or
not at all; the bytes behind it are read piece by piece.  Memory is there when it is asked for.

What arrives is given as a socket.  When there is a timeout, so many waits are in time and the
next one is not.  The end of the stream, closed or broken, has arrived when all bytes are read, and
`select` returns at once there: a wait at the end never times out.
-/
import Awoke.Error
import Awoke.Lib.Socket

namespace Awoke.Rtmsg

open Socket (Stream)

/-- `sizeof(rtmsg_header)`. -/
def headerSize : Nat := 40

/-- `header->data_len`, the word at offset 24. -/
def dataLen (header : List UInt8) : Nat :=
  (header.getD 24 0).toNat + (header.getD 25 0).toNat * 2 ^ 8 +
    (header.getD 26 0).toNat * 2 ^ 16 + (header.getD 27 0).toNat * 2 ^ 24

/-- A `rtmsg_header` with what follows it in memory. -/
structure Message where
  header : List UInt8
  data : List UInt8
  header_length : header.length = headerSize
  data_length : data.length = dataLen header

/-- The bytes that `rt_message_send` writes. -/
def Message.bytes (m : Message) : List UInt8 := m.header ++ m.data

/-- What the calls that a receiver makes depend on: how many waits are in time, if there is a
timeout, and `errno` after a failed `read`. -/
structure Env where
  waits : Option Nat
  errno : Nat

/-- The most that one `read` returns. -/
def maxRwCount : Nat := 0x7ffff000

/-- `read`. -/
def read (fd : Stream UInt8) (count : Nat) : Socket.Recv UInt8 × Stream UInt8 :=
  fd.recv (min count maxRwCount)

/-- `rt_message_wait_data`, if there is a timeout, with the waits that are left. -/
def rtMessageWaitData (fd : Stream UInt8) (waits : Option Nat) : ErrType × Option Nat :=
  match waits with
  | none => (.etOk, none)
  | some w =>
      if fd.segments.isEmpty then (.etOk, some w)
      else
        match w with
        | 0 => (.etSockRecv, some 0)
        | w + 1 => (.etOk, some w)

/-- The loop of `rt_message_recv`, with the bytes read so far. -/
def recvLoop (dataLen : Nat) : Nat → Stream UInt8 → Option Nat → List UInt8 →
    Option ((ErrType × List UInt8) × Stream UInt8)
  | 0, _, _, _ => none
  | fuel + 1, fd, waits, data =>
      let wait := rtMessageWaitData fd waits
      if wait.1 ≠ .etOk then some ((wait.1, data), fd)
      else
        let rc := read fd (dataLen - data.length)
        match rc.1 with
        | .failed => some ((.etSockRecv, data), rc.2)
        | .closed =>
            if data.length < dataLen then recvLoop dataLen fuel rc.2 wait.2 data
            else some ((.etOk, data), rc.2)
        | .bytes bs =>
            if (data ++ bs).length < dataLen then recvLoop dataLen fuel rc.2 wait.2 (data ++ bs)
            else some ((.etOk, data ++ bs), rc.2)

/-- `rt_message_recv`: the code and `*buff`, and what still arrives. -/
def rtMessageRecv (fuel : Nat) (fd : Stream UInt8) (env : Env) :
    Option ((ErrType × Option (List UInt8)) × Stream UInt8) :=
  let wait := rtMessageWaitData fd env.waits
  if wait.1 ≠ .etOk then some ((wait.1, none), fd)
  else
    let rc := read fd headerSize
    match rc.1 with
    | .closed => some ((.etSockConn, none), rc.2)
    | .failed => some ((if env.errno = 131 then .etSockConn else .etSockRecv, none), rc.2)
    | .bytes header =>
        if header.length ≠ headerSize then some ((.etSockRecv, none), rc.2)
        else if 0 < dataLen header then
          (recvLoop (dataLen header) fuel rc.2 wait.2 []).map fun r =>
            ((r.1.1, if r.1.1 = .etOk then some (header ++ r.1.2) else none), r.2)
        else some ((.etOk, some header), rc.2)

end Awoke.Rtmsg
