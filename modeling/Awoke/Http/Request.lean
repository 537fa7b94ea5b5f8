/-
Sending a request, `http_request_send` in `awoke_http.c`.

The request lies in one buffer.  The connection takes of a piece as much as it likes, and the loop
goes on until as many bytes were taken as there are.  Three variables count: the bytes taken so
far, the bytes the last call took, and where in the buffer the next piece begins, for which the
second of them is used.
-/
import Awoke.Http.Response

namespace Awoke.Http

/-- What `io->send` makes of its `k`-th call with `n` bytes: it takes some of them, or fails. -/
structure Sender where
  send : Nat → Nat → Option Nat
  le : ∀ k n r, send k n = some r → r ≤ n
  pos : ∀ k n r, send k n = some r → 0 < n → 0 < r
  nothing : ∀ k, send k 0 = some 0

/-- The bytes a call took: where they lie in the buffer, and how many. -/
structure Piece where
  offset : Nat
  count : Nat
  deriving DecidableEq

/-- What comes of sending: what is returned, and the pieces that were taken. -/
structure Sending where
  ret : ErrType
  accepted : List Piece
  deriving DecidableEq

/-- `max_send`. -/
def maxSend (length sendTotal : Nat) : Nat :=
  if length - sendTotal > bufferChunk then bufferChunk else length - sendTotal

/-- `http_reqeust_send_finish`. -/
def requestSendFinish (length sendTotal : Nat) : Bool := length == sendTotal

/-- The `do` loop of `http_request_send`, at most `fuel` turns of it. -/
def sendLoop (c : Sender) (length : Nat) : Nat → Nat → Nat → Nat → Option Sending
  | 0, _, _, _ => none
  | fuel + 1, k, sendTotal, sendSize =>
      match c.send k (maxSend length sendTotal) with
      | none => some { ret := .etSockSend, accepted := [] }
      | some taken =>
          let piece : Piece := { offset := sendSize, count := taken }
          if requestSendFinish length (sendTotal + taken) then
            some { ret := .etOk, accepted := [piece] }
          else
            (sendLoop c length fuel (k + 1) (sendTotal + taken) taken).map fun s =>
              { s with accepted := piece :: s.accepted }

/-- `http_request_send` of a request of `length` bytes. -/
def requestSend (c : Sender) (length fuel : Nat) : Option Sending := sendLoop c length fuel 0 0 0

namespace Sending

/-- How many bytes were taken. -/
def total (s : Sending) : Nat := (s.accepted.map Piece.count).sum

/-- Where in the buffer they lie, in order. -/
def positions (s : Sending) : List Nat := s.accepted.flatMap fun p => List.range' p.offset p.count

/-- What they are. -/
def bytes (buff : List UInt8) (s : Sending) : List UInt8 :=
  s.accepted.flatMap fun p => (buff.drop p.offset).take p.count

end Sending

end Awoke.Http
