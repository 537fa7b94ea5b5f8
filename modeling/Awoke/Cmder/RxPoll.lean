/-
Receiving, `tcp_rxpoll` and `uart_rxpoll` in `cmder.c`.

A poll appends what it receives to the transceiver's buffer and then goes through
the registered protocols: one that matches reads a message from the front, one that
scans skips to where a message may start, and if none does either the buffer is
cleared.  `poll_repeat` is the label both functions jump back to, with the count `c`
of the bytes just received still in its variable.

A poll is cut into steps there: `begin` is all before the label, `pass` is one turn
from it.  Between two steps a transceiver is `idle`, with no poll under way, or
`polling`, at the label.

A `read` may have no result where it crashes.  One that returns another code than `et_ok`
is logged with "proto %s read error:%d", which is given the code alone: it is taken for the
name, and the program has `crashed` as well.

A protocol sees the buffer but does not write to it.  Whatever else its callbacks
read and change is the state `σ`.
-/
import Awoke.Util.Buffer

namespace Awoke.Cmder

variable {σ : Type}

/-- The callbacks of a `struct cmder_protocol`.  `match` and `scan` are given the
buffer, its length and what the caller's `rlen` holds, and return what it holds after;
one that does not write `rlen` returns it as it was.  `read` is given a message and its
length. -/
structure Protocol (σ : Type) where
  match_ : σ → Cells UInt8 → Int → Int → ErrType × Int × σ
  scan : σ → Cells UInt8 → Int → Int → ErrType × Int × σ
  read : σ → Cells UInt8 → Int → Option (ErrType × σ)

/-- What there is to receive: nothing, a connection to accept, or bytes. -/
inductive Ready
  | nothing
  | accept
  | data (bs : List UInt8)

/-- What one turn of the two `list_foreach` loops comes to.  The counts are `rlen`.  A message is
`matched` when it is read with `et_ok`, and `failed` when it is not. -/
inductive Verdict
  | matched (n : Int)
  | failed (n : Int)
  | incomplete
  | paramError (n : Int)
  | scanned (n : Int)
  | none

/-- The `list_foreach` over `match`; `none` when it runs to its end. -/
def matchLoop (p : Cells UInt8) (length : Int) :
    List (Protocol σ) → σ → Int → Option Verdict × σ × Int
  | [], env, rlen => (Option.none, env, rlen)
  | proto :: protos, env, rlen =>
      let r := proto.match_ env p length rlen
      if r.1 = .etOk ∧ r.2.1 ≠ 0 then
        match proto.read r.2.2 p r.2.1 with
        | some (.etOk, env) => (some (.matched r.2.1), env, r.2.1)
        | _ => (some (.failed r.2.1), r.2.2, r.2.1)
      else if r.1 = .errIncomplete then (some .incomplete, r.2.2, r.2.1)
      else if r.1 = .errParam ∧ r.2.1 ≠ 0 then (some (.paramError r.2.1), r.2.2, r.2.1)
      else matchLoop p length protos r.2.2 r.2.1

/-- The `list_foreach` over `scan`. -/
def scanLoop (p : Cells UInt8) (length : Int) : List (Protocol σ) → σ → Int → Verdict × σ × Int
  | [], env, rlen => (.none, env, rlen)
  | proto :: protos, env, rlen =>
      let r := proto.scan env p length rlen
      if r.1 = .errMatch then scanLoop p length protos r.2.2 r.2.1
      else if r.2.1 ≠ 0 then (.scanned r.2.1, r.2.2, r.2.1)
      else scanLoop p length protos r.2.2 r.2.1

/-- Both loops, the second only when the first comes to nothing. -/
def examine (protos : List (Protocol σ)) (p : Cells UInt8) (length : Int) (env : σ) (rlen : Int) :
    Verdict × σ × Int :=
  match matchLoop p length protos env rlen with
  | (some v, env, rlen) => (v, env, rlen)
  | (Option.none, env, rlen) => scanLoop p length protos env rlen

/-- The two pollers differ in what comes before the read, and in what follows a match
that leaves bytes behind. -/
inductive Poller
  | tcp
  | uart
  deriving DecidableEq

/-- A poll at `poll_repeat`. -/
structure Polling (σ : Type) where
  poller : Poller
  buffer : Buffchunk
  env : σ
  c : Int
  rlen : Int

/-- A transceiver between two steps. -/
inductive Tcvr (σ : Type)
  | idle (buffer : Buffchunk) (env : σ)
  | polling (s : Polling σ)
  | crashed (buffer : Buffchunk) (env : σ)

/-- What a step does to the outside: how many bytes it receives, how many it takes out
of the buffer, the message it hands to a protocol's `read`, and the code the poll
returns if the step ends it. -/
structure Traffic where
  received : Int := 0
  consumed : Int := 0
  read : Option (List UInt8) := Option.none
  ret : Option ErrType := Option.none

/-- `recv` or `read` puts `bs` behind the bytes in the buffer.  A count below zero is
taken for zero everywhere. -/
def receive (poller : Poller) (buffer : Buffchunk) (env : σ) (bs : List UInt8) (rlen : Int) :
    Tcvr σ × Traffic :=
  let buffer := { buffer with p := Cells.write buffer.p buffer.length bs }
  (.polling { poller := poller, buffer := buffer, env := env, c := bs.length, rlen := rlen },
    { received := bs.length })

/-- A poll up to `poll_repeat`.  `rlen` is what its uninitialised variable holds.
`tcp_rxpoll` asks `select` first, `uart_rxpoll` reads at once. -/
def begin (poller : Poller) (buffer : Buffchunk) (env : σ) (ready : Ready) (rlen : Int) :
    Tcvr σ × Traffic :=
  match ready with
  | .data bs => receive poller buffer env bs rlen
  | .nothing | .accept =>
      if poller = .tcp then (.idle buffer env, { ret := some .etOk })
      else receive poller buffer env [] rlen

/-- The buffer with `c` added to its length, as each turn from `poll_repeat` does. -/
def Polling.entered (s : Polling σ) : Buffchunk :=
  if s.c > 0 then { s.buffer with length := s.buffer.length + s.c } else s.buffer

/-- `goto poll_repeat`: the poll goes on with another buffer, and with the same `c`. -/
def Polling.goto (s : Polling σ) (buffer : Buffchunk) (env : σ) (rlen : Int) : Tcvr σ :=
  .polling { s with buffer := buffer, env := env, rlen := rlen }

/-- One turn from `poll_repeat` to the next or to a `return`. -/
def pass (protos : List (Protocol σ)) (s : Polling σ) : Tcvr σ × Traffic :=
  if s.c > 0 ∨ s.buffer.length ≠ 0 then
    let buffer := s.entered
    let (v, env, rlen) := examine protos buffer.p buffer.length s.env s.rlen
    match v with
    | .matched n =>
        let rest := buffer.backoff n
        let message := Cells.slice buffer.p 0 n.toNat
        if rest.length = 0 then
          (.idle rest env, { consumed := n, read := some message, ret := some .etOk })
        else if s.poller = .tcp then
          (s.goto rest env rlen, { consumed := n, read := some message })
        else (.idle rest env, { consumed := n, read := some message, ret := some .etUnfinished })
    | .failed n =>
        (.crashed buffer env, { read := some (Cells.slice buffer.p 0 n.toNat) })
    | .incomplete => (.idle buffer env, { ret := some .errIncomplete })
    | .paramError n => (.idle (buffer.backoff n) env, { consumed := n, ret := some .etOk })
    | .scanned n =>
        let rest := buffer.backoff n
        if rest.length = 0 then (s.goto rest env rlen, { consumed := n })
        else (.idle rest env, { consumed := n, ret := some .etUnfinished })
    | .none => (.idle buffer.clear env, { consumed := buffer.length, ret := some .etOk })
  else (.idle s.buffer s.env, { ret := some .etOk })

/-- What drives a transceiver: a call of one of the pollers when none is under way, and
a turn of the one that is.  Out of turn, and after a crash, neither does anything. -/
inductive Input
  | call (poller : Poller) (ready : Ready) (rlen : Int)
  | turn

/-- One step of a transceiver. -/
def step (protos : List (Protocol σ)) : Tcvr σ → Input → Tcvr σ × Traffic
  | .idle buffer env, .call poller ready rlen => begin poller buffer env ready rlen
  | .polling s, .turn => pass protos s
  | t, _ => (t, {})

/-- A whole poll: turns until it returns, at most `fuel` of them, with the messages it
hands to `read`.  One that crashes has no result. -/
def finish (protos : List (Protocol σ)) :
    Nat → Tcvr σ → Option ((Buffchunk × σ) × List (List UInt8))
  | _, .idle buffer env => some ((buffer, env), [])
  | _, .crashed _ _ => Option.none
  | 0, .polling _ => Option.none
  | fuel + 1, .polling s =>
      let r := pass protos s
      (finish protos fuel r.1).map fun q => (q.1, r.2.read.toList ++ q.2)

/-- `tcp_rxpoll`. -/
def tcpRxpoll (protos : List (Protocol σ)) (fuel : Nat) (t : Buffchunk × σ)
    (call : Ready × Int) : Option ((Buffchunk × σ) × List (List UInt8)) :=
  finish protos fuel (begin .tcp t.1 t.2 call.1 call.2).1

end Awoke.Cmder
