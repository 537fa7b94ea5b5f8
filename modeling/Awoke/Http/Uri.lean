/-
`uri_parse`, in `awoke_http.c`.

The string is given by its bytes, and `p` is an offset in it; to read at its end or behind it has
no result.  A turn of the outer loop is a function of its own for each state.
-/
import Awoke.Http.Response
import Awoke.Lib.Scan
import Awoke.Lib.WhileLoop

namespace Awoke.Http

open Scan (scanTo)

/-! ### Separators -/

/-- `':'`. -/
def colon : UInt8 := 58

/-- `'/'`. -/
def slash : UInt8 := 47

/-- `'@'`. -/
def atSign : UInt8 := 64

/-- `'['`. -/
def openBracket : UInt8 := 91

/-- `']'`. -/
def closeBracket : UInt8 := 93

/-- `'?'`. -/
def questionMark : UInt8 := 63

/-- `'#'`. -/
def numberSign : UInt8 := 35

/-- What a scheme or a plain host ends at. -/
def EndsName (b : UInt8) : Prop := b = colon ∨ b = slash

instance : DecidablePred EndsName := fun b => inferInstanceAs (Decidable (b = colon ∨ b = slash))

/-- What a user info ends at, if it is one or not. -/
def EndsUser (b : UInt8) : Prop := b = atSign ∨ b = openBracket ∨ b = slash

instance : DecidablePred EndsUser := fun b =>
  inferInstanceAs (Decidable (b = atSign ∨ b = openBracket ∨ b = slash))

/-! ### The scan -/

/-- `mem_ptr_t` into the string. -/
structure Span where
  p : Nat
  len : Nat
  deriving DecidableEq, Repr

/-- From one pointer to a later one. -/
def Span.between (head tail : Nat) : Span := { p := head, len := tail - head }

/-- What `uri_parse` gives; `none` is `mem_ptr_none`. -/
structure UriParts where
  scheme : Option Span
  user : Option Span
  host : Option Span
  port : BitVec 32
  path : Option Span
  query : Option Span
  fragment : Option Span
  deriving DecidableEq, Repr

/-- The states of `uri_parse`. -/
inductive UriState
  | start
  | schemeOrPort
  | userInfo
  | host
  | port
  | rest
  deriving DecidableEq, Repr

/-- The local variables of `uri_parse`. -/
structure UriScan extends UriParts where
  state : UriState
  p : Nat
  deriving DecidableEq, Repr

/-- What the local variables are at first. -/
def UriScan.init : UriScan where
  scheme := none
  user := none
  host := none
  port := 0
  path := none
  query := none
  fragment := none
  state := .start
  p := 0

/-- `parse_uri_component`, with where it leaves `p`. -/
def parseUriComponent (s : List UInt8) (p : Nat) (seps : List UInt8) : Span × Nat :=
  let q := scanTo s (fun b => b ∈ seps) p
  (.between p q, if q < s.length then q + 1 else q)

namespace UriScan

/-- A turn comes to the next one, or `uri_parse` returns. -/
abbrev Turn := WhileLoop.Turn UriScan (Option (Except ErrType UriParts))

/-- `P_START`. -/
def startTurn (s : List UInt8) (m : UriScan) : UriScan :=
  if s[m.p]? = some openBracket then { m with state := .host }
  else
    let p := scanTo s EndsName m.p
    let state : UriState :=
      if s[p]? = some colon then .schemeOrPort else if s[p]? = some slash then .rest else .start
    if state = .start ∨ state = .rest then { m with p, state, host := some (.between 0 p) }
    else { m with p, state }

/-- `P_SCHEME_OR_PORT`. -/
def schemeOrPortTurn (s : List UInt8) (m : UriScan) : UriScan :=
  if (ascii "://").isPrefixOf (s.drop m.p) then
    { m with scheme := some (.between 0 m.p), state := .userInfo, p := m.p + 3 }
  else { m with host := some (.between 0 m.p), state := .port }

/-- `P_USER_INFO`. -/
def userInfoTurn (s : List UInt8) (m : UriScan) : UriScan :=
  let q := scanTo s EndsUser m.p
  let p := if s.length ≤ q ∨ s[q]? = some slash ∨ s[q]? = some openBracket then m.p else q
  { m with user := some (.between m.p p), p, state := .host }

/-- The end of `P_HOST`, with `p` behind the host. -/
def hostEnd (s : List UInt8) (m : UriScan) : UriScan :=
  { m with state :=
      if s[m.p]? = some colon then .port else if s[m.p]? = some slash then .rest else m.state }

/-- Where a host begins in `P_HOST`: behind an `'@'`, if there is one. -/
def hostStart (s : List UInt8) (m : UriScan) : Nat :=
  if s[m.p]? = some atSign then m.p + 1 else m.p

/-- `P_HOST`. -/
def hostTurn (s : List UInt8) (m : UriScan) : Turn :=
  let p := hostStart s m
  match s[p]? with
  | none => .ret none
  | some b =>
      if b = openBracket then
        let q := scanTo s (fun b => b = closeBracket) p
        if q < s.length then
          .next (hostEnd s { m with host := some (.between p (q + 1)), p := q + 1 })
        else .ret (some (.error .etParam))
      else
        let q := scanTo s EndsName p
        .next (hostEnd s { m with host := some (.between p q), p := q })

/-- `rport` after one more digit; a `char` has a sign. -/
def portDigit (port : BitVec 32) (b : UInt8) : BitVec 32 :=
  port * 10 + (BitVec.ofInt 32 b.toInt8.toInt - 48)

/-- `P_PORT`. -/
def portTurn (s : List UInt8) (m : UriScan) : UriScan :=
  let q := scanTo s (fun b => b = slash) (m.p + 1)
  { m with
    port := ((s.drop (m.p + 1)).take (q - (m.p + 1))).foldl portDigit m.port
    state := if s[q]? = some slash then .rest else m.state
    p := q }

/-- `rquery` in `P_REST`, with `p` behind the path and the sign that ends it. -/
def restQuery (s : List UInt8) (query : Option Span) (p : Nat) : Option Span × Nat :=
  if p < s.length ∧ s[p - 1]? = some questionMark then
    let component := parseUriComponent s p [numberSign]
    (some component.1, component.2)
  else (query, p)

/-- `P_REST`. -/
def restTurn (s : List UInt8) (m : UriScan) : UriScan :=
  let path := parseUriComponent s m.p [questionMark, numberSign]
  let query := restQuery s m.query path.2
  let fragment := parseUriComponent s query.2 []
  { m with path := some path.1, query := query.1, fragment := some fragment.1, p := fragment.2 }

/-- One turn of the loop. -/
def turn (s : List UInt8) (m : UriScan) : Turn :=
  match m.state with
  | .start => .next (startTurn s m)
  | .schemeOrPort => .next (schemeOrPortTurn s m)
  | .userInfo => .next (userInfoTurn s m)
  | .host => hostTurn s m
  | .port => .next (portTurn s m)
  | .rest => .next (restTurn s m)

end UriScan

/-- `uri_parse`, in so many turns at most.  The inner `none` is a read that is not inside. -/
def uriParse (n : Nat) (s : List UInt8) : Option (Option (Except ErrType UriParts)) :=
  WhileLoop.run (fun m => m.p < s.length) (UriScan.turn s) (fun m => some (.ok m.toUriParts)) n
    .init

end Awoke.Http
