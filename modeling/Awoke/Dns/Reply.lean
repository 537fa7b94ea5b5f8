/-
What the resolver does with a reply, `dns_parse_reply` and `dns_table_update` in `dns_test.c`,
and how it looks a name up.

The reply lies in a buffer that the received bytes are only the front of, and nothing hands
their number on.  The functions run here until they touch something that is not theirs: a byte
that was not received, a record of `answer` that is not there, or more of an address than it
holds; then the fault is what they result in.

`question` is left out: `dns_parse_reply` takes the address of its records and never goes
through it.
-/
import Awoke.Error
import Awoke.Util.Package

namespace Awoke.Dns

/-- `DNS_REQUEST_LEN`. -/
def dnsRequestLen : Nat := 512

/-- `DNS_RR_NR`. -/
def dnsRrNr : Nat := 5

/-- `DNS_NAME_SIZE`. -/
def dnsNameSize : Nat := 255

/-- `DNS_NAME_OFFSET`. -/
def dnsNameOffset : UInt8 := 0xc0

/-- `DNS_TYPE_IPV4`. -/
def dnsTypeIpv4 : UInt16 := 1

/-- `original_buf`, and how many bytes `recvfrom` put there. -/
structure Datagram where
  buf : Cells UInt8
  rc : Nat
  fits : rc ≤ dnsRequestLen

/-- What is touched and should not be: a byte at or behind the received ones, an answer that
is none of the five, an address of four bytes that gets more. -/
inductive DnsFault
  | byte (pos : Nat)
  | answer (index : Int)
  | address (len : Nat)
  deriving DecidableEq, Repr

/-- `struct _dns_header`. -/
structure DnsHeader where
  transactionId : UInt16
  flags : UInt16
  questions : UInt16
  answersRRs : UInt16
  authorityRRs : UInt16
  additionalRRs : UInt16

/-- `struct _dns_rr`; `data` is as much of the field as was ever written. -/
structure DnsRr where
  type : UInt16
  class_ : UInt16
  ttl : UInt32
  rdatalen : UInt16
  data : List UInt8

/-- `struct _dns_request`, as far as a reply goes into it: the one host, the answers, and the
index of the first that is an address. -/
structure DnsRequest where
  host : List UInt8
  header : DnsHeader
  answer : Fin dnsRrNr → DnsRr
  addrValid : Int

/-- `struct _dns_entry`. -/
structure DnsEntry where
  hostname : List UInt8
  ipaddr : List UInt8
  deriving DecidableEq

/-! ### Reading -/

namespace Datagram

variable (d : Datagram)

/-- `n` bytes are read at `pos`. -/
def look (pos n : Nat) : Except DnsFault Unit :=
  if pos + n ≤ d.rc then .ok () else .error (.byte (max pos d.rc))

/-- `pkg_pull_word`, and the position behind. -/
def word (pos : Nat) : Except DnsFault (UInt16 × Nat) := do
  d.look pos 2
  return (pullWord d.buf pos, pos + 2)

/-- `pkg_pull_dwrd`, and the position behind. -/
def dwrd (pos : Nat) : Except DnsFault (UInt32 × Nat) := do
  d.look pos 4
  return (pullDwrd d.buf pos, pos + 4)

/-- The `while` loop of `skip_name_field` and the step behind it. -/
def skipLabels (pos : Nat) : Except DnsFault Nat :=
  if pos < d.rc then
    if d.buf pos = 0 then .ok (pos + 1) else skipLabels (pos + (d.buf pos).toNat + 1)
  else .error (.byte pos)
termination_by d.rc - pos

/-- `skip_name_field`. -/
def skipNameField (pos : Nat) : Except DnsFault Nat := do
  d.look pos 1
  if d.buf pos &&& dnsNameOffset = dnsNameOffset then return pos + 2 else d.skipLabels pos

/-! ### Parsing -/

/-- The header, in the host's order. -/
def parseHeader : Except DnsFault (DnsHeader × Nat) := do
  let (transactionId, pos) ← d.word 0
  let (flags, pos) ← d.word pos
  let (questions, pos) ← d.word pos
  let (answersRRs, pos) ← d.word pos
  let (authorityRRs, pos) ← d.word pos
  let (additionalRRs, pos) ← d.word pos
  return ({ transactionId := htons transactionId
            flags := htons flags
            questions := htons questions
            answersRRs := htons answersRRs
            authorityRRs := htons authorityRRs
            additionalRRs := htons additionalRRs }, pos)

/-- The loop over the questions, with `n` to go: a name, and a type and a class behind it. -/
def skipQuestions : Nat → Nat → Except DnsFault Nat
  | 0, pos => .ok pos
  | n + 1, pos => do
      let pos ← d.skipNameField pos
      skipQuestions n (pos + 4)

end Datagram

/-- `&req->message.answer[index]`, to be gone through. -/
def answerSlot (index : Int) : Except DnsFault (Fin dnsRrNr) :=
  if h : 0 ≤ index ∧ index < dnsRrNr then .ok ⟨index.toNat, by omega⟩ else .error (.answer index)

namespace Datagram

variable (d : Datagram)

/-- The fixed part of an answer, in the host's order. -/
def parseFixed (answer : DnsRr) (pos : Nat) : Except DnsFault (DnsRr × Nat) := do
  let (type, pos) ← d.word pos
  let (class_, pos) ← d.word pos
  let (ttl, pos) ← d.dwrd pos
  let (rdatalen, pos) ← d.word pos
  return ({ answer with
    type := htons type
    class_ := htons class_
    ttl := htonl ttl
    rdatalen := htons rdatalen }, pos)

/-- One turn of the loop over the answers. -/
def parseAnswer (i : Nat) (req : DnsRequest) (pos : Nat) :
    Except DnsFault (DnsRequest × Nat) := do
  let pos ← d.skipNameField pos
  let k ← answerSlot i
  let (answer, pos) ← d.parseFixed (req.answer k) pos
  if answer.type = dnsTypeIpv4 ∧ answer.rdatalen = 4 then
    d.look pos 4
    return ({ req with
      answer := Function.update req.answer k { answer with data := Cells.slice d.buf pos 4 }
      addrValid := if req.addrValid = -1 then i else req.addrValid }, pos + 4)
  else
    return ({ req with answer := Function.update req.answer k answer },
      pos + answer.rdatalen.toNat)

/-- The loop over the answers, at index `i` with `n` to go. -/
def parseAnswers : Nat → Nat → DnsRequest → Nat → Except DnsFault DnsRequest
  | 0, _, req, _ => .ok req
  | n + 1, i, req, pos => do
      let (req, pos) ← d.parseAnswer i req pos
      parseAnswers n (i + 1) req pos

/-- `dns_parse_reply`, which always returns `et_ok`. -/
def parseReply (req : DnsRequest) : Except DnsFault DnsRequest := do
  let (header, pos) ← d.parseHeader
  let pos ← d.skipQuestions header.questions.toNat pos
  d.parseAnswers header.answersRRs.toNat 0 { req with header := header } pos

end Datagram

/-! ### The table -/

/-- The entry of the table that the host begins the name of gets the address. -/
def renewEntry (host addr : List UInt8) : List DnsEntry → Option (List DnsEntry)
  | [] => none
  | e :: es =>
      if e.hostname.take host.length = host then
        some ((if addr = e.ipaddr then e else { e with ipaddr := addr }) :: es)
      else (renewEntry host addr es).map fun es => e :: es

/-- `dns_table_update`; `addr1` is what its local of that name holds before it is written. -/
def tableUpdate (req : DnsRequest) (addr1 : List UInt8) (table : List DnsEntry) :
    Except DnsFault (ErrType × List DnsEntry) := do
  let k ← answerSlot req.addrValid
  let answer := req.answer k
  let len := answer.rdatalen.toNat
  if 4 < len then throw (.address len)
  match renewEntry req.host (answer.data.take len ++ addr1.drop len) table with
  | some table => return (.etOk, table)
  | none =>
      let new : DnsEntry :=
        { hostname := req.host
          ipaddr := answer.data.take len ++ List.replicate (4 - len) 0 }
      return (.etOk, new :: table)

/-- `dns_table_lookup`, and what `ipaddr` holds behind it. -/
def tableLookup (hostname ipaddr : List UInt8) : List DnsEntry → ErrType × List UInt8
  | [] => (.etExist, ipaddr)
  | e :: es =>
      if e.hostname = hostname then (.etOk, e.ipaddr.take 4 ++ ipaddr.drop 4)
      else tableLookup hostname ipaddr es

/-- A request whose memory is zero. -/
def DnsRequest.fresh (host : List UInt8) : DnsRequest :=
  { host := host
    header := ⟨0, 0, 0, 0, 0, 0⟩
    answer := fun _ => ⟨0, 0, 0, 0, []⟩
    addrValid := -1 }

/-- `dns_server_request` from `recvfrom` on. -/
def serverRequest (host addr1 : List UInt8) (table : List DnsEntry) (d : Datagram) :
    Except DnsFault (ErrType × List DnsEntry) := do
  let req ← d.parseReply (.fresh host)
  if 0 < req.header.answersRRs.toNat then tableUpdate req addr1 table
  else return (.etOk, table)

end Awoke.Dns
