/-
How a query is packed, `dns_request_hostname_add` and `dns_request_package` in `dns_test.c`.

The hosts are kept as a list, whose length is `host_nr`.  A host has its place in the `name` of a
question with a zero behind it; `name` is what the array holds, to its last byte.
-/
import Awoke.Dns.Reply
import Awoke.Ry.Message

namespace Awoke.Dns

open Cells (Pen)
open Ry (pushSafe)

/-- `DNS_F_QUERY`. -/
def dnsFQuery : UInt16 := 0x0100

/-- `DNS_ONE_QUESTION`. -/
def dnsOneQuestion : UInt16 := 1

/-- `DNS_CLASS`. -/
def dnsClass : UInt16 := 1

/-- `DNS_T_A`. -/
def dnsTA : UInt16 := 1

/-- `struct _dns_rr`, as far as a question goes into it. -/
structure DnsQuestion where
  name : List UInt8
  type : UInt16
  class_ : UInt16

/-- `struct _dns_request`, as far as a query is packed in it. -/
structure DnsQuery where
  host : List (List UInt8)
  header : DnsHeader
  question : List DnsQuestion
  usRecordType : UInt16
  usClass : UInt16
  originalLen : Int
  originalBuf : Cells UInt8

/-- A query whose memory is zero. -/
def DnsQuery.fresh : DnsQuery :=
  { host := []
    header := ⟨0, 0, 0, 0, 0, 0⟩
    question := List.replicate dnsRrNr ⟨List.replicate dnsNameSize 0, 0, 0⟩
    usRecordType := 0
    usClass := 0
    originalLen := 0
    originalBuf := fun _ => 0 }

/-- `dns_request_hostname_add`. -/
def requestHostnameAdd (req : DnsQuery) (hostname : List UInt8) : DnsQuery :=
  if dnsRrNr ≤ req.host.length then req else { req with host := req.host ++ [hostname] }

/-- `dns_request_package_header`; the first is its static `transaction_id`. -/
def requestPackageHeader (transactionId : Int) (req : DnsQuery) : Int × DnsQuery :=
  (transactionId + 1, { req with
    header :=
      { transactionId := UInt16.ofInt (transactionId + 1)
        flags := htons dnsFQuery
        questions := htons dnsOneQuestion
        answersRRs := 0
        authorityRRs := 0
        additionalRRs := 0 } })

/-- One turn of the loop of `dns_request_package_question`. -/
def questionOf (host : List UInt8) (question : DnsQuestion) : DnsQuestion :=
  { name := host ++ question.name.drop host.length
    class_ := htons dnsClass
    type := htons dnsTA }

/-- `dns_request_package_question`, which leaves the questions behind the hosts as they are. -/
def requestPackageQuestion (req : DnsQuery) : DnsQuery :=
  { req with
    question := List.zipWith questionOf req.host req.question ++
      req.question.drop req.host.length }

/-! ### Pushing -/

/-- `strchr(name, '.')`, as an offset. -/
def strchrDot (name : List UInt8) : Option Nat := name.findIdx? fun c => c = 46

theorem strchrDot_lt {name : List UInt8} {p : Nat} (h : strchrDot name = some p) :
    p < name.length :=
  (List.findIdx?_eq_some_iff_getElem.mp h).1

/-- What is pushed of the string `name`, in the order of the pushes. -/
def labelPieces (name : List UInt8) : List (List UInt8) :=
  match h : strchrDot name with
  | some p =>
      let nlen := UInt8.ofNat p
      [nlen] :: name.take nlen.toNat :: labelPieces (name.drop (nlen.toNat + 1))
  | none =>
      let nlen := UInt8.ofNat name.length
      [[nlen], name.take nlen.toNat, [0]]
termination_by name.length
decreasing_by
  have := strchrDot_lt h
  rw [List.length_drop]
  omega

/-- The string in `name`. -/
def DnsQuestion.string (question : DnsQuestion) : List UInt8 := question.name.takeWhile (· ≠ 0)

def headerPieces (header : DnsHeader) : List (List UInt8) :=
  [pushWord header.transactionId, pushWord header.flags, pushWord header.questions,
    pushWord header.answersRRs, pushWord header.authorityRRs, pushWord header.additionalRRs]

/-- `dns_request_package`, with the static `transaction_id` of the header. -/
def requestPackage (transactionId : Int) (req : DnsQuery) : Int × DnsQuery :=
  let req := { req with usClass := htons dnsClass, usRecordType := htons dnsTypeIpv4 }
  let (transactionId, req) := requestPackageHeader transactionId req
  let req := requestPackageQuestion req
  let push := pushSafe dnsRequestLen
  let pen := (headerPieces req.header).foldl push ⟨req.originalBuf, 0⟩
  let pen := (req.question.take req.host.length).foldl
    (fun pen question => (labelPieces question.string).foldl push pen) pen
  let pen := [pushWord req.usRecordType, pushWord req.usClass].foldl push pen
  (transactionId, { req with originalBuf := pen.mem, originalLen := pen.pos })

end Awoke.Dns
