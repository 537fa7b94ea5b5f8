/-
What a reply is made of: names, questions and records, and the bytes they are sent as.

A name is its labels, each with its length in front, and an end: the empty label, or a reference
to the place where the name goes on.
-/
import Awoke.Util.Package

namespace Awoke.Dns

/-- A label of a name. -/
structure Label where
  text : List UInt8
  pos : 1 ≤ text.length
  short : text.length ≤ 63

/-- How a name ends. -/
inductive NameEnd
  | root
  | reference (offset : Fin (2 ^ 14))
  deriving DecidableEq

/-- A name as it is sent. -/
structure EncodedName where
  labels : List Label
  tail : NameEnd

/-- A question. -/
structure Question where
  name : EncodedName
  type : UInt16
  class_ : UInt16

/-- A resource record. -/
structure Record where
  name : EncodedName
  type : UInt16
  class_ : UInt16
  ttl : UInt32
  data : List UInt8
  short : data.length < 2 ^ 16

/-- A reply; behind the answers there may be more of it. -/
structure Reply where
  transactionId : UInt16
  flags : UInt16
  authorityRRs : UInt16
  additionalRRs : UInt16
  questions : List Question
  answers : List Record
  more : List UInt8
  fewQuestions : questions.length < 2 ^ 16
  fewAnswers : answers.length < 2 ^ 16

/-! ### Bytes -/

/-- The length of a label and its bytes. -/
def Label.wire (l : Label) : List UInt8 := UInt8.ofNat l.text.length :: l.text

def NameEnd.wire : NameEnd → List UInt8
  | .root => [0]
  | .reference offset => [UInt8.ofNat (0xc0 + offset / 256), UInt8.ofNat (offset % 256)]

def EncodedName.wire (n : EncodedName) : List UInt8 := n.labels.flatMap Label.wire ++ n.tail.wire

/-- What is behind the name of a question. -/
def Question.fixed (q : Question) : List UInt8 := pushHtons q.type ++ pushHtons q.class_

/-- What is between the name of a record and its data. -/
def Record.fixed (rr : Record) : List UInt8 :=
  pushHtons rr.type ++ pushHtons rr.class_ ++ pushHtonl rr.ttl ++
    pushHtons (UInt16.ofNat rr.data.length)

namespace Reply

variable (r : Reply)

def header : List UInt8 :=
  pushHtons r.transactionId ++ pushHtons r.flags ++
    pushHtons (UInt16.ofNat r.questions.length) ++ pushHtons (UInt16.ofNat r.answers.length) ++
    pushHtons r.authorityRRs ++ pushHtons r.additionalRRs

/-- The questions and the answers, each as its name and what is behind it. -/
def parts : List (EncodedName × List UInt8) :=
  r.questions.map (fun q => (q.name, q.fixed)) ++
    r.answers.map (fun rr => (rr.name, rr.fixed ++ rr.data))

end Reply

/-- Names with something behind each. -/
def wireParts (parts : List (EncodedName × List UInt8)) : List UInt8 :=
  parts.flatMap fun part => part.1.wire ++ part.2

def Reply.wire (r : Reply) : List UInt8 := r.header ++ wireParts r.parts ++ r.more

end Awoke.Dns
