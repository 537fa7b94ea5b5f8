/-
What a response is that says how long its body is.

A status line, some header fields, a blank line, and the body.  The name of a field is a
token, and white space may stand before and after its value or not.  One of the fields is a
`Content-Length`, in whatever letters, and each that is there has the length of the body in
decimal digits.
-/
import Awoke.Http.Response

namespace Awoke.Http

/-- A space or a tab. -/
def isBlank (b : UInt8) : Bool := b == 32 || b == 9

/-- What a token is made of. -/
def isToken (b : UInt8) : Bool :=
  CString.isDigit b || (65 ≤ b && b ≤ 90) || (97 ≤ b && b ≤ 122) || b == 39 || b == 96 ||
    (ascii "!#$%&*+-.^_|~").contains b

/-- What a value or a reason is made of. -/
def isVisible (b : UInt8) : Bool := b == 9 || (32 ≤ b && b != 127)

/-- A letter in lower case. -/
def toLower (b : UInt8) : UInt8 := if 65 ≤ b && b ≤ 90 then b + 32 else b

/-- The first line of a response. -/
structure StatusLine where
  major : UInt8
  minor : UInt8
  code : List UInt8
  reason : List UInt8
  major_ok : CString.isDigit major
  minor_ok : CString.isDigit minor
  code_length : code.length = 3
  code_ok : ∀ b ∈ code, CString.isDigit b
  reason_ok : ∀ b ∈ reason, isVisible b

/-- The line itself. -/
def StatusLine.line (s : StatusLine) : List UInt8 :=
  ascii "HTTP/" ++ [s.major] ++ ascii "." ++ [s.minor] ++ ascii " " ++ s.code ++ ascii " " ++
    s.reason

/-- A header field. -/
structure Field where
  name : List UInt8
  before : List UInt8
  value : List UInt8
  after : List UInt8
  name_ne : name ≠ []
  name_ok : ∀ b ∈ name, isToken b
  before_ok : ∀ b ∈ before, isBlank b
  value_ok : ∀ b ∈ value, isVisible b
  after_ok : ∀ b ∈ after, isBlank b

/-- The line itself. -/
def Field.line (f : Field) : List UInt8 := f.name ++ ascii ":" ++ f.before ++ f.value ++ f.after

/-- A field that says how long the body is. -/
def Field.IsContentLength (f : Field) : Prop := f.name.map toLower = ascii "content-length"

/-- It is this long, the field says. -/
def Field.Gives (f : Field) (n : Nat) : Prop :=
  f.value ≠ [] ∧ (∀ b ∈ f.value, CString.isDigit b) ∧ CString.decimal f.value = n

/-- A response with a `Content-Length`. -/
structure Message where
  status : StatusLine
  fields : List Field
  body : List UInt8
  counted : ∃ f ∈ fields, f.IsContentLength
  given : ∀ f ∈ fields, f.IsContentLength → f.Gives body.length

namespace Message

/-- The lines of the head. -/
def lines (m : Message) : List (List UInt8) := m.status.line :: m.fields.map Field.line

/-- The head, with the blank line at its end. -/
def head (m : Message) : List UInt8 := m.lines.flatMap (· ++ crlf) ++ crlf

/-- The response as it is sent. -/
def bytes (m : Message) : List UInt8 := m.head ++ m.body

end Message

end Awoke.Http
