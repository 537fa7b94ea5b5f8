/-
What a format means.

A format is written from pieces, characters and directives, and each directive takes its arguments and
stands for a text.  The meaning is that of the language's own `printf`, for the directives the
formatter has.  There is none where the formatter does otherwise: at a precision that an argument
gives as a negative number, which the formatter takes for 0; at zeros of a precision in a number
that stands left; where there is no room for the digits.  There is none either at the least integer,
whose negation overflows, at a width that is one, and at a character or a string with a length.
-/
import Mathlib.Data.Nat.Digits.Defs
import Awoke.Util.Printf

namespace Awoke.Printf

/-! ### Numerals -/

/-- A number in a base, the highest digit first. -/
def numeral (uppercase : Bool) (base value : Nat) : List UInt8 :=
  if value = 0 then [48] else ((Nat.digits base value).map (digitChar uppercase)).reverse

/-! ### Directives -/

/-- A flag. -/
inductive Flag
  | zero
  | minus
  | plus
  | space
  deriving DecidableEq

/-- Its character. -/
def Flag.char : Flag → UInt8
  | .zero => chr '0'
  | .minus => chr '-'
  | .plus => chr '+'
  | .space => chr ' '

/-- A width; one that is written begins with no zero. -/
inductive Width
  | none
  | num (n : Nat) (pos : 0 < n) (fits : n < 2 ^ 32)
  | star

/-- How it is written. -/
def Width.shown : Width → List UInt8
  | .none => []
  | .num n _ _ => numeral false 10 n
  | .star => [chr '*']

/-- A precision; without a number it is 0. -/
inductive Precision
  | none
  | bare
  | num (n : Nat) (fits : n < 2 ^ 32)
  | star

/-- How it is written. -/
def Precision.shown : Precision → List UInt8
  | .none => []
  | .bare => [chr '.']
  | .num n _ => chr '.' :: numeral false 10 n
  | .star => [chr '.', chr '*']

/-- How long an integer is. -/
inductive Length
  | none
  | hh
  | h
  | l
  | ll
  | t
  | j
  | z
  deriving DecidableEq

/-- How it is written. -/
def Length.shown : Length → List UInt8
  | .none => []
  | .hh => [chr 'h', chr 'h']
  | .h => [chr 'h']
  | .l => [chr 'l']
  | .ll => [chr 'l', chr 'l']
  | .t => [chr 't']
  | .j => [chr 'j']
  | .z => [chr 'z']

/-- Whether an argument of 64 bits is taken. -/
def Length.Wide : Length → Prop
  | .none | .hh | .h => False
  | _ => True

instance : DecidablePred Length.Wide
  | .none | .hh | .h => instDecidableFalse
  | .l | .ll | .t | .j | .z => instDecidableTrue

/-- How many bits of it count. -/
def Length.bits : Length → Nat
  | .hh => 8
  | .h => 16
  | .none => 32
  | _ => 64

/-- What is converted: an integer that has a sign, one that has none, a character, a string, or the
percent sign. -/
inductive Conv
  | d
  | i
  | u
  | x
  | X
  | o
  | b
  | c
  | s
  | percent
  deriving DecidableEq

/-- Its character. -/
def Conv.char : Conv → UInt8
  | .d => chr 'd'
  | .i => chr 'i'
  | .u => chr 'u'
  | .x => chr 'x'
  | .X => chr 'X'
  | .o => chr 'o'
  | .b => chr 'b'
  | .c => chr 'c'
  | .s => chr 's'
  | .percent => chr '%'

/-- `%[flags][width][.precision][length]conv`. -/
structure Directive where
  flags : List Flag
  width : Width
  precision : Precision
  length : Length
  conv : Conv

/-- How it is written. -/
def Directive.shown (d : Directive) : List UInt8 :=
  chr '%' :: (d.flags.map Flag.char ++ (d.width.shown ++ (d.precision.shown ++
    (d.length.shown ++ [d.conv.char]))))

/-! ### Their meaning -/

/-- A text in a field: behind spaces, before them, or with zeros behind its sign. -/
def field (left zero : Bool) (width : Nat) (sign body : List UInt8) : List UInt8 :=
  let room := width - (sign.length + body.length)
  if left then sign ++ body ++ List.replicate room 32
  else if zero then sign ++ List.replicate room 48 ++ body
  else List.replicate room 32 ++ sign ++ body

/-- The digits of an integer; there are none for 0 if a precision is given. -/
def significant (uppercase : Bool) (base : Nat) (precision : Option Nat) (value : Nat) : List UInt8 :=
  if precision.isSome ∧ value = 0 then [] else numeral uppercase base value

/-- As many digits as the precision wants. -/
def body (precision : Option Nat) (digits : List UInt8) : List UInt8 :=
  List.replicate (precision.getD 0 - digits.length) 48 ++ digits

/-- What stands in front of an integer. -/
def sign (negative plus space : Bool) : List UInt8 :=
  if negative then [chr '-'] else if plus then [chr '+'] else if space then [32] else []

variable {δ : Type}

/-- The width an argument gives: if it is negative, its size, and the text stands left. -/
def Width.take : Width → List (Arg δ) → Option ((Bool × Nat) × List (Arg δ))
  | .none, va => some ((false, 0), va)
  | .num n _ _, va => some ((false, n), va)
  | .star, .int w :: va =>
      if w.toInt32.toInt = -2 ^ 31 then Option.none
      else some ((w.toInt32.toInt < 0, w.toInt32.toInt.natAbs), va)
  | .star, _ => Option.none

/-- The precision an argument gives, if it is not negative. -/
def Precision.take : Precision → List (Arg δ) → Option (Option Nat × List (Arg δ))
  | .none, va => some (Option.none, va)
  | .bare, va => some (some 0, va)
  | .num n _, va => some (some n, va)
  | .star, .int p :: va =>
      if p.toInt32.toInt < 0 then Option.none else some (some p.toInt32.toInt.toNat, va)
  | .star, _ => Option.none

/-- The bits of an integer argument. -/
def Length.take : Length → List (Arg δ) → Option (Nat × List (Arg δ))
  | len, .int v :: va => if len.Wide then Option.none else some (v.toNat % 2 ^ len.bits, va)
  | len, .long v :: va => if len.Wide then some (v.toNat, va) else Option.none
  | _, _ => Option.none

/-- The flags, width and precision of a directive with its arguments. -/
structure Layout where
  left : Bool
  zero : Bool
  plus : Bool
  space : Bool
  width : Nat
  precision : Option Nat

/-- There is room for the sign, the digits and the zeros, and the precision asks for no zeros in a
text that stands left. -/
def Layout.Fits (y : Layout) (sign digits : Nat) : Prop :=
  sign + max digits (y.precision.getD 0) ≤ ntoaBufferSize ∧
    (y.left → y.precision.getD 0 ≤ digits) ∧
      (y.zero ∧ ¬y.left ∧ y.precision.isNone → y.width ≤ ntoaBufferSize)

instance (y : Layout) (sign digits : Nat) : Decidable (y.Fits sign digits) :=
  inferInstanceAs (Decidable (_ ∧ _ ∧ _))

/-- The text of an integer: its value is `value`, or less than zero by so much. -/
def Layout.integer (y : Layout) (uppercase : Bool) (base : Nat) (signed negative : Bool)
    (value : Nat) : Option (List UInt8) :=
  let digits := significant uppercase base y.precision value
  let front := sign negative (signed && y.plus) (signed && y.space)
  if y.Fits front.length digits.length then
    some (field y.left (y.zero && y.precision.isNone) y.width front (body y.precision digits))
  else none

/-- An integer that has a sign; the least one of 32 or 64 bits has no meaning here. -/
def Layout.signed (y : Layout) (len : Length) (v : Nat) : Option (List UInt8) :=
  let value := Int.bmod v (2 ^ len.bits)
  if 32 ≤ len.bits ∧ value = -2 ^ (len.bits - 1) then none
  else y.integer false 10 true (value < 0) value.natAbs

/-- What a conversion stands for. -/
def Conv.text (len : Length) (y : Layout) (conv : Conv) (va : List (Arg δ)) :
    Option (List UInt8 × List (Arg δ)) :=
  match conv with
  | .d | .i => (len.take va).bind fun (v, va) => (y.signed len v).map (·, va)
  | .u => (len.take va).bind fun (v, va) => (y.integer false 10 false false v).map (·, va)
  | .x => (len.take va).bind fun (v, va) => (y.integer false 16 false false v).map (·, va)
  | .X => (len.take va).bind fun (v, va) => (y.integer true 16 false false v).map (·, va)
  | .o => (len.take va).bind fun (v, va) => (y.integer false 8 false false v).map (·, va)
  | .b => (len.take va).bind fun (v, va) => (y.integer false 2 false false v).map (·, va)
  | .c => (vaInt va).bind fun (v, va) =>
      if len = .none then some (field y.left false y.width [] [v.toUInt8], va) else none
  | .s => (vaPtr va).bind fun ((addr, str), va) =>
      if len = .none ∧ addr ≠ 0 ∧ 0 ∉ str ∧ str.length < 2 ^ 32 then
        some (field y.left false y.width [] (str.take (y.precision.getD str.length)), va)
      else none
  | .percent => some ([chr '%'], va)

/-- The layout of a directive. -/
def Directive.layout (d : Directive) (va : List (Arg δ)) : Option (Layout × List (Arg δ)) :=
  (d.width.take va).bind fun ((left, width), va) =>
    (d.precision.take va).map fun (precision, va) =>
      (⟨.minus ∈ d.flags ∨ left, .zero ∈ d.flags, .plus ∈ d.flags, .space ∈ d.flags, width,
        precision⟩, va)

/-- What a directive stands for, and the arguments it leaves. -/
def Directive.text (d : Directive) (va : List (Arg δ)) : Option (List UInt8 × List (Arg δ)) :=
  (d.layout va).bind fun (y, va) => d.conv.text d.length y va

/-! ### Formats -/

/-- A piece of a format. -/
inductive Piece
  | lit (c : UInt8) (plain : c ≠ 0 ∧ c ≠ chr '%')
  | directive (d : Directive)

/-- How it is written. -/
def Piece.shown : Piece → List UInt8
  | .lit c _ => [c]
  | .directive d => d.shown

/-- What it stands for. -/
def Piece.text : Piece → List (Arg δ) → Option (List UInt8 × List (Arg δ))
  | .lit c _, va => some ([c], va)
  | .directive d, va => d.text va

/-- The format of pieces. -/
def format (pieces : List Piece) : List UInt8 := pieces.flatMap Piece.shown

/-- What a format stands for. -/
def meaning : List Piece → List (Arg δ) → Option (List UInt8)
  | [], _ => some []
  | piece :: pieces, va =>
      (piece.text va).bind fun (text, va) => (meaning pieces va).map (text ++ ·)

end Awoke.Printf
