/-
What the callers of the allocator may do, and what they know.

A caller gives memory for a pool, asks for buffers, writes in those it has and gives them back.  It
does not see the headers.  `Client` is the account kept of all of this on the side of the callers:
the memory that was given, and for each buffer that is out what it has to contain.
-/
import Awoke.Benchmark.Bget

namespace Awoke.Benchmark.Bget

open Cells (slice)

/-- A call of the allocator, or a caller that writes in a buffer. -/
inductive Call
  | bpool (buf len : Int)
  | bget (size : Int)
  | bgetz (size : Int)
  | bgetr (buf size : Int)
  | brel (buf : Int)
  | put (buf : Int) (off : Nat) (bs : List UInt8)

/-- What a call returns, and the state it leaves. -/
def Call.exec (turns : Nat) (s : State) : Call → Option (Int × State)
  | .bpool buf len => (Bget.bpool s buf len).map fun s => (0, s)
  | .bget size => (Bget.bget turns s size).map fun r => (r.1, { s with mem := r.2 })
  | .bgetz size => (Bget.bgetz turns s size).map fun r => (r.1, { s with mem := r.2 })
  | .bgetr buf size => (Bget.bgetr turns s buf size).map fun r => (r.1, { s with mem := r.2 })
  | .brel buf => (Bget.brel s buf).map fun m => (0, { s with mem := m })
  | .put buf off bs => some (0, { s with mem := Cells.write s.mem (buf + off) bs })

/-- What the callers know. -/
structure Client where
  /-- The memory that was given, with where it begins and its length. -/
  given : List (Int × Int)
  /-- What a buffer contains, if it is out. -/
  live : Int → Option (List UInt8)
  gets : Nat
  rels : Nat

namespace Client

/-- Before anything was given. -/
def start : Client := ⟨[], fun _ => none, 0, 0⟩

variable (c : Client)

/-- What can be used of the memory that was given: the first keeps the variables, and each has a stop
at its end. -/
def pools : List (Int × Int) → List (Int × Int)
  | [] => []
  | first :: more =>
      (first.1 + 1024, quantized (first.2 - 1024) - 16) ::
        more.map fun pool => (pool.1, quantized pool.2 - 16)

/-- All that can be used. -/
def capacity : Int := ((pools c.given).map Prod.snd).sum

/-- What a caller may do: the memory it gives is nobody else's, and it uses buffers that are out. -/
def Allows : Call → Prop
  | .bpool buf len =>
      0 < buf ∧ buf + len ≤ 2 ^ 63 ∧ 48 ≤ quantized (if c.given = [] then len - 1024 else len) ∧
        ∀ pool ∈ c.given, buf + len ≤ pool.1 ∨ pool.1 + pool.2 ≤ buf
  | .bget size => c.given ≠ [] ∧ 0 < size ∧ size ≤ 2 ^ 63 - 20
  | .bgetz size => c.given ≠ [] ∧ 0 < size ∧ size ≤ 2 ^ 31 - 64
  | .bgetr buf size =>
      c.given ≠ [] ∧ 0 < size ∧ size < 2 ^ 31 ∧ (buf = 0 ∨ c.live buf ≠ none)
  | .brel buf => c.live buf ≠ none
  | .put buf off bs => ∃ old, c.live buf = some old ∧ off + bs.length ≤ old.length

/-- A buffer with these bytes is out, unless it is `NULL`. -/
def got (buf : Int) (bs : List UInt8) : Client :=
  if buf = 0 then c
  else { c with live := Function.update c.live buf (some bs), gets := c.gets + 1 }

/-- A buffer is given back. -/
def released (buf : Int) : Client :=
  { c with live := Function.update c.live buf none, rels := c.rels + 1 }

/-- What a buffer of another size keeps. -/
def kept (buf size : Int) : List UInt8 := ((c.live buf).getD []).take size.toNat

/-- What the callers know after a call that returned `r`.  The bytes of a new buffer are what they
happen to be, but for those that `bgetz` and `bgetr` answer for. -/
def after (r : Int) (m : Cells UInt8) : Call → Client
  | .bpool buf len => { c with given := c.given ++ [(buf, len)] }
  | .bget size => c.got r (slice m r size.toNat)
  | .bgetz size => c.got r (List.replicate size.toNat 0)
  | .bgetr buf size =>
      let kept := c.kept buf size
      let c := if r = 0 ∨ buf = 0 then c else c.released buf
      c.got r (kept ++ slice m (r + kept.length) (size.toNat - kept.length))
  | .brel buf => c.released buf
  | .put buf off bs =>
      { c with
        live := Function.update c.live buf
          ((c.live buf).map fun old => old.take off ++ bs ++ old.drop (off + bs.length)) }

end Client

/-- What can be reached from memory as it happens to be, when only what is allowed is done. -/
inductive Reach : State → Client → Prop
  | start (mem : Cells UInt8) : Reach ⟨0, mem⟩ Client.start
  | call {s s' : State} {c : Client} {call : Call} {turns : Nat} {r : Int} (h : Reach s c)
      (hallows : c.Allows call) (hexec : call.exec turns s = some (r, s')) :
      Reach s' (c.after r s'.mem call)

end Awoke.Benchmark.Bget
