/-
The event loop's registry, `awoke_event.c`, and `mtk_event_change_mask` of the micro-talk client.

What is registered is kept in four places: the table `events` from descriptors to events, the
two bit sets that `select` is called with, and the greatest descriptor.  An event is memory of
the caller; it remembers its descriptor and its mask, and `awoke_event_del` goes by what it
remembers.  `ι` is the type of the events' addresses.

To touch a bit or a slot that is none of the `FD_SETSIZE` ones has no result.
-/
import Awoke.Error
import Mathlib.Logic.Function.Basic

namespace Awoke.Libevent

/-- `FD_SETSIZE`. -/
def fdSetsize : Nat := 1024

/-- `EVENT_EMPTY`. -/
def eventEmpty : BitVec 32 := 0x0000

/-- `EVENT_READ`. -/
def eventRead : BitVec 32 := 0x0001

/-- `EVENT_WRITE`. -/
def eventWrite : BitVec 32 := 0x0004

/-- `EVENT_NONE`. -/
def eventNone : BitVec 8 := 1

/-- `EVENT_REGISTERED`. -/
def eventRegistered : BitVec 8 := 2

/-- `awoke_event`. -/
structure Event where
  fd : Int
  type : Int
  mask : BitVec 32
  status : BitVec 8
  deriving DecidableEq

/-- `AWOKE_EVENT_NEW`. -/
def Event.new (e : Event) : Event := { e with mask := eventEmpty, status := eventNone }

/-- It is registered, as far as it knows. -/
def Event.registered (e : Event) : Bool := maskExst e.status eventRegistered

/-- `awoke_event_ctx`, and the memory of the events. -/
structure EventCtx (ι : Type) where
  maxFd : Int
  rfds : Fin fdSetsize → Bool
  wfds : Fin fdSetsize → Bool
  events : Fin fdSetsize → Option ι
  mem : ι → Event

variable {ι : Type} [DecidableEq ι]

/-- The slot of a descriptor, or bit of an `fd_set`, if there is one. -/
def fdIndex (fd : Int) : Option (Fin fdSetsize) :=
  if h : 0 ≤ fd ∧ fd < fdSetsize then some ⟨fd.toNat, by omega⟩ else none

/-- `FD_SET` and `FD_CLR` under a flag of the mask. -/
def setUnder (mask flag : BitVec 32) (k : Fin fdSetsize) (b : Bool) (set : Fin fdSetsize → Bool) :
    Fin fdSetsize → Bool :=
  if maskExst mask flag then Function.update set k b else set

/-- The loop of `awoke_event_del` that looks for the next greatest descriptor, from `i` down. -/
def EventCtx.lookup (ctx : EventCtx ι) : Nat → Option Int
  | 0 => some 0
  | i + 1 => do
      let k ← fdIndex ((i + 1 : Nat) : Int)
      match ctx.events k with
      | none => ctx.lookup i
      | some s => if (ctx.mem s).mask ≠ eventEmpty then some ((i + 1 : Nat) : Int) else ctx.lookup i

/-- The greatest descriptor once this one is gone, "Update max_fd, lookup" in `awoke_event_del`. -/
def EventCtx.updateMaxFd (ctx : EventCtx ι) (fd : Int) : Option Int :=
  if fd = ctx.maxFd then
    if 0 < ctx.maxFd - 1 then ctx.lookup (ctx.maxFd - 1).toNat else some (ctx.maxFd - 1)
  else some ctx.maxFd

/-- `awoke_event_del`. -/
def awokeEventDel (ctx : EventCtx ι) (event : ι) : Option (EventCtx ι) :=
  let e := ctx.mem event
  if !e.registered then some ctx
  else do
    let k ← fdIndex e.fd
    let maxFd ← ctx.updateMaxFd e.fd
    return {
      maxFd := maxFd
      rfds := setUnder e.mask eventRead k false ctx.rfds
      wfds := setUnder e.mask eventWrite k false ctx.wfds
      events := Function.update ctx.events k none
      mem := Function.update ctx.mem event e.new }

/-- `awoke_event_add`; `none` as the data is the null pointer. -/
def awokeEventAdd (ctx : EventCtx ι) (fd type : Int) (mask : BitVec 32) (data : Option ι) :
    Option (EventCtx ι × ErrType) :=
  match data with
  | none => some (ctx, .etParam)
  | some event =>
      if fd > fdSetsize then some (ctx, .etParam)
      else do
        let k ← fdIndex fd
        return ({
          maxFd := if fd > ctx.maxFd then fd else ctx.maxFd
          rfds := setUnder mask eventRead k true ctx.rfds
          wfds := setUnder mask eventWrite k true ctx.wfds
          events := Function.update ctx.events k (some event)
          mem := Function.update ctx.mem event
            { fd := fd, type := type, mask := mask, status := eventRegistered } }, .etOk)

/-- `mtk_event_change_mask`. -/
def mtkEventChangeMask (ctx : EventCtx ι) (event : ι) (and or : BitVec 32) (data : Option ι) :
    Option (EventCtx ι) := do
  let prevmask := (ctx.mem event).mask
  let ctx ← awokeEventDel ctx event
  let e := { ctx.mem event with mask := prevmask &&& ~~~and ||| or }
  let ctx := { ctx with mem := Function.update ctx.mem event e }
  let r ← awokeEventAdd ctx e.fd e.type e.mask data
  return r.1

end Awoke.Libevent
