/-
What the event loop should have registered, and the calls that keep it so.

The registry is the event most recently registered for each descriptor and not deleted since.
The table, the bit sets and the greatest descriptor of the loop hold it in their ways: `Holds`
says how, and `Safe` is what a call must meet for that to be true after it.
-/
import Awoke.Event.Loop
import Awoke.Lib.Run

namespace Awoke.Libevent

variable {ι : Type} [DecidableEq ι]

/-! ### What is registered -/

/-- The event most recently registered for each descriptor, unless it was deleted. -/
abbrev Registry (ι : Type) := Fin fdSetsize → Option ι

/-- Register an event for a descriptor. -/
def Registry.add (reg : Registry ι) (fd : Int) (data : Option ι) : Registry ι :=
  match data with
  | none => reg
  | some event => (fdIndex fd).elim reg fun k => Function.update reg k (some event)

/-- Delete an event. -/
def Registry.del (reg : Registry ι) (event : ι) : Registry ι :=
  fun k => if reg k = some event then none else reg k

/-- A call. -/
inductive Op (ι : Type)
  | add (fd type : Int) (mask : BitVec 32) (data : Option ι)
  | del (event : ι)
  | changeMask (event : ι) (and or : BitVec 32) (data : Option ι)

/-- What a call does to the loop, and what is registered after it. -/
def step (s : EventCtx ι × Registry ι) (op : Op ι) :
    Option ((EventCtx ι × Registry ι) × ErrType) :=
  match op with
  | .add fd type mask data =>
      (awokeEventAdd s.1 fd type mask data).map fun r => ((r.1, s.2.add fd data), r.2)
  | .del event => (awokeEventDel s.1 event).map fun ctx => ((ctx, s.2.del event), .etOk)
  | .changeMask event and or data =>
      (mtkEventChangeMask s.1 event and or data).map fun ctx =>
        ((ctx, (s.2.del event).add (s.1.mem event).fd data), .etOk)

/-- A bit is set exactly when the event of that descriptor asks for it. -/
def Agrees (ctx : EventCtx ι) (flag : BitVec 32) (set : Fin fdSetsize → Bool)
    (k : Fin fdSetsize) : Prop :=
  set k = true ↔ ∃ e, ctx.events k = some e ∧ maskExst (ctx.mem e).mask flag = true

/-- The registry is right for one descriptor. -/
structure HoldsAt (ctx : EventCtx ι) (reg : Registry ι) (k : Fin fdSetsize) : Prop where
  table : ctx.events k = reg k
  read : Agrees ctx eventRead ctx.rfds k
  write : Agrees ctx eventWrite ctx.wfds k
  max : ∀ e, ctx.events k = some e → (ctx.mem e).mask ≠ eventEmpty → (k : Int) ≤ ctx.maxFd

/-- It is right for all, and `awoke_event_wait`, which goes through the table up to the greatest
descriptor, stays in it. -/
structure Holds (ctx : EventCtx ι) (reg : Registry ι) : Prop where
  at' : ∀ k, HoldsAt ctx reg k
  bound : ctx.maxFd < fdSetsize

/-- The call has a result, and the registry is right after it. -/
def Kept (s : EventCtx ι × Registry ι) (op : Op ι) : Prop :=
  ∃ r, step s op = some r ∧ Holds r.1.1 r.1.2

/-! ### When it stays right -/

/-- An event may be registered for a descriptor when that is in range, its bits that are still set
are ones that the mask asks for, and another descriptor that has the event loses nothing by the
new mask.  `gone` is a mask whose bits are cleared before. -/
structure AddSafe (ctx : EventCtx ι) (fd : Int) (gone mask : BitVec 32) (event : ι) : Prop where
  index : 0 ≤ fd ∧ fd < fdSetsize
  slot : ∀ k : Fin fdSetsize, (k : Int) = fd →
    (ctx.rfds k = true → maskExst gone eventRead = true ∨ maskExst mask eventRead = true) ∧
    (ctx.wfds k = true → maskExst gone eventWrite = true ∨ maskExst mask eventWrite = true)
  others : ∀ k : Fin fdSetsize, (k : Int) ≠ fd → ctx.events k = some event →
    maskExst mask eventRead = maskExst (ctx.mem event).mask eventRead ∧
    maskExst mask eventWrite = maskExst (ctx.mem event).mask eventWrite ∧
    (mask ≠ eventEmpty → (k : Int) ≤ max fd ctx.maxFd)

/-- An event may be deleted when it stands at its own descriptor only, and no other does. -/
def DelSafe (ctx : EventCtx ι) (event : ι) : Prop :=
  (ctx.mem event).registered = true →
    ∀ k e, ctx.events k = some e → ((k : Int) = (ctx.mem event).fd ↔ e = event)

/-- The mask with which `mtk_event_change_mask` registers the event. -/
def newMask (ctx : EventCtx ι) (event : ι) (and or : BitVec 32) : BitVec 32 :=
  (ctx.mem event).mask &&& ~~~and ||| or

/-- The mask of an event that is registered, whose bits its deletion clears. -/
def goneMask (ctx : EventCtx ι) (event : ι) : BitVec 32 :=
  if (ctx.mem event).registered then (ctx.mem event).mask else eventEmpty

/-- The calls that keep the registry as it should be.  A change of the mask registers the event's
data again at once, so that another event may stand at its descriptor. -/
def Safe (s : EventCtx ι × Registry ι) (op : Op ι) : Prop :=
  match op with
  | .add _ _ _ none => True
  | .add fd _ mask (some event) => fd ≤ fdSetsize → AddSafe s.1 fd eventEmpty mask event
  | .del event => DelSafe s.1 event
  | .changeMask event _ _ none => DelSafe s.1 event
  | .changeMask event and or (some data) =>
      ((s.1.mem event).registered = true →
        ∀ k, s.1.events k = some event → (k : Int) = (s.1.mem event).fd) ∧
      ((s.1.mem event).fd ≤ fdSetsize →
        AddSafe s.1 (s.1.mem event).fd (goneMask s.1 event) (newMask s.1 event and or) data)

/-- What is true of the events all along. -/
structure Sound (ctx : EventCtx ι) : Prop where
  fd : ∀ e, (ctx.mem e).registered = true → 0 ≤ (ctx.mem e).fd ∧ (ctx.mem e).fd < fdSetsize
  live : ∀ k e, ctx.events k = some e → (ctx.mem e).registered = true

end Awoke.Libevent
