/-
Binary trees, `awoke_tree.c`.

The nodes lie in memory and belong to the caller, who gives each its data.  A tree knows its root
and how to compare; adding a node goes down from the root to a null link, and a node that compares
as 0 on the way is not added.  The recursion takes a bound on its depth.
-/
import Awoke.Error
import Mathlib.Data.UInt
import Mathlib.Logic.Function.Basic

namespace Awoke

/-- `awoke_btree_node`. -/
structure BtreeNode (α : Type*) where
  left : Option Nat
  right : Option Nat
  data : α

/-- The nodes in memory, by address. -/
abbrev BtreeNodes (α : Type*) := Nat → BtreeNode α

/-- `awoke_btree`. -/
structure Btree (α : Type*) where
  root : Option Nat
  compare : Option (α → α → Int)

variable {α : Type*}

/-- `btree_add`. -/
def btreeAdd (compare : α → α → Int) :
    Nat → BtreeNodes α → Nat → Nat → Option (ErrType × BtreeNodes α)
  | 0, _, _, _ => none
  | fuel + 1, m, r, n =>
      let c := compare (m n).data (m r).data
      if c < 0 then
        match (m r).left with
        | none => some (.etOk, Function.update m r { m r with left := some n })
        | some left => btreeAdd compare fuel m left n
      else if 0 < c then
        match (m r).right with
        | none => some (.etOk, Function.update m r { m r with right := some n })
        | some right => btreeAdd compare fuel m right n
      else some (.etOk, m)

/-- `awoke_btree_inorder`: the nodes whose data is visited. -/
def btreeInorder : Nat → BtreeNodes α → Option Nat → Option (List Nat)
  | _, _, none => some []
  | 0, _, some _ => none
  | fuel + 1, m, some n =>
      (btreeInorder fuel m (m n).left).bind fun left =>
        (btreeInorder fuel m (m n).right).map fun right => left ++ n :: right

namespace Btree

/-- `awoke_btree_init`. -/
def init (compare : Option (α → α → Int)) : Btree α := { root := none, compare := compare }

/-- `awoke_btree_add`. -/
def add (fuel : Nat) (t : Btree α) (m : BtreeNodes α) (n : Nat) :
    Option (ErrType × Btree α × BtreeNodes α) :=
  match t.compare with
  | none => some (.etParam, t, m)
  | some compare =>
      match t.root with
      | none => some (.etOk, { t with root := some n }, m)
      | some root => (btreeAdd compare fuel m root n).map fun r => (r.1, t, r.2)

/-- `awoke_btree_traverse`. -/
def traverse (fuel : Nat) (t : Btree α) (m : BtreeNodes α) : Option (List Nat) :=
  btreeInorder fuel m t.root

/-- A tree to which nodes are added one after the other. -/
def adds (fuel : Nat) : Btree α → BtreeNodes α → List Nat → Option (Btree α × BtreeNodes α)
  | t, m, [] => some (t, m)
  | t, m, n :: ns => (t.add fuel m n).bind fun r => adds fuel r.2.1 r.2.2 ns

end Btree

end Awoke
