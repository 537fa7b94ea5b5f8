/-
Lists whose elements carry their links, `awoke_list.h`.

A node is known by the address of its `awoke_list`, and `container_of` makes no difference to it.
The links are those of all nodes in memory; a null link is `none`, and what goes through one has
no result.
-/
import Awoke.Lib.Links
import Awoke.Lib.WhileLoop

namespace Awoke

variable {ν : Type*} [DecidableEq ν]

/-- `list_init`. -/
def listInit (m : Links ν) (list : ν) : Links ν :=
  (m.setNext list (some list)).setPrev list (some list)

/-- `list_empty`. -/
def listEmpty (m : Links ν) (head : ν) : Bool :=
  m.next head = some head ∧ m.prev head = some head

/-- `list_append`. -/
def listAppend (m : Links ν) (new existing : ν) : Option (Links ν) := do
  let before ← m.prev existing
  let m := m.setNext before (some new)
  let m := m.setNext new (some existing)
  let m := m.setPrev new (m.prev existing)
  return m.setPrev existing (some new)

/-- `list_prepend`. -/
def listPrepend (m : Links ν) (new existing : ν) : Option (Links ν) := do
  let behind ← m.next existing
  let m := m.setPrev behind (some new)
  let m := m.setNext new (m.next existing)
  let m := m.setPrev new (some existing)
  return m.setNext existing (some new)

/-- `list_unlink`. -/
def listUnlink (m : Links ν) (entry : ν) : Option (Links ν) := do
  let behind ← m.next entry
  let m := m.setPrev behind (m.prev entry)
  let before ← m.prev entry
  let m := m.setNext before (m.next entry)
  let m := m.setNext entry none
  return m.setPrev entry none

/-! ### Going through a list -/

/-- The variables of `list_for_each_entry`, and the nodes its body was run for. -/
structure ForEach (ν : Type*) where
  pos : ν
  visited : List ν

/-- A turn of `list_for_each_entry`. -/
def forEachTurn (m : Links ν) (s : ForEach ν) : WhileLoop.Turn (ForEach ν) (Option (List ν)) :=
  match m.next s.pos with
  | none => .ret none
  | some pos => .next { pos := pos, visited := s.visited ++ [s.pos] }

/-- `list_for_each_entry`, in so many turns at most, whose body leaves the links alone. -/
def listForEachEntry (n : Nat) (m : Links ν) (head : ν) : Option (Option (List ν)) :=
  match m.next head with
  | none => some none
  | some pos =>
      WhileLoop.run (fun s => s.pos ≠ head) (forEachTurn m) (fun s => some s.visited) n
        { pos := pos, visited := [] }

/-- The variables of `list_for_each_entry_safe`, the links, and the nodes its body was run for. -/
structure ForEachSafe (ν : Type*) where
  pos : ν
  tmp : Option ν
  links : Links ν
  visited : List ν

/-- A turn of `list_for_each_entry_safe`, whose body unlinks the node it is run for where
`unlinks` says so of the number of the turn. -/
def forEachSafeTurn (unlinks : Nat → Bool) (s : ForEachSafe ν) :
    WhileLoop.Turn (ForEachSafe ν) (Option (List ν × Links ν)) :=
  match (if unlinks s.visited.length then listUnlink s.links s.pos else some s.links), s.tmp with
  | some m, some pos =>
      .next { pos := pos, tmp := m.next pos, links := m, visited := s.visited ++ [s.pos] }
  | _, _ => .ret none

/-- `list_for_each_entry_safe`, in so many turns at most. -/
def listForEachEntrySafe (unlinks : Nat → Bool) (n : Nat) (m : Links ν) (head : ν) :
    Option (Option (List ν × Links ν)) :=
  match m.next head with
  | none => some none
  | some pos =>
      WhileLoop.run (fun s => s.pos ≠ head) (forEachSafeTurn unlinks)
        (fun s => some (s.visited, s.links)) n
        { pos := pos, tmp := m.next pos, links := m, visited := [] }

end Awoke
