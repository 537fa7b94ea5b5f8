/-
A list is a ring of its nodes, and going through it is going through them.

`ListOp` are the calls a program makes on a list, and what they do to the sequence of its nodes is
`ListOp.apply`.  A call that adds is for a node that is not in the list, and one that unlinks for
one that is.

`Shows` is what the links say of the sequence at any time.  All of it follows from the links being
a ring, which the calls keep; `list_shows` is the same for every sequence of calls.  The loop over
a list whose body unlinks comes to the nodes that are left of it one by one: `Ring` holds in front
of every turn, of the nodes that were kept and those still to come.
-/
import Awoke.Lib.Run
import Awoke.Util.AwokeList

namespace Awoke.AwokeList

variable {ν : Type*} [DecidableEq ν] {m : Links ν} {head x : ν} {k r l : List ν}

/-! ### Calls -/

/-- The calls on a list. -/
inductive ListOp (ν : Type*)
  | init
  | append (new : ν)
  | prepend (new : ν)
  | unlink (entry : ν)

namespace ListOp

/-- What a call does to the nodes. -/
def apply (l : List ν) : ListOp ν → List ν
  | .init => []
  | .append new => l ++ [new]
  | .prepend new => new :: l
  | .unlink entry => l.erase entry

/-- Only a node that is not in the list is added, and only one that is in it unlinked. -/
def Admitted (head : ν) (l : List ν) : ListOp ν → Prop
  | .init => True
  | .append new | .prepend new => new ∉ head :: l
  | .unlink entry => entry ∈ l

instance (head : ν) (l : List ν) : DecidablePred (Admitted head l)
  | .init => inferInstanceAs (Decidable True)
  | .append new | .prepend new => inferInstanceAs (Decidable (new ∉ head :: l))
  | .unlink entry => inferInstanceAs (Decidable (entry ∈ l))

/-- The call on the links. -/
def call (head : ν) (m : Links ν) : ListOp ν → Option (Links ν)
  | .init => some (listInit m head)
  | .append new => listAppend m new head
  | .prepend new => listPrepend m new head
  | .unlink entry => listUnlink m entry

/-- The links and the nodes as machines that take calls. -/
def step (head : ν) (m : Links ν) (op : ListOp ν) : Option (Links ν × Unit) :=
  (op.call head m).map fun m' => (m', ())

def nodes : List ν → ListOp ν → Option (List ν × Unit) :=
  Machine.total fun l op => (op.apply l, ())

/-- The call is this one on the nodes. -/
def Spec (l : List ν) (op : ListOp ν) (_ : Unit) (l' : List ν) : Prop := l' = op.apply l

end ListOp

/-! ### One call -/

theorem listInit_ring (m : Links ν) (head : ν) : (listInit m head).Ring head [] := by
  refine Links.ring_nil_iff.mpr ⟨?_, ?_⟩
  · rw [listInit, Links.setPrev_next, Links.setNext_next, if_pos rfl]
  · rw [listInit, Links.setPrev_prev, if_pos rfl]

/-- A node is put behind the last one. -/
theorem listAppend_ring (hring : m.Ring head l) (hx : x ∉ head :: l) :
    ∃ m', listAppend m x head = some m' ∧ m'.Ring head (l ++ [x]) := by
  have hlast : l.getLastD head ≠ x := fun heq => hx (heq ▸ Links.getLastD_mem)
  have hhead : head ≠ x := fun heq => hx (heq ▸ List.mem_cons_self)
  rw [← List.append_nil l] at hring hx
  have hprev : m.prev head = some (l.getLastD head) := hring.joins.2
  generalize hp : l.getLastD head = p at hlast hprev
  refine ⟨_, by simp only [listAppend, hprev, Links.setNext_prev]; rfl, ?_⟩
  refine hring.insert hp rfl hx ⟨fun a hap hax => ?_, fun b hbn hbx => ?_⟩ ⟨?_, ?_⟩ ⟨?_, ?_⟩
  · simp [Links.setNext_next, hap, hax]
  · rw [List.headD_nil] at hbn
    simp [Links.setPrev_prev, hbn, hbx]
  · simp [Links.setNext_next, hlast]
  · simp [Links.setPrev_prev, hhead.symm]
  · simp [Links.setNext_next]
  · simp [Links.setPrev_prev]

/-- A node is put in front of the first one. -/
theorem listPrepend_ring (hring : m.Ring head l) (hx : x ∉ head :: l) :
    ∃ m', listPrepend m x head = some m' ∧ m'.Ring head (x :: l) := by
  have hfirst : l.headD head ≠ x := fun heq => hx (heq ▸ Links.headD_mem)
  have hhead : head ≠ x := fun heq => hx (heq ▸ List.mem_cons_self)
  rw [← List.nil_append l] at hring hx
  have hnext : m.next head = some (l.headD head) := hring.joins.1
  generalize hn : l.headD head = n at hfirst hnext
  refine ⟨_, by simp only [listPrepend, hnext, Links.setPrev_next]; rfl, ?_⟩
  refine hring.insert rfl hn hx ⟨fun a hap hax => ?_, fun b hbn hbx => ?_⟩ ⟨?_, ?_⟩ ⟨?_, ?_⟩
  · rw [List.getLastD_nil] at hap
    simp [Links.setNext_next, hap, hax]
  · simp [Links.setPrev_prev, hbn, hbx]
  · simp [Links.setNext_next]
  · simp [Links.setPrev_prev]
  · simp [Links.setNext_next, hhead.symm]
  · simp [Links.setPrev_prev, hfirst]

/-- A node is unlinked, and no other. -/
theorem listUnlink_ring (hring : m.Ring head (k ++ x :: r)) :
    ∃ m', listUnlink m x = some m' ∧ m'.Ring head (k ++ r) := by
  obtain ⟨⟨-, hprev⟩, hnext, -⟩ := hring.joins_mid
  have hnodup := hring.nodup
  rw [← List.cons_append] at hnodup
  have hx := (List.nodup_cons.mp (List.nodup_middle.mp hnodup)).1
  have hlast : k.getLastD head ≠ x := fun heq =>
    hx (List.mem_append_left r (heq ▸ Links.getLastD_mem))
  have hfirst : r.headD head ≠ x := fun heq => by
    rcases List.mem_cons.mp (heq ▸ Links.headD_mem (h := head) (r := r)) with hhead | hr
    · exact hx (List.mem_cons.mpr (.inl hhead))
    · exact hx (List.mem_append_right (head :: k) hr)
  generalize hp : k.getLastD head = p at hlast hprev
  generalize hn : r.headD head = n at hfirst hnext
  refine ⟨_, by
    simp only [listUnlink, hnext, hprev, Links.setPrev_prev, if_neg hfirst.symm,
      Option.bind_eq_bind, Option.bind_some]
    rfl, ?_⟩
  refine hring.remove hp hn ⟨fun a hap hax => ?_, fun b hbn hbx => ?_⟩ ⟨?_, ?_⟩
  · simp [Links.setNext_next, hap, hax]
  · simp [Links.setPrev_prev, hbn, hbx]
  · simp [Links.setNext_next, hnext, hlast]
  · simp [Links.setPrev_prev, hfirst]

/-- **One call does to the ring what it does to the nodes.** -/
theorem ListOp.call_ring (hring : m.Ring head l) {op : ListOp ν} (hop : op.Admitted head l) :
    ∃ m', op.call head m = some m' ∧ m'.Ring head (op.apply l) := by
  cases op with
  | init => exact ⟨_, rfl, listInit_ring m head⟩
  | append new => exact listAppend_ring hring hop
  | prepend new => exact listPrepend_ring hring hop
  | unlink entry =>
      obtain ⟨k, r, hk, rfl, herase⟩ := List.exists_erase_eq hop
      rw [ListOp.apply, herase]
      exact listUnlink_ring hring

theorem listEmpty_iff (hring : m.Ring head l) : listEmpty m head = true ↔ l = [] := by
  rw [listEmpty, decide_eq_true_iff]
  refine ⟨fun h => hring.next_head_iff.mp h.1, ?_⟩
  rintro rfl
  exact Links.ring_nil_iff.mp hring

/-! ### Going through the nodes -/

/-- `list_for_each_entry` goes on from `s` and ends with `r`. -/
def Walks (m : Links ν) (head : ν) (s : ForEach ν) (r : Option (List ν)) : Prop :=
  WhileLoop.Ends (fun s => s.pos ≠ head) (forEachTurn m) (fun s => some s.visited) s r

theorem walks_head {visited : List ν} {o : Option (List ν)} :
    Walks m head ⟨head, visited⟩ o ↔ o = some visited :=
  WhileLoop.ends_of_last (not_not.mpr rfl)

theorem walks_next {n : ν} {visited : List ν} {o : Option (List ν)} (hx : x ≠ head)
    (hnext : m.next x = some n) :
    Walks m head ⟨x, visited⟩ o ↔ Walks m head ⟨n, visited ++ [x]⟩ o :=
  WhileLoop.ends_of_next hx (by simp only [forEachTurn, hnext])

theorem walks_ring (r : List ν) : ∀ (k : List ν), m.Ring head (k ++ r) →
    Walks m head ⟨r.headD head, k⟩ (some (k ++ r)) := by
  induction r with
  | nil =>
      intro k _
      rw [List.append_nil]
      exact walks_head.mpr rfl
  | cons x r ih =>
      intro k hring
      refine (walks_next hring.ne_head hring.joins_mid.2.1).mpr ?_
      rw [List.append_cons] at hring
      rw [List.append_cons k x r]
      exact ih (k ++ [x]) hring

theorem listForEachEntry_ring (hring : m.Ring head l) :
    ∃ n, listForEachEntry n m head = some (some l) := by
  have hnext : m.next head = some (l.headD head) := (Links.Ring.joins (k := []) hring).1
  obtain ⟨n, hn⟩ := walks_ring l [] hring
  refine ⟨n, ?_⟩
  rw [listForEachEntry, hnext]
  exact hn

/-- The nodes that are left of a list where `unlinks` says which turns unlink, from turn `i` on. -/
def kept (unlinks : Nat → Bool) : Nat → List ν → List ν
  | _, [] => []
  | i, x :: l => if unlinks i then kept unlinks (i + 1) l else x :: kept unlinks (i + 1) l

/-- `list_for_each_entry_safe` goes on from `s` and ends with `r`. -/
def WalksSafe (unlinks : Nat → Bool) (head : ν) (s : ForEachSafe ν)
    (r : Option (List ν × Links ν)) : Prop :=
  WhileLoop.Ends (fun s => s.pos ≠ head) (forEachSafeTurn unlinks)
    (fun s => some (s.visited, s.links)) s r

section Safe

variable {unlinks : Nat → Bool} {visited : List ν} {o : Option (List ν × Links ν)}

theorem walksSafe_head {tmp : Option ν} :
    WalksSafe unlinks head ⟨head, tmp, m, visited⟩ o ↔ o = some (visited, m) :=
  WhileLoop.ends_of_last (not_not.mpr rfl)

theorem walksSafe_next {m' : Links ν} {n : ν} (hx : x ≠ head)
    (hbody : (if unlinks visited.length then listUnlink m x else some m) = some m') :
    WalksSafe unlinks head ⟨x, some n, m, visited⟩ o ↔
      WalksSafe unlinks head ⟨n, m'.next n, m', visited ++ [x]⟩ o :=
  WhileLoop.ends_of_next hx (by simp only [forEachSafeTurn, hbody])

end Safe

/-- The rest of a walk whose body unlinks: `k` was kept of the `visited`, and `r` is to come. -/
theorem walksSafe_ring (unlinks : Nat → Bool) (r : List ν) :
    ∀ (m : Links ν) (k visited : List ν), m.Ring head (k ++ r) → ∃ m',
      WalksSafe unlinks head ⟨r.headD head, m.next (r.headD head), m, visited⟩
          (some (visited ++ r, m')) ∧
        m'.Ring head (k ++ kept unlinks visited.length r) := by
  induction r with
  | nil =>
      intro m k visited hring
      rw [List.append_nil]
      exact ⟨m, walksSafe_head.mpr rfl, hring⟩
  | cons x r ih =>
      intro m k visited hring
      have hnext : m.next x = some (r.headD head) := hring.joins_mid.2.1
      have hlength : visited.length + 1 = (visited ++ [x]).length := by simp
      rw [List.append_cons visited, kept, hlength, List.headD_cons, hnext]
      cases hunlink : unlinks visited.length with
      | true =>
          obtain ⟨m₁, hm₁, hring₁⟩ := listUnlink_ring hring
          obtain ⟨m', hends, hring'⟩ := ih m₁ k (visited ++ [x]) hring₁
          refine ⟨m', (walksSafe_next hring.ne_head ?_).mpr hends, hring'⟩
          rw [hunlink, if_pos rfl, hm₁]
      | false =>
          have hne := hring.ne_head
          rw [List.append_cons] at hring
          obtain ⟨m', hends, hring'⟩ := ih m (k ++ [x]) (visited ++ [x]) hring
          refine ⟨m', (walksSafe_next hne ?_).mpr hends, ?_⟩
          · rw [hunlink, if_neg Bool.false_ne_true]
          · rw [← List.append_cons] at hring'
            exact hring'

theorem listForEachEntrySafe_ring (hring : m.Ring head l) (unlinks : Nat → Bool) :
    ∃ n m', listForEachEntrySafe unlinks n m head = some (some (l, m')) ∧
      m'.Ring head (kept unlinks 0 l) := by
  have hnext : m.next head = some (l.headD head) := (Links.Ring.joins (k := []) hring).1
  obtain ⟨m', ⟨n, hn⟩, hring'⟩ := walksSafe_ring unlinks l m [] [] hring
  refine ⟨n, m', ?_, hring'⟩
  rw [listForEachEntrySafe, hnext]
  exact hn

/-! ### Every sequence of calls -/

/-- What the links say of a list with these nodes. -/
structure Shows (head : ν) (m : Links ν) (l : List ν) : Prop where
  distinct : (head :: l).Nodup
  next : ∀ a ∈ head :: l, ∃ b ∈ head :: l, m.next a = some b ∧ m.prev b = some a
  prev : ∀ b ∈ head :: l, ∃ a ∈ head :: l, m.prev b = some a ∧ m.next a = some b
  walk : ∃ n, listForEachEntry n m head = some (some l)
  empty : listEmpty m head = true ↔ l = []
  safe : ∀ unlinks, ∃ n m', listForEachEntrySafe unlinks n m head = some (some (l, m')) ∧
    m'.Ring head (kept unlinks 0 l)

theorem shows_of_ring (hring : m.Ring head l) : Shows head m l where
  distinct := hring.nodup
  next _ ha := hring.exists_next ha
  prev _ hb := by
    obtain ⟨a, ha, hjoins⟩ := hring.exists_prev hb
    exact ⟨a, ha, hjoins.symm⟩
  walk := listForEachEntry_ring hring
  empty := listEmpty_iff hring
  safe := listForEachEntrySafe_ring hring

theorem calls_shows (ops : List (ListOp ν)) : ∀ (m : Links ν) (l : List ν), m.Ring head l →
    Machine.Meets ListOp.nodes (ListOp.Admitted head) l ops →
    Machine.RunRefines (ListOp.step head) ListOp.Spec (Shows head) m l ops := by
  induction ops with
  | nil => exact fun m l hring _ => shows_of_ring hring
  | cons op ops ih =>
      intro m l hring hops
      obtain ⟨m', hcall, hring'⟩ := ListOp.call_ring hring hops.1
      refine ⟨shows_of_ring hring, m', (), _, ?_, rfl, ih m' _ hring' (hops.2 _ () rfl)⟩
      rw [ListOp.step, hcall, Option.map_some]

/-- **The links show the nodes of the list** in front of every call of a program and behind it,
whatever is in memory when the list is set up. -/
theorem list_shows (m : Links ν) (head : ν) (ops : List (ListOp ν))
    (hops : Machine.Meets ListOp.nodes (ListOp.Admitted head) [] ops) :
    Machine.RunRefines (ListOp.step head) ListOp.Spec (Shows head) (listInit m head) [] ops :=
  calls_shows ops (listInit m head) [] (listInit_ring m head) hops

/-- One node is put in front, one behind, and the first is unlinked and put behind. -/
theorem list_shows_moved :
    Machine.RunRefines (ListOp.step 0) ListOp.Spec (Shows 0)
      (listInit ⟨fun _ => some 7, fun _ => none⟩ 0) []
      [.prepend 5, .append 6, .unlink 5, .append 5] :=
  list_shows ⟨fun _ => some 7, fun _ => none⟩ 0 _ (by decide)

end Awoke.AwokeList
