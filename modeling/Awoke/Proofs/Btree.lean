/-
A tree of nodes in memory is a search tree.

`Holds` says which tree the links make of a node, and `btreeAdd_spec` that adding a node puts it
into that tree as `SearchTree.insert` does, and touches no node outside it.  So after any sequence
of additions the links make a search tree of the nodes that were the first with their key.

A node may be added again: if it is in the tree its own key is found there.
-/
import Awoke.Lib.SearchTree
import Awoke.Util.Btree

namespace Awoke

variable {α : Type*}

open SearchTree

/-! ### The tree that the links make -/

/-- The links from `p` on make this tree of nodes. -/
def Holds (m : BtreeNodes α) : Option Nat → BinaryTree Nat → Prop
  | p, .nil => p = none
  | p, .node a l r => p = some a ∧ Holds m (m a).left l ∧ Holds m (m a).right r

theorem Holds.congr {m m' : BtreeNodes α} {t : BinaryTree Nat}
    (hsame : ∀ a ∈ inorder t, m' a = m a) : ∀ {p : Option Nat}, Holds m p t → Holds m' p t := by
  induction t with
  | nil => exact fun h => h
  | node a l r ihl ihr =>
      rw [inorder, List.forall_mem_append, List.forall_mem_cons] at hsame
      obtain ⟨hl, ha, hr⟩ := hsame
      intro p h
      obtain ⟨hp, hleft, hright⟩ := h
      rw [← ha] at hleft hright
      exact ⟨hp, ihl hl hleft, ihr hr hright⟩

/-- The comparison of nodes is that of their data. -/
def byData (compare : α → α → Int) (m : BtreeNodes α) (a b : Nat) : Int :=
  compare (m a).data (m b).data

theorem inorder_of_holds {m : BtreeNodes α} {t : BinaryTree Nat} :
    ∀ {p : Option Nat} {fuel : Nat}, Holds m p t → depth t ≤ fuel →
      btreeInorder fuel m p = some (inorder t) := by
  induction t with
  | nil =>
      intro p fuel h _
      rw [show p = none from h, btreeInorder]
      rfl
  | node a l r ihl ihr =>
      intro p fuel h hfuel
      obtain ⟨rfl, hl, hr⟩ := h
      rw [depth] at hfuel
      obtain ⟨n, rfl⟩ := Nat.exists_eq_add_of_le' (show 1 ≤ fuel by omega)
      rw [btreeInorder, ihl hl (by omega), ihr hr (by omega)]
      rfl

/-! ### Adding a node -/

section

variable {m m' : BtreeNodes α} {a n : Nat} {l r t' : BinaryTree Nat}

theorem nodup_node (h : (inorder (.node a l r)).Nodup) :
    ((inorder l).Nodup ∧ (inorder r).Nodup) ∧ (a ∉ inorder l ∧ a ∉ inorder r) ∧
      ∀ x ∈ inorder l, x ∉ inorder r := by
  rw [inorder, List.nodup_append, List.nodup_cons] at h
  obtain ⟨hl, ⟨har, hr⟩, hcross⟩ := h
  exact ⟨⟨hl, hr⟩, ⟨fun ha => hcross a ha a List.mem_cons_self rfl, har⟩,
    fun x hx hxr => hcross x hx x (List.mem_cons_of_mem _ hxr) rfl⟩

theorem holds_left (h : Holds m (some a) (.node a l r)) (hnodup : (inorder (.node a l r)).Nodup)
    (hothers : ∀ x, x ∉ inorder l → m' x = m x) (hleft : Holds m' (m a).left t') :
    Holds m' (some a) (.node a t' r) := by
  obtain ⟨-, ⟨hal, har⟩, hcross⟩ := nodup_node hnodup
  rw [Holds, hothers a hal]
  exact ⟨rfl, hleft, h.2.2.congr fun x hx => hothers x fun hxl => hcross x hxl hx⟩

theorem holds_right (h : Holds m (some a) (.node a l r)) (hnodup : (inorder (.node a l r)).Nodup)
    (hothers : ∀ x, x ∉ inorder r → m' x = m x) (hright : Holds m' (m a).right t') :
    Holds m' (some a) (.node a l t') := by
  obtain ⟨-, ⟨hal, har⟩, hcross⟩ := nodup_node hnodup
  rw [Holds, hothers a har]
  exact ⟨rfl, h.2.1.congr fun x hx => hothers x (hcross x hx), hright⟩

theorem holds_none {t : BinaryTree Nat} (h : Holds m none t) : t = .nil := by
  cases t with
  | nil => rfl
  | node b _ _ => exact absurd h.1.symm (Option.some_ne_none b)

variable (hne : n ≠ a) (hlinks : (m n).left = none ∧ (m n).right = none)

include hne hlinks

/-- A node without links is a leaf where it is linked. -/
theorem holds_leaf (v : BtreeNode α) :
    Holds (Function.update m a v) (some n) (.node n .nil .nil) := by
  rw [Holds, Function.update_of_ne hne]
  exact ⟨rfl, hlinks⟩

theorem link_left (h : Holds m (some a) (.node a .nil r)) (har : a ∉ inorder r) :
    Holds (Function.update m a { m a with left := some n }) (some a)
      (.node a (.node n .nil .nil) r) := by
  have hleaf := holds_leaf hne hlinks { m a with left := some n }
  rw [Holds, Function.update_self]
  exact ⟨rfl, hleaf, h.2.2.congr fun x hx =>
    Function.update_of_ne (ne_of_mem_of_not_mem hx har) _ _⟩

theorem link_right (h : Holds m (some a) (.node a l .nil)) (hal : a ∉ inorder l) :
    Holds (Function.update m a { m a with right := some n }) (some a)
      (.node a l (.node n .nil .nil)) := by
  have hleaf := holds_leaf hne hlinks { m a with right := some n }
  rw [Holds, Function.update_self]
  exact ⟨rfl, h.2.1.congr fun x hx =>
    Function.update_of_ne (ne_of_mem_of_not_mem hx hal) _ _, hleaf⟩

end

theorem data_update {m : BtreeNodes α} {a : Nat} {v : BtreeNode α} (hv : v.data = (m a).data)
    (x : Nat) : (Function.update m a v x).data = (m x).data := by
  rw [Function.update_apply]
  split
  · rename_i hx
    rw [hx, hv]
  · rfl

/-- A node that may be added: it is not in the tree and has no links, or it is found there. -/
def Addable (compare : α → α → Int) (m : BtreeNodes α) (n : Nat) (t : BinaryTree Nat) : Prop :=
  (n ∉ inorder t ∧ (m n).left = none ∧ (m n).right = none) ∨
    SearchTree.insert (byData compare m) n t = t

/-- **Adding a node** puts it into the tree, and touches the nodes of the tree only. -/
theorem btreeAdd_spec {compare : α → α → Int} {m : BtreeNodes α} {n : Nat} {t : BinaryTree Nat}
    (hnodup : (inorder t).Nodup) (hn : Addable compare m n t) :
    ∀ {root fuel : Nat}, Holds m (some root) t → depth t ≤ fuel →
      ∃ m', btreeAdd compare fuel m root n = some (.etOk, m') ∧
        Holds m' (some root) (SearchTree.insert (byData compare m) n t) ∧
        (∀ x, (m' x).data = (m x).data) ∧ ∀ x, x ∉ inorder t → m' x = m x := by
  induction t with
  | nil => exact fun h => absurd h (Option.some_ne_none _)
  | node a l r ihl ihr =>
      intro root fuel h hfuel
      obtain rfl := Option.some.inj h.1
      obtain ⟨⟨hndl, hndr⟩, ⟨hal, har⟩, -⟩ := nodup_node hnodup
      have hroot : root ∈ inorder (.node root l r) := List.mem_append_right _ List.mem_cons_self
      rw [depth] at hfuel
      obtain ⟨k, rfl⟩ := Nat.exists_eq_add_of_le' (show 1 ≤ fuel by omega)
      rw [Addable, inorder, List.mem_append, List.mem_cons, not_or, not_or,
        SearchTree.insert] at hn
      rw [btreeAdd, SearchTree.insert]
      by_cases hlt : byData compare m n root < 0
      · have hc : compare (m n).data (m root).data < 0 := hlt
        rw [if_pos hlt, BinaryTree.node.injEq] at hn
        rw [if_pos hlt]
        simp only [if_pos hc]
        cases hleft : (m root).left with
        | none =>
            obtain rfl := holds_none (hleft ▸ h.2.1)
            obtain ⟨⟨-, hne, -⟩, hlinks⟩ := hn.resolve_right fun hsame => by cases hsame.2.1
            refine ⟨_, rfl, link_left hne hlinks h har, data_update rfl, fun x hx => ?_⟩
            exact Function.update_of_ne (ne_of_mem_of_not_mem hroot hx).symm _ _
        | some left =>
            obtain ⟨m', hadd, hholds, hdata, hothers⟩ :=
              ihl hndl (hn.imp (fun hnew => ⟨hnew.1.1, hnew.2⟩) fun hsame => hsame.2.1)
                (hleft ▸ h.2.1) (show depth l ≤ k by omega)
            refine ⟨m', hadd, holds_left h hnodup hothers (hleft ▸ hholds), hdata, ?_⟩
            exact fun x hx => hothers x fun hxl => hx (List.mem_append_left _ hxl)
      · have hc : ¬compare (m n).data (m root).data < 0 := hlt
        rw [if_neg hlt] at hn ⊢
        by_cases hgt : 0 < byData compare m n root
        · have hc' : 0 < compare (m n).data (m root).data := hgt
          rw [if_pos hgt, BinaryTree.node.injEq] at hn
          rw [if_pos hgt]
          simp only [if_neg hc, if_pos hc']
          cases hright : (m root).right with
          | none =>
              obtain rfl := holds_none (hright ▸ h.2.2)
              obtain ⟨⟨-, hne, -⟩, hlinks⟩ := hn.resolve_right fun hsame => by cases hsame.2.2
              refine ⟨_, rfl, link_right hne hlinks h hal, data_update rfl, fun x hx => ?_⟩
              exact Function.update_of_ne (ne_of_mem_of_not_mem hroot hx).symm _ _
          | some right =>
              obtain ⟨m', hadd, hholds, hdata, hothers⟩ :=
                ihr hndr (hn.imp (fun hnew => ⟨hnew.1.2.2, hnew.2⟩) fun hsame => hsame.2.2)
                  (hright ▸ h.2.2) (show depth r ≤ k by omega)
              refine ⟨m', hadd, holds_right h hnodup hothers (hright ▸ hholds), hdata, ?_⟩
              exact fun x hx => hothers x fun hxr =>
                hx (List.mem_append_right _ (List.mem_cons_of_mem _ hxr))
        · have hc' : ¬0 < compare (m n).data (m root).data := hgt
          rw [if_neg hgt]
          simp only [if_neg hc, if_neg hc']
          exact ⟨m, rfl, h, fun x => rfl, fun x _ => rfl⟩

/-! ### Sequences of additions -/

/-- It was added, and nothing with its key before it. -/
def First (compare : α → α → Int) (m : BtreeNodes α) (ns : List Nat) (n : Nat) : Prop :=
  ∃ before after, ns = before ++ n :: after ∧ ∀ k ∈ before, byData compare m k n ≠ 0

theorem First.mem {compare : α → α → Int} {m : BtreeNodes α} {ns : List Nat} {n : Nat}
    (h : First compare m ns n) : n ∈ ns := by
  obtain ⟨before, after, rfl, -⟩ := h
  exact List.mem_append_right _ List.mem_cons_self

theorem First.append {compare : α → α → Int} {m : BtreeNodes α} {ns : List Nat} {n : Nat}
    (h : First compare m ns n) (more : List Nat) : First compare m (ns ++ more) n := by
  obtain ⟨before, after, rfl, hbefore⟩ := h
  exact ⟨before, after ++ more, by rw [List.append_assoc, List.cons_append], hbefore⟩

/-- One more is the first with its key if nothing before has that key. -/
theorem first_concat {compare : α → α → Int} {m : BtreeNodes α} {ns : List Nat} {x n : Nat} :
    First compare m (ns ++ [x]) n ↔
      First compare m ns n ∨ n = x ∧ ∀ k ∈ ns, byData compare m k x ≠ 0 := by
  constructor
  · rintro ⟨before, after, heq, hbefore⟩
    rcases List.eq_nil_or_concat after with rfl | ⟨rest, y, rfl⟩
    · obtain ⟨rfl, hx⟩ := List.append_inj' heq rfl
      obtain rfl := (List.cons.inj hx).1
      exact .inr ⟨rfl, hbefore⟩
    · rw [List.concat_eq_append, ← List.cons_append, ← List.append_assoc] at heq
      obtain ⟨rfl, -⟩ := List.append_inj' heq rfl
      exact .inl ⟨before, rest, rfl, hbefore⟩
  · rintro (h | ⟨rfl, hall⟩)
    · exact h.append [x]
    · exact ⟨ns, [], rfl, hall⟩

/-- Every key that was added has a first node. -/
theorem exists_first {compare : α → α → Int} (h : ThreeWay compare) (m : BtreeNodes α)
    (ns : List Nat) : ∀ k ∈ ns, ∃ n, First compare m ns n ∧ byData compare m k n = 0 := by
  have hdata : ThreeWay (byData compare m) := h.comp fun a => (m a).data
  induction ns using List.reverseRecOn with
  | nil => exact fun k hk => absurd hk List.not_mem_nil
  | append_singleton ns x ih =>
      intro k hk
      rw [List.mem_append, List.mem_singleton] at hk
      rcases hk with hk | rfl
      · obtain ⟨n, hn, heq⟩ := ih k hk
        exact ⟨n, hn.append [x], heq⟩
      · by_cases hnew : ∀ j ∈ ns, byData compare m j k ≠ 0
        · exact ⟨k, first_concat.mpr (.inr ⟨rfl, hnew⟩), hdata.self k⟩
        · push Not at hnew
          obtain ⟨j, hj, hjk⟩ := hnew
          obtain ⟨n, hn, heq⟩ := ih j hj
          exact ⟨n, hn.append [k], hdata.eq_trans (hdata.eq_comm.mp hjk) heq⟩

/-- What the tree and the memory are after some nodes were added. -/
structure Built (compare : α → α → Int) (m : BtreeNodes α) (ns : List Nat) (t : Btree α)
    (m' : BtreeNodes α) (shape : BinaryTree Nat) : Prop where
  compares : t.compare = some compare
  holds : Holds m' t.root shape
  ordered : Ordered (byData compare m) shape
  data : ∀ x, (m' x).data = (m x).data
  others : ∀ x, x ∉ inorder shape → m' x = m x
  first : ∀ n, n ∈ inorder shape ↔ First compare m ns n
  small : depth shape ≤ ns.length

theorem Ordered.nodup {compare : α → α → Int} (h : ThreeWay compare) {m : BtreeNodes α}
    {t : BinaryTree Nat} (ht : Ordered (byData compare m) t) : (inorder t).Nodup := by
  have hdata : ThreeWay (byData compare m) := h.comp fun a => (m a).data
  refine ht.imp fun {a b} hab heq => ?_
  rw [heq, hdata.self b] at hab
  exact absurd hab (Int.lt_irrefl 0)

theorem depth_insert (compare : Nat → Nat → Int) (x : Nat) (t : BinaryTree Nat) :
    depth (SearchTree.insert compare x t) ≤ depth t + 1 := by
  induction t with
  | nil => exact Nat.le_refl 1
  | node a l r ihl ihr =>
      rw [SearchTree.insert]
      split
      · rw [depth, depth]
        omega
      · split
        · rw [depth, depth]
          omega
        · exact Nat.le_succ _

/-- **One more addition.** -/
theorem Built.add {compare : α → α → Int} (h : ThreeWay compare) {m m' : BtreeNodes α}
    {ns : List Nat} {t : Btree α} {shape : BinaryTree Nat} (hb : Built compare m ns t m' shape)
    {n fuel : Nat} (hn : (m n).left = none ∧ (m n).right = none) (hfuel : ns.length ≤ fuel) :
    ∃ t' m'', t.add fuel m' n = some (.etOk, t', m'') ∧
      Built compare m (ns ++ [n]) t' m''
        (SearchTree.insert (byData compare m) n shape) := by
  have hdata : ThreeWay (byData compare m) := h.comp fun a => (m a).data
  have hby : byData compare m' = byData compare m := by
    funext a b
    rw [byData, byData, hb.data, hb.data]
  have hfirst : ∀ x, x ∈ inorder (SearchTree.insert (byData compare m) n shape) ↔
      First compare m (ns ++ [n]) x := by
    intro x
    rw [mem_insert_iff hdata n hb.ordered, first_concat, hb.first]
    refine or_congr_right (and_congr_right fun _ => ⟨fun hnew k hk heq => ?_, fun hnew k hk => ?_⟩)
    · obtain ⟨j, hj, hkj⟩ := exists_first h m ns k hk
      exact hnew j ((hb.first j).mpr hj) (hdata.eq_trans (hdata.eq_comm.mp hkj) heq)
    · exact hnew k ((hb.first k).mp hk).mem
  have hlength : (ns ++ [n]).length = ns.length + 1 := by
    rw [List.length_append, List.length_singleton]
  have hsmall : depth (SearchTree.insert (byData compare m) n shape) ≤ (ns ++ [n]).length := by
    have hdepth := depth_insert (byData compare m) n shape
    have := hb.small
    omega
  rw [Btree.add, hb.compares]
  cases hroot : t.root with
  | none =>
      have hnil := holds_none (hroot ▸ hb.holds)
      subst hnil
      refine ⟨_, _, rfl, rfl, ⟨rfl, ?_⟩, Ordered.insert hdata n hb.ordered, hb.data, ?_, hfirst,
        hsmall⟩
      · rw [hb.others n List.not_mem_nil]
        exact hn
      · exact fun x _ => hb.others x List.not_mem_nil
  | some root =>
      have haddable : Addable compare m' n shape := by
        rcases insert_cases hdata n hb.ordered with
          ⟨before, after, hwalk, -, hbefore, hafter⟩ | ⟨hsame, -⟩
        · have hout : n ∉ inorder shape := by
            rw [hwalk, List.mem_append, not_or]
            exact ⟨fun hmem => Int.ne_of_lt (hbefore n hmem) (hdata.self n),
              fun hmem => Int.ne_of_lt (hafter n hmem) (hdata.self n)⟩
          exact .inl ⟨hout, (hb.others n hout).symm ▸ hn⟩
        · exact .inr (hby.symm ▸ hsame)
      obtain ⟨m'', hadd, hholds, hdata', hothers⟩ :=
        btreeAdd_spec (Ordered.nodup h hb.ordered) haddable (hroot ▸ hb.holds)
          (Nat.le_trans hb.small hfuel)
      refine ⟨t, m'', by simp only [hadd]; rfl, hb.compares, ?_, Ordered.insert hdata n hb.ordered,
        fun x => (hdata' x).trans (hb.data x), fun x hx => ?_, hfirst, hsmall⟩
      · rw [hroot, ← hby]
        exact hholds
      · have hout : x ∉ inorder shape := fun hmem =>
          hx (mem_insert_of_mem hdata n hb.ordered hmem)
        exact (hothers x hout).trans (hb.others x hout)

/-- All the additions. -/
theorem Built.adds {compare : α → α → Int} (h : ThreeWay compare) {m : BtreeNodes α} {fuel : Nat}
    (more : List Nat) : ∀ {ns : List Nat} {t : Btree α} {m' : BtreeNodes α}
      {shape : BinaryTree Nat}, Built compare m ns t m' shape →
      (∀ n ∈ more, (m n).left = none ∧ (m n).right = none) → (ns ++ more).length ≤ fuel →
      ∃ t' m'' shape', t.adds fuel m' more = some (t', m'') ∧
        Built compare m (ns ++ more) t' m'' shape' := by
  induction more with
  | nil =>
      intro ns t m' shape hb _ _
      exact ⟨t, m', shape, rfl, (List.append_nil ns).symm ▸ hb⟩
  | cons n more ih =>
      intro ns t m' shape hb hlinks hfuel
      rw [List.forall_mem_cons] at hlinks
      rw [List.length_append, List.length_cons] at hfuel
      obtain ⟨t₁, m₁, hadd, hb₁⟩ := hb.add h hlinks.1 (show ns.length ≤ fuel by omega)
      obtain ⟨t', m'', shape', hadds, hb'⟩ := ih hb₁ hlinks.2 (by
        rw [List.length_append, List.length_append, List.length_singleton]
        omega)
      rw [List.append_assoc, List.singleton_append] at hb'
      exact ⟨t', m'', shape', by rw [Btree.adds, hadd, Option.bind_some, hadds], hb'⟩

/-- What a walk through the tree should be after some nodes were added. -/
structure Walks (compare : α → α → Int) (m : BtreeNodes α) (ns visited : List Nat) : Prop where
  increasing : visited.Pairwise fun a b => byData compare m a b < 0
  first : ∀ n, n ∈ visited ↔ First compare m ns n
  one : ∀ k ∈ ns, ∃! n, n ∈ visited ∧ byData compare m k n = 0

/-- The walk of the code, after these additions to an empty tree. -/
def walk (compare : α → α → Int) (m : BtreeNodes α) (fuel : Nat) (ns : List Nat) :
    Option (List Nat) :=
  ((Btree.init (some compare)).adds fuel m ns).bind fun r => r.1.traverse fuel r.2

theorem walk_walks {compare : α → α → Int} (h : ThreeWay compare) {m : BtreeNodes α}
    {ns : List Nat} (hlinks : ∀ n ∈ ns, (m n).left = none ∧ (m n).right = none) {fuel : Nat}
    (hfuel : ns.length ≤ fuel) :
    ∃ visited, walk compare m fuel ns = some visited ∧ Walks compare m ns visited := by
  have hempty : Built compare m [] (.init (some compare)) m .nil :=
    ⟨rfl, rfl, List.Pairwise.nil, fun _ => rfl, fun _ _ => rfl, fun n =>
      iff_of_false List.not_mem_nil fun hn => absurd hn.mem List.not_mem_nil, Nat.le_refl 0⟩
  obtain ⟨t, m', shape, hadds, hb⟩ := Built.adds h ns hempty hlinks hfuel
  refine ⟨inorder shape, ?_, hb.ordered, hb.first, fun k hk => ?_⟩
  · rw [walk, hadds, Option.bind_some]
    exact inorder_of_holds hb.holds (Nat.le_trans hb.small hfuel)
  · have hdata : ThreeWay (byData compare m) := h.comp fun a => (m a).data
    obtain ⟨n, hn, hkn⟩ := exists_first h m ns k hk
    refine ⟨n, ⟨(hb.first n).mpr hn, hkn⟩, fun x hx => ?_⟩
    have hxn := hdata.eq_trans (hdata.eq_comm.mp hx.2) hkn
    by_contra hne
    -- two nodes of an increasing walk do not compare as 0
    have hdistinct : (inorder shape).Pairwise fun a b => byData compare m a b ≠ 0 :=
      hb.ordered.imp fun hlt => Int.ne_of_lt hlt
    have : Std.Symm fun a b => byData compare m a b ≠ 0 :=
      ⟨fun a b hab hba => hab (hdata.eq_comm.mp hba)⟩
    exact hdistinct.forall hx.1 ((hb.first n).mpr hn) hne hxn

/-- **A search tree of the first nodes**: the walk is strictly increasing, it has exactly one node
for every key, the one that was added first, and no node that was there before is lost. -/
theorem btree_adds {compare : α → α → Int} (h : ThreeWay compare) {m : BtreeNodes α}
    {ns : List Nat} (hlinks : ∀ n ∈ ns, (m n).left = none ∧ (m n).right = none) {fuel : Nat}
    (hfuel : ns.length ≤ fuel) :
    ∃ visited, walk compare m fuel ns = some visited ∧ Walks compare m ns visited ∧
      ∀ earlier, earlier <+: ns →
        ∃ before, walk compare m fuel earlier = some before ∧ before ⊆ visited := by
  obtain ⟨visited, hwalk, hwalks⟩ := walk_walks h hlinks hfuel
  refine ⟨visited, hwalk, hwalks, ?_⟩
  rintro earlier ⟨more, rfl⟩
  have hlength : earlier.length ≤ fuel :=
    Nat.le_trans (List.length_append ▸ Nat.le_add_right _ _) hfuel
  obtain ⟨before, hwalk', hwalks'⟩ :=
    walk_walks h (fun n hn => hlinks n (List.mem_append_left _ hn)) hlength
  refine ⟨before, hwalk', fun n hn => ?_⟩
  exact (hwalks.first n).mpr (((hwalks'.first n).mp hn).append more)

/-- Nodes whose data is their address. -/
def numbered : BtreeNodes Int := fun n => { left := none, right := none, data := n }

/-- Four nodes by their numbers, one of them twice. -/
theorem btree_adds_four :
    ∃ visited, walk (fun a b => a - b) numbered 5 [4, 2, 1, 3, 2] = some visited ∧
      Walks (fun a b => a - b) numbered [4, 2, 1, 3, 2] visited ∧
      ∀ earlier, earlier <+: [4, 2, 1, 3, 2] →
        ∃ before, walk (fun a b => a - b) numbered 5 earlier = some before ∧ before ⊆ visited :=
  btree_adds ⟨fun a b => by omega, fun a b c => by omega⟩ (fun _ _ => ⟨rfl, rfl⟩) (by decide)

example : walk (fun a b => a - b) numbered 5 [4, 2, 1, 3, 2] = some [1, 2, 3, 4] := by rfl

end Awoke
