/-
When the history is copied to its place among the points to be stored.

`stored` is what one turn of the loop does to the list of the store, and `copied` what the loop
does; `storePoint_holds` and `copies_ends` say so of the queues.

`history_copy_iff` says when the store then is what it should be: the points it had and those that
came out of the cache at a new time, in the order of time.  That depends on the times that were
there when a point came up, and `Placed` says which it may have.  A point that is left out stays out:
`Barred` says of a time that nothing can be put where it belongs, and every turn keeps that.  And
a time that is in the store twice stays there twice, since nothing is taken out.
-/
import Awoke.Gps.History
import Awoke.Lib.Increasing
import Awoke.Lib.Scan
import Awoke.Proofs.Queue

namespace Awoke.Gps

open Keyed (Increasing keys firsts)

variable {n : Nat} {flag : BitVec 16} {ins : Bool} {q : Queue GpsPoint} {c p : GpsPoint}
  {s s' cs mid rest : List GpsPoint} {seen : Finset Int} {t : Int}

/-- The times of some points. -/
abbrev times (s : List GpsPoint) : Finset Int := keys GpsPoint.time s

theorem times_middle : times (mid ++ p :: rest) = insert p.time (times (mid ++ rest)) :=
  Keyed.keys_middle

/-- Each point is later than those before it. -/
abbrev InTime (s : List GpsPoint) : Prop := Increasing GpsPoint.time s

/-! ### One point -/

/-- What `history_copy_one` makes of the points in the store; `ins` is whether it has the flag
`IN`. -/
def stored (ins : Bool) (s : List GpsPoint) (p : GpsPoint) : List GpsPoint :=
  match s.getLast? with
  | none => [p]
  | some see =>
      if see.time = p.time then s
      else if see.time < p.time then s ++ [p]
      else
        let front := s.takeWhile fun see => ¬p.time < see.time
        if ins = true ∧ 2 ≤ front.length then
          front ++ p :: s.dropWhile fun see => ¬p.time < see.time
        else s

/-- A store is cut at a time: what is not later is in front. -/
structure Cut (t : Int) (s mid rest : List GpsPoint) : Prop where
  eq : s = mid ++ rest
  front : ∀ b ∈ mid, ¬t < b.time
  behind : ∀ b ∈ rest.head?, t < b.time

theorem exists_cut (t : Int) (s : List GpsPoint) : ∃ mid rest, Cut t s mid rest := by
  obtain ⟨mid, rest, heq, hmid, hrest⟩ := Scan.exists_scan (fun b : GpsPoint => t < b.time) s
  exact ⟨mid, rest, heq, hmid, hrest⟩

theorem Cut.takeWhile_eq (h : Cut t s mid rest) : (s.takeWhile fun see => ¬t < see.time) = mid := by
  rw [h.eq, List.takeWhile_append_of_pos fun b hb => decide_eq_true (h.front b hb)]
  cases rest with
  | nil => rw [List.takeWhile_nil, List.append_nil]
  | cons b rest =>
      have hb := h.behind b rfl
      rw [List.takeWhile_cons_of_neg (by simpa using hb), List.append_nil]

theorem Cut.dropWhile_eq (h : Cut t s mid rest) :
    (s.dropWhile fun see => ¬t < see.time) = rest := by
  have hsplit := List.takeWhile_append_dropWhile (p := fun see => decide ¬t < see.time) (l := s)
  rw [h.takeWhile_eq, h.eq] at hsplit
  rw [h.eq]
  exact List.append_cancel_left hsplit

/-- What one turn can do to the store. -/
inductive StoredBy (ins : Bool) (s : List GpsPoint) (p : GpsPoint) : List GpsPoint → Prop
  | first (hnil : s = []) : StoredBy ins s p (s ++ [p])
  | latest {see : GpsPoint} (hsee : s.getLast? = some see) (hlt : see.time < p.time) :
      StoredBy ins s p (s ++ [p])
  | again {see : GpsPoint} (hsee : s.getLast? = some see) (heq : see.time = p.time) :
      StoredBy ins s p s
  | between {mid rest : List GpsPoint} (hcut : Cut p.time s mid rest) (hrest : rest ≠ [])
      (hins : ins = true) (htwo : 2 ≤ mid.length) : StoredBy ins s p (mid ++ p :: rest)
  | dropped {mid rest : List GpsPoint} (hcut : Cut p.time s mid rest) (hrest : rest ≠ [])
      (hone : ins = true → mid.length < 2) : StoredBy ins s p s

/-- Where a point is later than the one of `p`, the part behind the cut is not empty. -/
theorem Cut.behind_ne_nil (h : Cut t s mid rest) {x : GpsPoint} (hx : x ∈ s) (ht : t < x.time) :
    rest ≠ [] := by
  rintro rfl
  rw [h.eq, List.append_nil] at hx
  exact h.front x hx ht

theorem stored_cut {see : GpsPoint} (hsee : s.getLast? = some see) (hgt : p.time < see.time)
    (h : Cut p.time s mid rest) :
    stored ins s p = if ins = true ∧ 2 ≤ mid.length then mid ++ p :: rest else s := by
  simp only [stored, hsee]
  rw [if_neg (Int.ne_of_gt hgt), if_neg (Int.not_lt.mpr (Int.le_of_lt hgt)), h.takeWhile_eq,
    h.dropWhile_eq]

/-- **One turn** stores a point in one of these ways. -/
theorem stored_by (ins : Bool) (s : List GpsPoint) (p : GpsPoint) :
    StoredBy ins s p (stored ins s p) := by
  cases hsee : s.getLast? with
  | none =>
      have hnil := List.getLast?_eq_none_iff.mp hsee
      have hstored : stored ins s p = s ++ [p] := by rw [stored, hsee, hnil, List.nil_append]
      rw [hstored]
      exact .first hnil
  | some see =>
      rcases Int.lt_trichotomy see.time p.time with hlt | heq | hgt
      · have hstored : stored ins s p = s ++ [p] := by
          simp only [stored, hsee]
          rw [if_neg (Int.ne_of_lt hlt), if_pos hlt]
        rw [hstored]
        exact .latest hsee hlt
      · have hstored : stored ins s p = s := by
          simp only [stored, hsee]
          rw [if_pos heq]
        exact hstored.symm ▸ .again hsee heq
      · obtain ⟨mid, rest, hcut⟩ := exists_cut p.time s
        have hrest := hcut.behind_ne_nil (List.mem_of_getLast? hsee) hgt
        rw [stored_cut hsee hgt hcut]
        split
        · rename_i hboth
          exact .between hcut hrest hboth.1 hboth.2
        · rename_i hnot
          exact .dropped hcut hrest fun hins => Nat.lt_of_not_le fun htwo => hnot ⟨hins, htwo⟩

/-! ### One point, in the queue -/

theorem enq_holds (h : Queue.Holds n flag q s) (hroom : s.length < n) (p : GpsPoint) :
    Queue.Holds n flag (q.enq p).2 (s ++ [p]) := by
  have henq := (Queue.enq_ok (by omega) h p).2
  simp only [Queue.call, Queue.spec, if_neg (Nat.ne_of_lt hroom)] at henq
  exact henq

theorem get_holds (h : Queue.Holds n flag q s) {i : Nat} (hi : i < s.length) :
    (q.get i).2 = s[i] := by
  have hne : s ≠ [] := List.ne_nil_of_length_pos (by omega)
  simp [Queue.get, h.empty_eq, hne, h.getElem hi]

theorem last_holds (h : Queue.Holds n flag q s) {see : GpsPoint} (hsee : s.getLast? = some see) :
    q.last.2 = see := by
  have hne : s ≠ [] := by
    rintro rfl
    exact absurd hsee (by simp)
  have hlen := Queue.elems_length q
  rw [h.elems] at hlen
  have hpos := List.length_pos_of_ne_nil hne
  have hcurr : q.curr = (s.length - 1 : Nat) := by omega
  rw [List.getLast?_eq_getElem?, List.getElem?_eq_getElem (by omega), Option.some.injEq] at hsee
  simp [Queue.last, h.empty_eq, hne, hcurr, h.getElem (show s.length - 1 < s.length by omega), hsee]

/-- The loop comes to the cut. -/
theorem laterIndex_holds (h : Queue.Holds n flag q s) (hcut : Cut p.time s mid rest)
    (hrest : rest ≠ []) : laterIndex q p = mid.length - 1 := by
  have hsize : q.size.toNat = s.length := by rw [← h.elems, Queue.elems_length, Queue.size]
  have hlength : mid.length < s.length := by
    have := List.length_pos_of_ne_nil hrest
    rw [hcut.eq, List.length_append]
    omega
  have hfirst : Search.first (fun i => p.time < (q.get i).2.time) 0 q.size.toNat =
      some (mid.length : Int) := by
    rw [Search.first_eq_some_iff, hsize]
    refine ⟨by omega, by omega, ?_, fun j hlow hhigh => ?_⟩
    · rw [get_holds h hlength]
      refine hcut.behind _ ?_
      simp [hcut.eq, List.head?_eq_getElem?]
    · obtain ⟨i, rfl⟩ := Int.eq_ofNat_of_zero_le hlow
      have hi : i < mid.length := by omega
      have hget : s[i] = mid[i] := by
        simp only [hcut.eq]
        exact List.getElem_append_left hi
      rw [get_holds h (by omega), hget]
      exact hcut.front _ (List.getElem_mem hi)
  rw [laterIndex, hfirst]

/-- **One point** is stored in the queue as in the list, as long as there is room. -/
theorem storePoint_holds (h : Queue.Holds n flag q s) (hroom : s.length < n) (p : GpsPoint) :
    Queue.Holds n flag (storePoint q p) (stored (maskExst flag Queue.flagIN) s p) := by
  rw [storePoint, h.empty_eq]
  by_cases hnil : s = []
  · subst hnil
    exact enq_holds h hroom p
  rw [decide_eq_false hnil, if_neg Bool.false_ne_true]
  obtain ⟨see, hsee⟩ := Option.isSome_iff_exists.mp (List.getLast?_isSome.mpr hnil)
  simp only [last_holds h hsee]
  by_cases heq : see.time = p.time
  · simpa only [stored, hsee, if_pos heq] using h
  rw [if_neg heq]
  by_cases hlt : see.time < p.time
  · rw [if_pos hlt]
    simpa only [stored, hsee, if_neg heq, if_pos hlt] using enq_holds h hroom p
  rw [if_neg hlt]
  obtain ⟨mid, rest, hcut⟩ := exists_cut p.time s
  have hgt : p.time < see.time := by omega
  have hrest := hcut.behind_ne_nil (List.mem_of_getLast? hsee) hgt
  rw [stored_cut hsee hgt hcut, laterIndex_holds h hcut hrest]
  by_cases hmid : 2 ≤ mid.length
  · rw [if_pos (by omega)]
    have hlen := Queue.elems_length q
    rw [h.elems, hcut.eq, List.length_append] at hlen
    obtain ⟨i, hi⟩ : ∃ i, mid.length = i + 1 := ⟨mid.length - 1, by omega⟩
    have hindex : (mid.length : Int) - 1 = i := by omega
    rw [hindex]
    cases hin : maskExst flag Queue.flagIN with
    | false =>
        rw [if_neg (by simp), Queue.insertAfter, h.flag, hin]
        exact h
    | true =>
        have hinsert := (Queue.insertAfter_ok (by omega) h p (i := i) (by omega) hin).2
        simp only [Queue.call, Queue.spec, if_neg (Nat.ne_of_lt hroom)] at hinsert
        rw [if_pos ⟨rfl, hmid⟩]
        rw [hcut.eq, ← hi, List.take_left, List.drop_left] at hinsert
        exact hinsert
  · rw [if_neg (by omega), if_neg fun hboth => hmid hboth.2]
    exact h

/-! ### The loop -/

/-- What the loop leaves of the store and of the cache. -/
def copied (ins : Bool) (n : Nat) : List GpsPoint → List GpsPoint → List GpsPoint × List GpsPoint
  | s, [] => (s, [])
  | s, p :: cs => if s.length = n then (s, p :: cs) else copied ins n (stored ins s p) cs

/-- `history_points_copy` ends with `r`. -/
def Copies (s r : GpsHistory × Queue GpsPoint) : Prop :=
  WhileLoop.Ends (fun s => !s.2.full && !s.1.qCache.empty)
    (fun s => .next (historyCopyOne s.1 s.2)) (fun s => (selectClean s.1, s.2)) s r

theorem copies_done {history : GpsHistory} {r : GpsHistory × Queue GpsPoint}
    (h : q.full = true ∨ history.qCache.empty = true) :
    Copies (history, q) r ↔ r = (selectClean history, q) := by
  refine WhileLoop.ends_of_last ?_
  rcases h with h | h <;> simp [h]

theorem copies_next {history : GpsHistory} {r : GpsHistory × Queue GpsPoint}
    (hroom : q.full = false) (hmore : history.qCache.empty = false) :
    Copies (history, q) r ↔ Copies (historyCopyOne history q) r :=
  WhileLoop.ends_of_next (by simp [hroom, hmore]) rfl

theorem selectClean_qCache (history : GpsHistory) :
    (selectClean history).qCache = history.qCache := by
  unfold selectClean
  split <;> rfl

/-- **The loop ends**, with the queues holding what is left. -/
theorem copies_ends {m : Nat} {flag' : BitVec 16} (cs : List GpsPoint) :
    ∀ (s : List GpsPoint) (history : GpsHistory) (q : Queue GpsPoint),
      Queue.Holds m flag' history.qCache cs → Queue.Holds n flag q s →
      ∃ history' q', Copies (history, q) (history', q') ∧
        Queue.Holds m flag' history'.qCache (copied (maskExst flag Queue.flagIN) n s cs).2 ∧
        Queue.Holds n flag q' (copied (maskExst flag Queue.flagIN) n s cs).1 := by
  induction cs with
  | nil =>
      intro s history q hcache hstore
      refine ⟨_, q, (copies_done (.inr ?_)).mpr rfl, ?_, hstore⟩
      · rw [hcache.empty_eq, decide_eq_true rfl]
      · rw [selectClean_qCache]
        exact hcache
  | cons p cs ih =>
      intro s history q hcache hstore
      rw [copied]
      by_cases hfull : s.length = n
      · rw [if_pos hfull]
        refine ⟨_, q, (copies_done (.inl ((Queue.full_iff hstore).mpr hfull))).mpr rfl, ?_, hstore⟩
        rw [selectClean_qCache]
        exact hcache
      · have hlen := Queue.elems_length q
        rw [hstore.elems] at hlen
        have hhigh := hstore.high
        have hnot : q.full = false := by
          rw [← Bool.not_eq_true, Queue.full_iff hstore]
          exact hfull
        have hmore : history.qCache.empty = false := by
          rw [hcache.empty_eq, decide_eq_false (List.cons_ne_nil p cs)]
        obtain ⟨-, hp, hdeq, -⟩ := hcache.deq
        have hone : historyCopyOne history q =
            ({ history with qCache := history.qCache.deq.2.2 }, storePoint q p) := by
          rw [← hp]
          rfl
        rw [if_neg hfull]
        obtain ⟨history', q', hends, hrest⟩ :=
          ih _ { history with qCache := history.qCache.deq.2.2 } _ hdeq
            (storePoint_holds hstore (by omega) p)
        refine ⟨history', q', (copies_next hnot hmore).mpr ?_, hrest⟩
        rw [hone]
        exact hends

/-! ### Where a point belongs -/

/-- With these times in the store a point of time `t` is left where it belongs: it is the latest,
or its time is there and is not taken for a later one's, or it is new and comes behind two. -/
def Placed (ins : Bool) (seen : Finset Int) (t : Int) : Prop :=
  (∀ u ∈ seen, u ≤ t) ∨ t ∈ seen ∧ (ins = true → ∀ u ∈ seen, t ≤ u) ∨
    t ∉ seen ∧ ins = true ∧ ∃ u ∈ seen, ∃ v ∈ seen, u < v ∧ v < t

instance (ins : Bool) (seen : Finset Int) (t : Int) : Decidable (Placed ins seen t) :=
  inferInstanceAs (Decidable (_ ∨ _ ∧ _ ∨ _ ∧ _ ∧ _))

/-- The store after a point that was left where it belongs. -/
structure Stored (s : List GpsPoint) (p : GpsPoint) (s' : List GpsPoint) : Prop where
  inTime : InTime s'
  mem : ∀ x, x ∈ s' ↔ x ∈ s ∨ x = p ∧ p.time ∉ times s
  length : s'.length = s.length + if p.time ∈ times s then 0 else 1
  times : times s' = insert p.time (times s)

theorem Stored.same (hs : InTime s) (hp : p.time ∈ Gps.times s) : Stored s p s where
  inTime := hs
  mem x := (or_iff_left fun h => h.2 hp).symm
  length := by rw [if_pos hp, Nat.add_zero]
  times := (Finset.insert_eq_of_mem hp).symm

theorem Stored.put (hs : InTime (mid ++ p :: rest)) (hp : p.time ∉ Gps.times (mid ++ rest)) :
    Stored (mid ++ rest) p (mid ++ p :: rest) where
  inTime := hs
  mem x := by
    rw [and_iff_left hp, List.mem_append, List.mem_append, List.mem_cons]
    tauto
  length := by
    rw [if_neg hp, List.length_append, List.length_append, List.length_cons, Nat.add_assoc]
  times := times_middle

theorem Cut.insert_iff (hs : InTime s) (h : Cut p.time s mid rest) :
    InTime (mid ++ p :: rest) ↔ p.time ∉ times s := by
  obtain rfl := h.eq
  exact hs.insert_iff (fun b hb => Int.not_lt.mp (h.front b hb)) h.behind

theorem Cut.mem_front (h : Cut t s mid rest) (hs : InTime s) {x : GpsPoint} (hx : x ∈ s)
    (ht : x.time ≤ t) : x ∈ mid := by
  obtain rfl := h.eq
  refine (List.mem_append.mp hx).resolve_right fun hrest => ?_
  have := hs.lt_behind h.behind hrest
  omega

theorem Cut.two_le (h : Cut t s mid rest) (hs : InTime s) {u v : Int} (hu : u ∈ times s)
    (hv : v ∈ times s) (huv : u < v) (hvt : v ≤ t) : 2 ≤ mid.length := by
  obtain ⟨x, hx, rfl⟩ := Keyed.mem_keys.mp hu
  obtain ⟨y, hy, rfl⟩ := Keyed.mem_keys.mp hv
  have hx := h.mem_front hs hx (by omega)
  have hy := h.mem_front hs hy hvt
  match mid with
  | [] => exact absurd hx List.not_mem_nil
  | [z] =>
      rw [List.mem_singleton] at hx hy
      rw [hx, hy] at huv
      exact absurd huv (Int.lt_irrefl _)
  | _ :: _ :: _ => simp

theorem exists_two (h : 2 ≤ mid.length) : ∃ y z rest, mid = y :: z :: rest := by
  obtain ⟨y, rest, rfl⟩ := List.exists_cons_of_length_pos (by omega : 0 < mid.length)
  rw [List.length_cons] at h
  obtain ⟨z, rest, rfl⟩ := List.exists_cons_of_length_pos (by omega : 0 < rest.length)
  exact ⟨y, z, rest, rfl⟩

theorem Cut.lt_two (h : Cut t s mid rest) (hs : InTime s) (ht : ∀ u ∈ times s, t ≤ u) :
    mid.length < 2 := by
  by_contra htwo
  obtain ⟨y, z, mid, rfl⟩ := exists_two (Nat.le_of_not_lt htwo)
  obtain rfl := h.eq
  have hyz : y.time < z.time := (List.pairwise_cons.mp hs).1 z (by simp)
  have hz := h.front z (by simp)
  have hy := ht y.time (Keyed.key_mem (by simp))
  omega

theorem Cut.not_latest (h : Cut t s mid rest) (hrest : rest ≠ []) : ¬∀ u ∈ times s, u ≤ t := by
  intro hmax
  obtain ⟨b, rest, rfl⟩ := List.exists_cons_of_ne_nil hrest
  have hlate := h.behind b rfl
  have hle := hmax b.time (Keyed.key_mem (by rw [h.eq]; simp))
  omega

theorem le_getLast (hs : InTime s) {see x : GpsPoint} (hsee : s.getLast? = some see)
    (hx : x ∈ s) : x.time ≤ see.time := by
  obtain ⟨s', rfl⟩ := List.getLast?_eq_some_iff.mp hsee
  exact hs.le_last hx

theorem le_of_mem_times {u : Int} (h : ∀ x ∈ s, x.time ≤ t) (hu : u ∈ times s) : u ≤ t := by
  obtain ⟨x, hx, rfl⟩ := Keyed.mem_keys.mp hu
  exact h x hx

/-- **A point that has its place** is left there, and no other is touched. -/
theorem StoredBy.placed (h : StoredBy ins s p s') (hs : InTime s)
    (hp : Placed ins (times s) p.time) : Stored s p s' := by
  cases h with
  | first hnil =>
      subst hnil
      have hput : Stored ([] ++ []) p ([] ++ [p]) :=
        Stored.put (List.pairwise_singleton _ p) (Finset.notMem_empty _)
      exact hput
  | latest hsee hlt =>
      have hnew := hs.concat (c := p) fun z hz => by
        rw [hsee, Option.mem_some_iff] at hz
        exact hz ▸ hlt
      have hput : Stored (s ++ []) p (s ++ [p]) :=
        Stored.put hnew.1 (by rw [List.append_nil]; exact hnew.2)
      rwa [List.append_nil] at hput
  | again hsee heq => exact Stored.same hs (heq ▸ Keyed.key_mem (List.mem_of_getLast? hsee))
  | between hcut hrest hins htwo =>
      have hnew : p.time ∉ times s := by
        rcases hp with hmax | ⟨-, hmin⟩ | ⟨hnew, -⟩
        · exact absurd hmax (hcut.not_latest hrest)
        · have := hcut.lt_two hs (hmin hins)
          omega
        · exact hnew
      have hput := Stored.put ((hcut.insert_iff hs).mpr hnew) (hcut.eq ▸ hnew)
      rwa [← hcut.eq] at hput
  | dropped hcut hrest hone =>
      refine Stored.same hs ?_
      rcases hp with hmax | ⟨hold, -⟩ | ⟨-, hins, u, hu, v, hv, huv, hvt⟩
      · exact absurd hmax (hcut.not_latest hrest)
      · exact hold
      · have := hcut.two_le hs hu hv huv (by omega)
        have := hone hins
        omega

/-! ### What stays wrong -/

/-- No point of time `t` can be put into the store. -/
structure Barred (ins : Bool) (s : List GpsPoint) (t : Int) : Prop where
  ne_nil : s ≠ []
  last : ∀ z ∈ s.getLast?, t < z.time
  new : t ∉ times s
  behind : ins = true → ∀ b ∈ s.tail, t < b.time

/-- **A point that has no place** is left out for ever, or is there twice. -/
theorem StoredBy.not_placed (h : StoredBy ins s p s') (hs : InTime s)
    (hp : ¬Placed ins (times s) p.time) : Barred ins s p.time ∨ ¬InTime s' := by
  cases h with
  | first hnil =>
      subst hnil
      exact absurd (.inl fun u hu => absurd hu (Finset.notMem_empty u)) hp
  | latest hsee hlt =>
      refine absurd (.inl fun u hu => le_of_mem_times (fun x hx => ?_) hu) hp
      exact Int.le_trans (le_getLast hs hsee hx) (Int.le_of_lt hlt)
  | again hsee heq =>
      refine absurd (.inl fun u hu => le_of_mem_times (fun x hx => ?_) hu) hp
      exact heq ▸ le_getLast hs hsee hx
  | @between mid rest hcut hrest hins htwo =>
      refine .inr fun hs' => hp ?_
      have hnew := (hcut.insert_iff hs).mp hs'
      obtain ⟨y, z, mid, rfl⟩ := exists_two htwo
      obtain rfl := hcut.eq
      have hyz : y.time < z.time := (List.pairwise_cons.mp hs).1 z (by simp)
      have hy : y.time ∈ times (y :: z :: mid ++ rest) := Keyed.key_mem (by simp)
      have hz : z.time ∈ times (y :: z :: mid ++ rest) := Keyed.key_mem (by simp)
      have hle := hcut.front z (by simp)
      have hne : z.time ≠ p.time := fun heq => hnew (heq ▸ hz)
      exact .inr (.inr ⟨hnew, hins, _, hy, _, hz, hyz, by omega⟩)
  | @dropped mid rest hcut hrest hone =>
      obtain rfl := hcut.eq
      have hlate : ∀ b ∈ rest, p.time < b.time := fun b hb => hs.lt_behind hcut.behind hb
      by_cases hold : p.time ∈ times (mid ++ rest)
      · refine absurd (.inr (.inl ⟨hold, fun hins u hu => ?_⟩)) hp
        obtain ⟨x, hx, hxp⟩ := Keyed.mem_keys.mp hold
        obtain ⟨y, hy, rfl⟩ := Keyed.mem_keys.mp hu
        have hxmid := hcut.mem_front hs hx (Int.le_of_eq hxp)
        rcases List.mem_append.mp hy with hymid | hyrest
        · have hxy : y = x := by
            match mid, hone hins with
            | [z], _ => rw [List.mem_singleton.mp hxmid, List.mem_singleton.mp hymid]
          rw [hxy, hxp]
        · exact Int.le_of_lt (hlate y hyrest)
      · refine .inl ⟨by simp [hrest], fun z hz => ?_, hold, fun hins b hb => hlate b ?_⟩
        · rw [List.getLast?_append_of_ne_nil _ hrest] at hz
          exact hlate z (List.mem_of_getLast? hz)
        · match mid, hone hins with
          | [], _ => exact List.mem_of_mem_tail hb
          | [_], _ => exact hb

theorem Barred.storedBy (h : Barred ins s t) (hp : StoredBy ins s p s') : Barred ins s' t := by
  cases hp with
  | first hnil => exact absurd hnil h.ne_nil
  | latest hsee hlt =>
      have htp : t < p.time := Int.lt_trans (h.last _ hsee) hlt
      refine ⟨by simp, fun y hy => ?_, ?_, fun hins b hb => ?_⟩
      · rw [List.getLast?_concat, Option.mem_some_iff] at hy
        exact hy ▸ htp
      · rw [times_middle, List.append_nil, Finset.mem_insert, not_or]
        exact ⟨Int.ne_of_lt htp, h.new⟩
      · rw [List.tail_append_of_ne_nil h.ne_nil, List.mem_append, List.mem_singleton] at hb
        rcases hb with hb | rfl
        · exact h.behind hins b hb
        · exact htp
  | again => exact h
  | @between mid rest hcut hrest hins htwo =>
      obtain ⟨y, z, mid, rfl⟩ := exists_two htwo
      obtain rfl := hcut.eq
      have hz : t < z.time := h.behind hins z (by simp)
      have htp : t < p.time := by
        have := hcut.front z (by simp)
        omega
      refine ⟨by simp, fun x hx => h.last x ?_, ?_, fun _ b hb => ?_⟩
      · rw [List.getLast?_append_of_ne_nil _ (List.cons_ne_nil p rest)] at hx
        rw [List.getLast?_append_of_ne_nil _ hrest]
        rwa [List.getLast?_cons_of_ne_nil hrest] at hx
      · rw [times_middle, Finset.mem_insert, not_or]
        exact ⟨Int.ne_of_lt htp, h.new⟩
      · have hb : b = p ∨ b ∈ (y :: z :: mid ++ rest).tail := by
          simp only [List.cons_append, List.tail_cons, List.mem_cons, List.mem_append] at hb ⊢
          tauto
        rcases hb with rfl | hb
        · exact htp
        · exact h.behind hins b hb
  | dropped => exact h

theorem Barred.copied (cs : List GpsPoint) : ∀ {s : List GpsPoint}, Barred ins s t →
    Barred ins (copied ins n s cs).1 t := by
  induction cs with
  | nil => exact fun h => h
  | cons p cs ih =>
      intro s h
      rw [Gps.copied]
      split
      · exact h
      · exact ih (h.storedBy (stored_by ins s p))

theorem StoredBy.sublist (h : StoredBy ins s p s') : s.Sublist s' := by
  cases h with
  | first | latest => exact List.sublist_append_left s [p]
  | again | dropped => exact List.Sublist.refl s
  | @between mid rest hcut =>
      rw [hcut.eq]
      exact (List.sublist_cons_self p rest).append_left mid

theorem copied_sublist (cs : List GpsPoint) : ∀ s : List GpsPoint,
    s.Sublist (copied ins n s cs).1 := by
  induction cs with
  | nil => exact fun s => List.Sublist.refl s
  | cons p cs ih =>
      intro s
      rw [copied]
      split
      · exact List.Sublist.refl s
      · exact (stored_by ins s p).sublist.trans (ih _)

theorem copied_length_le (cs : List GpsPoint) : ∀ s : List GpsPoint,
    (copied ins n s cs).2.length ≤ cs.length := by
  induction cs with
  | nil => exact fun s => Nat.le_refl 0
  | cons p cs ih =>
      intro s
      rw [copied]
      split
      · exact Nat.le_refl _
      · exact Nat.le_succ_of_le (ih _)

/-! ### The whole history -/

/-- **The store is merged with the first `k` points of the cache**, and each of these came up while
there was room. -/
structure Merged (n : Nat) (s cs s' : List GpsPoint) (k : Nat) : Prop where
  inTime : InTime s'
  mem : ∀ x, x ∈ s' ↔ x ∈ s ∨ x ∈ firsts GpsPoint.time (times s) (cs.take k)
  room : ∀ j < k, s.length + (firsts GpsPoint.time (times s) (cs.take j)).length < n

/-- Every point that comes up while there is room has a place among the times that were there. -/
def AllPlaced (ins : Bool) (n : Nat) (s cs : List GpsPoint) : Prop :=
  ∀ (j : Nat) (hj : j < cs.length),
    s.length + (firsts GpsPoint.time (times s) (cs.take j)).length < n →
      Placed ins (times s ∪ times (cs.take j)) cs[j].time

instance (ins : Bool) (n : Nat) (s cs : List GpsPoint) : Decidable (AllPlaced ins n s cs) :=
  inferInstanceAs (Decidable (∀ (j : Nat) (_ : j < cs.length), _ < n → _))

theorem Stored.firsts_cons (h : Stored s p s') (ps : List GpsPoint) :
    firsts GpsPoint.time (Gps.times s) (p :: ps) =
      if p.time ∈ Gps.times s then firsts GpsPoint.time (Gps.times s') ps
      else p :: firsts GpsPoint.time (Gps.times s') ps := by
  rw [h.times]
  rfl

theorem Stored.count_cons (h : Stored s p s') (ps : List GpsPoint) :
    s.length + (firsts GpsPoint.time (Gps.times s) (p :: ps)).length =
      s'.length + (firsts GpsPoint.time (Gps.times s') ps).length := by
  rw [h.firsts_cons, h.length]
  split
  · rfl
  · rw [List.length_cons]
    omega

theorem Stored.mem_cons (h : Stored s p s') (ps : List GpsPoint) (x : GpsPoint) :
    x ∈ s ∨ x ∈ firsts GpsPoint.time (Gps.times s) (p :: ps) ↔
      x ∈ s' ∨ x ∈ firsts GpsPoint.time (Gps.times s') ps := by
  rw [h.firsts_cons, h.mem]
  split
  · rename_i hold
    rw [or_iff_left (fun hx => hx.2 hold : ¬(x = p ∧ p.time ∉ Gps.times s))]
  · rename_i hnew
    rw [and_iff_left hnew, List.mem_cons, or_assoc]

/-- The merge goes on behind a point that is stored where it belongs. -/
theorem Stored.merged_iff (h : Stored s p s') {r : List GpsPoint} {k : Nat} (hroom : s.length < n) :
    Merged n s (p :: cs) r (k + 1) ↔ Merged n s' cs r k := by
  constructor
  · intro hm
    refine ⟨hm.inTime, fun x => ?_, fun j hj => ?_⟩
    · rw [hm.mem, List.take_succ_cons, h.mem_cons]
    · have hlt := hm.room (j + 1) (by omega)
      rwa [List.take_succ_cons, h.count_cons] at hlt
  · intro hm
    refine ⟨hm.inTime, fun x => ?_, fun j hj => ?_⟩
    · rw [hm.mem, List.take_succ_cons, h.mem_cons]
    · cases j with
      | zero => exact hroom
      | succ j =>
          rw [List.take_succ_cons, h.count_cons]
          exact hm.room j (by omega)

theorem union_times_nil : seen ∪ times [] = seen := Finset.union_empty seen

theorem AllPlaced.head (h : AllPlaced ins n s (p :: cs)) (hroom : s.length < n) :
    Placed ins (times s) p.time := by
  have hfirst := h 0 (Nat.succ_pos _) hroom
  rwa [List.take_zero, union_times_nil] at hfirst

theorem Stored.allPlaced_iff (h : Stored s p s') (hroom : s.length < n) :
    AllPlaced ins n s (p :: cs) ↔ Placed ins (Gps.times s) p.time ∧ AllPlaced ins n s' cs := by
  have hseen : ∀ ps, Gps.times s ∪ Gps.times (p :: ps) = Gps.times s' ∪ Gps.times ps := by
    intro ps
    rw [h.times, Finset.insert_union, ← Finset.union_insert]
    exact congrArg _ Keyed.keys_cons
  constructor
  · intro hall
    refine ⟨hall.head hroom, fun j hj hlt => ?_⟩
    have hnext := hall (j + 1) (Nat.succ_lt_succ hj)
    rw [List.take_succ_cons, h.count_cons, hseen] at hnext
    exact hnext hlt
  · rintro ⟨hfirst, hall⟩ j hj hlt
    cases j with
    | zero => rwa [List.take_zero, union_times_nil]
    | succ j =>
        rw [List.take_succ_cons, h.count_cons] at hlt
        rw [List.take_succ_cons, hseen]
        exact hall j (Nat.lt_of_succ_lt_succ hj) hlt

/-- **The lists are merged** exactly if every point has its place. -/
theorem copied_merged_iff (cs : List GpsPoint) : ∀ {s : List GpsPoint}, InTime s → s.length ≤ n →
    ((∃ k ≤ cs.length, (copied ins n s cs).2 = cs.drop k ∧ Merged n s cs (copied ins n s cs).1 k) ↔
      AllPlaced ins n s cs) := by
  induction cs with
  | nil =>
      intro s hs _
      refine iff_of_true ⟨0, Nat.le_refl 0, rfl, hs, fun x => ?_, fun j hj => ?_⟩ fun j hj => ?_
      · exact (or_iff_left List.not_mem_nil).symm
      · exact absurd hj (Nat.not_lt_zero j)
      · exact absurd hj (Nat.not_lt_zero j)
  | cons p cs ih =>
      intro s hs hle
      rw [copied]
      by_cases hfull : s.length = n
      · rw [if_pos hfull]
        refine iff_of_true ⟨0, Nat.zero_le _, rfl, hs, fun x => ?_, fun j hj => ?_⟩ fun j hj h => ?_
        · exact (or_iff_left List.not_mem_nil).symm
        · exact absurd hj (Nat.not_lt_zero j)
        · omega
      rw [if_neg hfull]
      have hroom : s.length < n := by omega
      -- the loop has taken the first point, so at least one is counted
      have hcount : ∀ {k : Nat}, (copied ins n (stored ins s p) cs).2 = (p :: cs).drop k →
          ∃ j, k = j + 1 := by
        intro k hdrop
        cases k with
        | zero =>
            have hlen : (copied ins n (stored ins s p) cs).2.length ≤ cs.length :=
              copied_length_le cs _
            rw [hdrop, List.drop_zero, List.length_cons] at hlen
            omega
        | succ j => exact ⟨j, rfl⟩
      by_cases hp : Placed ins (times s) p.time
      · have hstored := (stored_by ins s p).placed hs hp
        have hlen : (stored ins s p).length ≤ n := by
          rw [hstored.length]
          split <;> omega
        rw [hstored.allPlaced_iff hroom, and_iff_right hp, ← ih hstored.inTime hlen]
        constructor
        · rintro ⟨k, hk, hdrop, hm⟩
          obtain ⟨j, rfl⟩ := hcount hdrop
          exact ⟨j, Nat.le_of_succ_le_succ hk, hdrop, (hstored.merged_iff hroom).mp hm⟩
        · rintro ⟨j, hj, hdrop, hm⟩
          exact ⟨j + 1, Nat.succ_le_succ hj, hdrop, (hstored.merged_iff hroom).mpr hm⟩
      · refine iff_of_false ?_ fun hall => hp (hall.head hroom)
        rintro ⟨k, hk, hdrop, hm⟩
        obtain ⟨j, rfl⟩ := hcount hdrop
        rcases (stored_by ins s p).not_placed hs hp with hbarred | hnot
        · have hmem : p ∈ (copied ins n (stored ins s p) cs).1 := by
            rw [hm.mem, List.take_succ_cons, Keyed.firsts_cons_new hbarred.new]
            exact .inr List.mem_cons_self
          exact ((hbarred.storedBy (stored_by ins s p)).copied cs).new (Keyed.key_mem hmem)
        · exact hnot (hm.inTime.sublist (copied_sublist cs _))

/-- `history_points_copy` returns, with the first points of the cache merged into the store. -/
def Merges (n : Nat) (s cs : List GpsPoint) (history : GpsHistory) (q : Queue GpsPoint) : Prop :=
  ∃ turns history' q' k, historyPointsCopy turns history q = some (history', q') ∧
    k ≤ cs.length ∧ history'.qCache.elems = cs.drop k ∧ Merged n s cs q'.elems k

/-- **The history is merged into the store** exactly if every point of it has its place when it
comes up. -/
theorem history_copy_iff {m : Nat} {flag' : BitVec 16} (history : GpsHistory)
    (q : Queue GpsPoint) (hcache : Queue.Holds m flag' history.qCache cs)
    (hstore : Queue.Holds n flag q s) (hs : InTime s) :
    Merges n s cs history q ↔ AllPlaced (maskExst flag Queue.flagIN) n s cs := by
  obtain ⟨history₁, q₁, ⟨turns, hrun⟩, hcache₁, hstore₁⟩ := copies_ends cs s history q hcache hstore
  have hlen := Queue.elems_length q
  rw [hstore.elems] at hlen
  have hle : s.length ≤ n := by
    have := hstore.high
    omega
  rw [← copied_merged_iff cs hs hle, ← hcache₁.elems, ← hstore₁.elems]
  constructor
  · rintro ⟨turns', history₂, q₂, k, hrun', hk, hdrop, hm⟩
    have hsame := WhileLoop.Ends.unique ⟨turns', hrun'⟩ ⟨turns, hrun⟩
    obtain ⟨rfl, rfl⟩ := Prod.mk.inj hsame
    exact ⟨k, hk, hdrop, hm⟩
  · rintro ⟨k, hk, hdrop, hm⟩
    exact ⟨turns, history₁, q₁, k, hrun, hk, hdrop, hm⟩

/-- A point of no matter. -/
def pointAt (t : Int) : GpsPoint := { isInfp := false, history := true, time := t, data := 90 }

/-- A queue of the store's kind, with points of these times. -/
def queueOf (ts : List Int) : Queue GpsPoint :=
  ts.foldl (fun q t => (q.enq (pointAt t)).2) (Queue.create 10 (Queue.flagRB ||| Queue.flagIN))

/-- A history of points at these times. -/
def historyOf (ts : List Int) : GpsHistory :=
  { locked := false, selectNr := ts.length, qCache := queueOf ts }

theorem queueOf_holds {ts : List Int} (ps : List GpsPoint)
    (hlen : (queueOf ts).curr = ps.length - 1) (hroom : ps.length ≤ 10)
    (hnr : (queueOf ts).nodeNr = 10) (hflag : (queueOf ts).flag = 3)
    (helems : (queueOf ts).elems = ps) : Queue.Holds 10 3 (queueOf ts) ps where
  nodeNr := hnr
  flag := hflag
  low := by omega
  high := by omega
  elems := helems

/-- The time of the first, one between two, and twice one that is the latest. -/
theorem history_copy_iff_four :
    Merges 10 [pointAt 10, pointAt 20, pointAt 40] [pointAt 10, pointAt 30, pointAt 50, pointAt 50]
      (historyOf [10, 30, 50, 50]) (queueOf [10, 20, 40]) :=
  (history_copy_iff (historyOf [10, 30, 50, 50]) (queueOf [10, 20, 40])
    (queueOf_holds _ (by decide) (by decide) rfl (by decide) (by decide))
    (queueOf_holds _ (by decide) (by decide) rfl (by decide) (by decide))
    (by simp [Increasing, pointAt])).mpr (by decide)

/-- A point between the first two of the store is lost. -/
theorem history_copy_drops :
    ¬Merges 10 [pointAt 10, pointAt 20] [pointAt 15] (historyOf [15]) (queueOf [10, 20]) := by
  rintro ⟨turns, history', q', k, hrun, hk, hdrop, hm⟩
  obtain ⟨r, hr, hcache, hstore⟩ : ∃ r,
      historyPointsCopy 2 (historyOf [15]) (queueOf [10, 20]) = some r ∧
        r.1.qCache.elems = [] ∧ r.2.elems = [pointAt 10, pointAt 20] :=
    ⟨_, rfl, by decide, by decide⟩
  obtain rfl := WhileLoop.Ends.unique ⟨turns, hrun⟩ ⟨2, hr⟩
  have hone : k = 1 := by
    rw [hcache, eq_comm, List.drop_eq_nil_iff] at hdrop
    exact Nat.le_antisymm hk hdrop
  subst hone
  have hmem := (hm.mem (pointAt 15)).mpr (.inr (by decide))
  rw [hstore] at hmem
  exact absurd hmem (by decide)

end Awoke.Gps
