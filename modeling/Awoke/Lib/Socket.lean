/-
A socket, as what it still has to give.

The bytes of a stream arrive in segments, none of them empty.  `recv` gives as much of the
first one as there is room for, and leaves the rest of it.  When the segments are used up
the other side has closed or the connection is broken, and it stays so.

Every way to cut a stream into the results of `recv` is such a list of segments, whatever
room they are asked with.
-/
import Mathlib.Data.UInt
import Mathlib.Tactic.Common
import Mathlib.Tactic.Ring

namespace Socket

variable {α : Type*}

/-- What `recv` returns: some bytes, 0, or -1. -/
inductive Recv (α : Type*)
  | bytes (bs : List α)
  | closed
  | failed

/-- What still arrives, and whether the end is an error. -/
structure Stream (α : Type*) where
  segments : List (List α)
  broken : Bool
  nonempty : ∀ seg ∈ segments, seg ≠ []

namespace Stream

/-- The bytes that still arrive. -/
def left (s : Stream α) : List α := s.segments.flatten

/-- What `recv` returns at the end of the stream. -/
def ending (s : Stream α) : Recv α := if s.broken then .failed else .closed

/-- The stream when `room` bytes of its first segment were taken. -/
def advance (s : Stream α) (room : Nat) : Stream α where
  segments :=
    match s.segments with
    | [] => []
    | seg :: rest => if seg.length ≤ room then rest else seg.drop room :: rest
  broken := s.broken
  nonempty := by
    have h := s.nonempty
    cases hs : s.segments with
    | nil => simp
    | cons seg rest =>
        rw [hs] at h
        simp only
        split
        · exact fun t ht => h t (List.mem_cons_of_mem _ ht)
        · rename_i hlong
          refine fun t ht => (List.mem_cons.mp ht).elim (fun heq => ?_) fun hrest =>
            h t (List.mem_cons_of_mem _ hrest)
          rw [heq, Ne, List.drop_eq_nil_iff]
          omega

/-- `recv`, with room for so many bytes. -/
def recv (s : Stream α) (room : Nat) : Recv α × Stream α :=
  if room = 0 then (.closed, s)
  else
    match s.segments with
    | [] => (s.ending, s)
    | seg :: _ => (.bytes (seg.take room), s.advance room)

variable {s : Stream α} {room : Nat}

theorem recv_zero (s : Stream α) : s.recv 0 = (.closed, s) := rfl

/-- At the end of the stream nothing comes any more. -/
theorem recv_end (hroom : 0 < room) (h : s.segments = []) : s.recv room = (s.ending, s) := by
  rw [recv, if_neg (Nat.ne_of_gt hroom), h]

/-- Before it some bytes come, and the rest is still there. -/
theorem recv_bytes (hroom : 0 < room) {seg : List α} {rest : List (List α)}
    (h : s.segments = seg :: rest) :
    s.recv room = (.bytes (seg.take room), s.advance room) ∧ seg.take room ≠ [] ∧
      (seg.take room).length ≤ room ∧ s.left = seg.take room ++ (s.advance room).left := by
  have hseg : seg ≠ [] := s.nonempty seg (by simp [h])
  refine ⟨by rw [recv, if_neg (Nat.ne_of_gt hroom), h], ?_, List.length_take_le _ _, ?_⟩
  · rw [Ne, List.take_eq_nil_iff, not_or]
    exact ⟨Nat.ne_of_gt hroom, hseg⟩
  · simp only [left, advance, h, List.flatten_cons]
    split
    · rename_i hshort
      rw [List.take_of_length_le hshort]
    · rw [List.flatten_cons, ← List.append_assoc, List.take_append_drop]

theorem left_eq_nil_iff : s.left = [] ↔ s.segments = [] := by
  refine ⟨fun h => ?_, fun h => by rw [left, h]; rfl⟩
  cases hs : s.segments with
  | nil => rfl
  | cons seg rest =>
      rw [left, hs, List.flatten_cons, List.append_eq_nil_iff] at h
      exact absurd h.1 (s.nonempty seg (by simp [hs]))

/-! ### Several reads -/

/-- What so many calls of `recv` give when `n` bytes are wanted: each asks for what is still
missing, but never for more than `cap`, and gets something. -/
inductive Takes (cap : Nat) : Stream α → Nat → Nat → List α → Stream α → Prop
  | done (s : Stream α) (n : Nat) : Takes cap s n 0 [] s
  | turn {s s' s'' : Stream α} {n k : Nat} {bs bs' : List α} (hn : 0 < n)
      (hrecv : s.recv (min n cap) = (.bytes bs, s'))
      (hrest : Takes cap s' (n - bs.length) k bs' s'') : Takes cap s n (k + 1) (bs ++ bs') s''

theorem recv_eq_bytes {bs : List α} {s' : Stream α} (hroom : 0 < room)
    (h : s.recv room = (.bytes bs, s')) :
    s.segments ≠ [] ∧ bs ≠ [] ∧ bs.length ≤ room ∧ s.left = bs ++ s'.left ∧
      s'.broken = s.broken := by
  cases hs : s.segments with
  | nil =>
      rw [recv_end hroom hs, ending] at h
      split at h
      · cases (Prod.mk.inj h).1
      · cases (Prod.mk.inj h).1
  | cons seg rest =>
      obtain ⟨hrecv, hne, hle, hleft⟩ := recv_bytes hroom hs
      obtain ⟨hbs, hs'⟩ := Prod.mk.inj (hrecv.symm.trans h)
      rw [Recv.bytes.injEq] at hbs
      subst hbs hs'
      exact ⟨List.cons_ne_nil _ _, hne, hle, hleft, rfl⟩

theorem Takes.left {cap n k : Nat} {bs : List α} {s' : Stream α} (hcap : 0 < cap)
    (h : Takes cap s n k bs s') :
    s.left = bs ++ s'.left ∧ bs.length ≤ n ∧ s'.broken = s.broken := by
  induction h with
  | done s n => exact ⟨rfl, Nat.zero_le _, rfl⟩
  | turn hn hrecv _ ih =>
      obtain ⟨-, -, hle, hleft, hbroken⟩ := recv_eq_bytes (by omega) hrecv
      rw [hleft, ih.1, List.append_assoc]
      refine ⟨rfl, ?_, ih.2.2.trans hbroken⟩
      have := ih.2.1
      rw [List.length_append]
      omega

/-- Every call gets at least one byte. -/
theorem Takes.count {cap n k : Nat} {bs : List α} {s' : Stream α} (hcap : 0 < cap)
    (h : Takes cap s n k bs s') : k ≤ bs.length := by
  induction h with
  | done s n => exact Nat.zero_le _
  | turn hn hrecv _ ih =>
      have hpos := List.length_pos_iff.mpr (recv_eq_bytes (by omega) hrecv).2.1
      rw [List.length_append]
      omega

/-- Before each of the calls something was missing and still to come. -/
theorem Takes.before {cap n k : Nat} {bs : List α} {s' : Stream α} (hcap : 0 < cap)
    (h : Takes cap s n k bs s') : ∀ j < k, ∃ bs₁ s₁,
      Takes cap s n j bs₁ s₁ ∧ bs₁.length < n ∧ s₁.segments ≠ [] := by
  induction h with
  | done s n => exact fun j hj => absurd hj (Nat.not_lt_zero j)
  | @turn s s' s'' n k bs bs' hn hrecv hrest ih =>
      intro j hj
      obtain ⟨hseg, -, hle, -⟩ := recv_eq_bytes (by omega) hrecv
      cases j with
      | zero => exact ⟨[], s, .done s n, hn, hseg⟩
      | succ j =>
          obtain ⟨bs₁, s₁, htakes, hlt, hseg₁⟩ := ih j (Nat.lt_of_succ_lt_succ hj)
          refine ⟨bs ++ bs₁, s₁, .turn hn hrecv htakes, ?_, hseg₁⟩
          rw [List.length_append]
          omega

/-- One takes until there is enough or nothing comes any more. -/
theorem exists_takes {cap : Nat} (hcap : 0 < cap) : ∀ (n : Nat) (s : Stream α),
    ∃ k bs s', Takes cap s n k bs s' ∧ (bs.length = n ∨ bs.length < n ∧ s'.segments = []) := by
  intro n
  induction n using Nat.strongRecOn with
  | _ n ih =>
      intro s
      rcases Nat.eq_zero_or_pos n with rfl | hn
      · exact ⟨0, [], s, .done s 0, .inl rfl⟩
      cases hs : s.segments with
      | nil => exact ⟨0, [], s, .done s n, .inr ⟨hn, hs⟩⟩
      | cons seg rest =>
          obtain ⟨hrecv, hne, hle, -⟩ := recv_bytes (show 0 < min n cap by omega) hs
          have hpos := List.length_pos_iff.mpr hne
          obtain ⟨k, bs, s', htakes, hend⟩ :=
            ih (n - (seg.take (min n cap)).length) (by omega) (s.advance (min n cap))
          refine ⟨k + 1, _, s', .turn hn hrecv htakes, ?_⟩
          rw [List.length_append]
          rcases hend with hall | ⟨hshort, hnil⟩
          · exact .inl (by omega)
          · exact .inr ⟨by omega, hnil⟩

end Stream

end Socket
