/-
What arrives of a request that is sent.

A piece begins where it should when the bytes the last call took are all that were taken so far.
That is so of the first piece and of the second.  The third begins too far in front, and bytes that
were sent are sent again in the place of others.  So a request arrives as it is when two calls are
enough for it, or the third fails; the count is right in any case, and `et_ok` is returned.
-/
import Awoke.Http.Request

namespace Awoke.Http

variable {c : Sender} {length fuel k t z : Nat} {s : Sending}

theorem maxSend_eq (length t : Nat) : maxSend length t = min (length - t) bufferChunk := by
  rw [maxSend]
  split
  · omega
  · omega

/-- What is taken was there, and it is something unless nothing was left. -/
theorem taken_le {taken : Nat} (h : c.send k (maxSend length t) = some taken) (ht : t ≤ length) :
    t + taken ≤ length ∧ (t < length → 0 < taken) := by
  have hle := c.le _ _ _ h
  have hpos := c.pos _ _ _ h
  have hchunk : 0 < bufferChunk := by decide
  rw [maxSend_eq] at hle hpos
  exact ⟨by omega, fun hlt => hpos (by omega)⟩

/-! ### One turn -/

theorem sendLoop_failed (h : c.send k (maxSend length t) = none) :
    sendLoop c length (fuel + 1) k t z = some { ret := .etSockSend, accepted := [] } := by
  rw [sendLoop, h]

theorem sendLoop_last {taken : Nat} (h : c.send k (maxSend length t) = some taken)
    (hall : length = t + taken) :
    sendLoop c length (fuel + 1) k t z =
      some { ret := .etOk, accepted := [{ offset := z, count := taken }] } := by
  rw [sendLoop, h]
  exact if_pos (beq_iff_eq.mpr hall)

theorem sendLoop_more {taken : Nat} (h : c.send k (maxSend length t) = some taken)
    (hmore : length ≠ t + taken) :
    sendLoop c length (fuel + 1) k t z =
      (sendLoop c length fuel (k + 1) (t + taken) taken).map fun s =>
        { s with accepted := { offset := z, count := taken } :: s.accepted } := by
  rw [sendLoop, h]
  exact if_neg fun hall => hmore (beq_iff_eq.mp hall)

/-- **Where a turn leads.** -/
theorem sendLoop_cases (h : sendLoop c length fuel k t z = some s) :
    (c.send k (maxSend length t) = none ∧ s = { ret := .etSockSend, accepted := [] }) ∨
      ∃ taken, c.send k (maxSend length t) = some taken ∧
        ((length = t + taken ∧
            s = { ret := .etOk, accepted := [{ offset := z, count := taken }] }) ∨
          (length ≠ t + taken ∧ ∃ fuel' rest, fuel = fuel' + 1 ∧
            sendLoop c length fuel' (k + 1) (t + taken) taken = some rest ∧
              s = { rest with accepted := { offset := z, count := taken } :: rest.accepted })) := by
  cases fuel with
  | zero => cases h
  | succ fuel =>
      cases hsend : c.send k (maxSend length t) with
      | none =>
          rw [sendLoop_failed hsend, Option.some.injEq] at h
          exact .inl ⟨rfl, h.symm⟩
      | some taken =>
          refine .inr ⟨taken, rfl, ?_⟩
          by_cases hall : length = t + taken
          · rw [sendLoop_last hsend hall, Option.some.injEq] at h
            exact .inl ⟨hall, h.symm⟩
          · rw [sendLoop_more hsend hall, Option.map_eq_some_iff] at h
            obtain ⟨rest, hrest, heq⟩ := h
            exact .inr ⟨hall, fuel, rest, rfl, hrest, heq.symm⟩

/-! ### The count -/

/-- **The loop comes to its end.** -/
theorem sendLoop_returns : ∀ {fuel k t z : Nat}, t ≤ length → length - t < fuel →
    ∃ s, sendLoop c length fuel k t z = some s := by
  intro fuel
  induction fuel with
  | zero =>
      intro k t z _ hfuel
      omega
  | succ fuel ih =>
      intro k t z ht hfuel
      cases hsend : c.send k (maxSend length t) with
      | none => exact ⟨_, sendLoop_failed hsend⟩
      | some taken =>
          by_cases hall : length = t + taken
          · exact ⟨_, sendLoop_last hsend hall⟩
          · obtain ⟨hle, hpos⟩ := taken_le hsend ht
            obtain ⟨rest, hrest⟩ := ih (k := k + 1) (t := t + taken) (z := taken) hle (by omega)
            exact ⟨_, by rw [sendLoop_more hsend hall, hrest]; rfl⟩

@[simp] theorem total_nil (ret : ErrType) : Sending.total { ret := ret, accepted := [] } = 0 := rfl

@[simp] theorem total_cons (ret : ErrType) (p : Piece) (ps : List Piece) :
    Sending.total { ret := ret, accepted := p :: ps } =
      p.count + Sending.total { ret := ret, accepted := ps } :=
  List.sum_cons

/-- **The bytes that were taken are counted**, and `et_ok` says that they are all. -/
theorem sendLoop_total : ∀ {fuel k t z : Nat} {s : Sending}, t ≤ length →
    sendLoop c length fuel k t z = some s →
      (s.ret = .etOk ↔ t + s.total = length) ∧
        ((∀ k n, (c.send k n).isSome) → t + s.total = length) := by
  intro fuel
  induction fuel with
  | zero =>
      intro k t z s _ h
      cases h
  | succ fuel ih =>
      intro k t z s ht h
      rcases sendLoop_cases h with
        ⟨hsend, rfl⟩ | ⟨taken, hsend, ⟨hall, rfl⟩ | ⟨-, _, rest, hfuel, hrest, rfl⟩⟩
      · refine ⟨iff_of_false (fun hret => by cases hret) fun htotal => ?_, fun hnever => ?_⟩
        · -- A call with no bytes does not fail.
          rw [total_nil, Nat.add_zero] at htotal
          rw [htotal, maxSend_eq, Nat.sub_self, Nat.zero_min, c.nothing] at hsend
          cases hsend
        · have hsome := hnever k (maxSend length t)
          rw [hsend] at hsome
          cases hsome
      · rw [total_cons, total_nil]
        exact ⟨iff_of_true rfl hall.symm, fun _ => hall.symm⟩
      · obtain ⟨hle, -⟩ := taken_le hsend ht
        rw [Nat.add_right_cancel_iff] at hfuel
        subst hfuel
        obtain ⟨hret, hwhole⟩ := ih hle hrest
        rw [total_cons, ← Nat.add_assoc]
        exact ⟨hret, hwhole⟩

/-! ### The places -/

@[simp] theorem positions_nil (ret : ErrType) :
    Sending.positions { ret := ret, accepted := [] } = [] := rfl

@[simp] theorem positions_cons (ret : ErrType) (p : Piece) (ps : List Piece) :
    Sending.positions { ret := ret, accepted := p :: ps } =
      List.range' p.offset p.count ++ Sending.positions { ret := ret, accepted := ps } :=
  List.flatMap_cons

/-- The bytes that were taken are those that come next in the buffer. -/
def Sending.From (s : Sending) (t : Nat) : Prop := s.positions = List.range' t s.total

theorem from_cons_iff {ret : ErrType} {p : Piece} {ps : List Piece} {t : Nat} :
    Sending.From { ret := ret, accepted := p :: ps } t ↔
      (p.count = 0 ∨ p.offset = t) ∧
        Sending.From { ret := ret, accepted := ps } (t + p.count) := by
  rw [Sending.From, Sending.From, positions_cons, total_cons, ← List.range'_append_1]
  constructor
  · intro h
    obtain ⟨hhead, htail⟩ := List.append_inj h (by rw [List.length_range', List.length_range'])
    exact ⟨(List.range'_inj.mp hhead).2, htail⟩
  · rintro ⟨hhead, htail⟩
    rw [htail, List.range'_inj.mpr ⟨rfl, hhead⟩]

theorem from_nil (ret : ErrType) (t : Nat) : Sending.From { ret := ret, accepted := [] } t := rfl

/-- **When a piece does not begin where it should**, nothing of it may be taken. -/
theorem drifted_iff (h : sendLoop c length fuel k t z = some s) (ht : t < length) (hz : z ≠ t) :
    s.From t ↔ c.send k (maxSend length t) = none := by
  have hwrong : ∀ taken, c.send k (maxSend length t) = some taken → ¬(taken = 0 ∨ z = t) :=
    fun taken hsend =>
      not_or.mpr ⟨Nat.ne_of_gt ((taken_le hsend (Nat.le_of_lt ht)).2 ht), hz⟩
  rcases sendLoop_cases h with ⟨hsend, rfl⟩ | ⟨taken, hsend, ⟨-, rfl⟩ | ⟨-, _, rest, -, -, rfl⟩⟩
  · exact iff_of_true (from_nil _ _) hsend
  · rw [from_cons_iff, hsend]
    exact iff_of_false (fun h => hwrong taken hsend h.1) fun h => by cases h
  · rw [from_cons_iff, hsend]
    exact iff_of_false (fun h => hwrong taken hsend h.1) fun h => by cases h

/-- **The second piece** begins where it should, and the third does not. -/
theorem second_iff (h : sendLoop c length fuel k t t = some s) (hpos : 0 < t) (ht : t ≤ length) :
    s.From t ↔ ∀ taken, c.send k (maxSend length t) = some taken → t + taken < length →
      c.send (k + 1) (maxSend length (t + taken)) = none := by
  rcases sendLoop_cases h with
    ⟨hsend, rfl⟩ | ⟨taken, hsend, ⟨hall, rfl⟩ | ⟨hmore, _, rest, -, hrest, rfl⟩⟩
  · refine iff_of_true (from_nil _ _) fun taken hsome => ?_
    cases hsend.symm.trans hsome
  · refine iff_of_true (from_cons_iff.mpr ⟨.inr rfl, from_nil _ _⟩) fun taken' hsome hlt => ?_
    cases hsend.symm.trans hsome
    omega
  · have hlt : t + taken < length := by
      have := (taken_le hsend ht).1
      omega
    rw [from_cons_iff, and_iff_right (.inr rfl)]
    refine (drifted_iff hrest hlt (by omega)).trans ⟨fun hnone taken' hsome _ => ?_, fun hall => ?_⟩
    · cases hsend.symm.trans hsome
      exact hnone
    · exact hall taken hsend hlt

/-- Two calls are enough for the request, or the third fails. -/
def AtMostTwice (c : Sender) (length : Nat) : Prop :=
  ∀ first, c.send 0 (maxSend length 0) = some first → first < length →
    ∀ second, c.send 1 (maxSend length first) = some second → first + second < length →
      c.send 2 (maxSend length (first + second)) = none

/-- **The first piece** is at the front. -/
theorem first_iff (h : sendLoop c length fuel 0 0 0 = some s) :
    s.From 0 ↔ AtMostTwice c length := by
  rcases sendLoop_cases h with
    ⟨hsend, rfl⟩ | ⟨taken, hsend, ⟨hall, rfl⟩ | ⟨hmore, _, rest, -, hrest, rfl⟩⟩
  · refine iff_of_true (from_nil _ _) fun first hsome => ?_
    cases hsend.symm.trans hsome
  · refine iff_of_true (from_cons_iff.mpr ⟨.inr rfl, from_nil _ _⟩) fun first hsome hlt => ?_
    cases hsend.symm.trans hsome
    omega
  · obtain ⟨hle, htaken⟩ := taken_le hsend (Nat.zero_le length)
    rw [Nat.zero_add taken] at hmore hle hrest
    have hpos : 0 < taken := htaken (by omega)
    rw [from_cons_iff, and_iff_right (.inr rfl), Nat.zero_add]
    refine (second_iff hrest hpos hle).trans ⟨fun hsecond first hsome _ => ?_, fun hall => ?_⟩
    · cases hsend.symm.trans hsome
      exact hsecond
    · exact hall taken hsend (by omega)

/-! ### The bytes -/

/-- The bytes of some places, taken one by one. -/
theorem take_drop_eq (buff : List UInt8) (n : Nat) : ∀ o,
    (buff.drop o).take n = (List.range' o n).filterMap fun i => buff[i]? := by
  induction n with
  | zero => intro o; rfl
  | succ n ih =>
      intro o
      rw [List.range'_succ, List.filterMap_cons, ← ih]
      cases hget : buff[o]? with
      | none =>
          rw [List.getElem?_eq_none_iff] at hget
          rw [List.drop_eq_nil_of_le hget, List.drop_eq_nil_of_le (Nat.le_succ_of_le hget),
            List.take_nil, List.take_nil]
      | some b =>
          obtain ⟨hlt, rfl⟩ := List.getElem?_eq_some_iff.mp hget
          rw [List.drop_eq_getElem_cons hlt, List.take_succ_cons]

/-- **What comes next in the buffer** is what was taken. -/
theorem Sending.From.bytes (h : s.From 0) (buff : List UInt8) :
    s.bytes buff = buff.take s.total := by
  have hplaces : s.bytes buff = s.positions.filterMap fun i => buff[i]? := by
    rw [Sending.bytes, Sending.positions, List.filterMap_flatMap]
    simp only [take_drop_eq]
  rw [hplaces, h, ← take_drop_eq, List.drop_zero]

/-! ### What is expected -/

/-- What is expected of a request: sending it comes to an end; every byte that is taken is the next
one of the buffer, `et_ok` says that they are all, and they are unless a call fails. -/
structure Delivers (c : Sender) (buff : List UInt8) : Prop where
  returns : ∃ fuel s, requestSend c buff.length fuel = some s
  inOrder : ∀ fuel s, requestSend c buff.length fuel = some s →
    s.positions = List.range s.total ∧ s.bytes buff = buff.take s.total
  ok : ∀ fuel s, requestSend c buff.length fuel = some s →
    (s.ret = .etOk ↔ s.total = buff.length)
  whole : (∀ k n, (c.send k n).isSome) → ∀ fuel s, requestSend c buff.length fuel = some s →
    s.total = buff.length

/-- **When a request arrives as it is.** -/
theorem http_send_iff (c : Sender) (buff : List UInt8) :
    Delivers c buff ↔ AtMostTwice c buff.length := by
  constructor
  · intro h
    obtain ⟨fuel, s, hs⟩ := h.returns
    refine (first_iff hs).mp ?_
    rw [Sending.From, ← List.range_eq_range']
    exact (h.inOrder fuel s hs).1
  · intro h
    refine ⟨⟨_, sendLoop_returns (Nat.zero_le _) (Nat.lt_succ_self _)⟩, ?_, ?_, ?_⟩
    · intro fuel s hs
      have hfrom := (first_iff hs).mpr h
      refine ⟨?_, hfrom.bytes buff⟩
      rw [List.range_eq_range']
      exact hfrom
    · intro fuel s hs
      have htotal := (sendLoop_total (Nat.zero_le _) hs).1
      rw [Nat.zero_add] at htotal
      exact htotal
    · intro hnever fuel s hs
      have htotal := (sendLoop_total (Nat.zero_le _) hs).2 hnever
      rw [Nat.zero_add] at htotal
      exact htotal

/-- A connection that takes one byte at a time. -/
def oneByOne : Sender where
  send _ n := some (min n 1)
  le _ n r h := by
    rw [← Option.some.inj h]
    exact Nat.min_le_left n 1
  pos _ n r h hn := by
    rw [← Option.some.inj h]
    exact Nat.lt_min.mpr ⟨hn, Nat.one_pos⟩
  nothing _ := rfl

/-- **Three bytes**: the second is sent twice and the third never, and `et_ok` is returned. -/
theorem http_send_repeats :
    ¬Delivers oneByOne [1, 2, 3] ∧
      (requestSend oneByOne 3 4).map (fun s => (s.ret, s.bytes [1, 2, 3])) =
        some (.etOk, [1, 2, 2]) := by
  refine ⟨fun h => ?_, rfl⟩
  have hplaces := (h.inOrder 4 _ rfl).1
  exact absurd hplaces (by decide)

end Awoke.Http
