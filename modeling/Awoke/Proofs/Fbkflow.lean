/-
When a feedback flow updates.

`History` is what the calls say and the flow is not asked: whether it is enabled, which events
were notified since a run took them, and what the runs since the last update found.  An event
that is notified while the flow is disabled is not in it, and a run passes over what it finds out
of its turn.

`fbkflow_updates`: in every sequence of calls, a run updates exactly if the flow is enabled, and
there was no update since it was set up or disabled, or three runs since then found the events
of a round, one after the other.
-/
import Awoke.Benchmark.Fbkflow
import Awoke.Lib.InOrder
import Awoke.Lib.Run
import Mathlib.Tactic.IntervalCases

namespace Awoke.Fbkflow

open Machine

/-- What the calls so far, and the updates they led to, come down to. -/
structure History where
  /-- The last word of `bk_fbkflow_init` and `bk_fbkflow_enable`. -/
  enabled : Bool
  /-- What was notified while enabled, since the last run or disable. -/
  pending : BitVec 32
  /-- No update since the flow was set up or disabled. -/
  first : Bool
  /-- What each run since the last update found, while enabled. -/
  observed : List (BitVec 32)

namespace History

/-- Before the first call. -/
def start (enable : Bool) : History :=
  { enabled := enable, pending := 0, first := true, observed := [] }

/-- One more call. -/
def next (h : History) (updated : Bool) : Call → History
  | .enable true => { h with enabled := true }
  | .enable false => start false
  | .notify event => if h.enabled then { h with pending := maskPush h.pending event } else h
  | .run _ =>
      if h.enabled then
        { h with
          pending := 0
          first := h.first && !updated
          observed := if updated then [] else h.observed ++ [h.pending] }
      else h

/-- The events of a round. -/
def round : List (BitVec 32 → Bool) :=
  [(maskExst · eventSet), (maskExst · eventExpo), (maskExst · eventFrame)]

/-- An update is due: it is the first one, or the runs since the last one found the events of a
round, one after the other. -/
def Due (h : History) : Prop := h.first = true ∨ InOrder.Seen round h.observed

/-- An update is made by a run of an enabled flow for which one is due, and by nothing else. -/
def Updates (h : History) (c : Call) (updated : Bool) (h' : History) : Prop :=
  (updated = true ↔ (∃ ret, c = .run ret) ∧ h.enabled = true ∧ h.Due) ∧ h' = h.next updated c

/-- The state of a flow that still waits for some events. -/
def waiting : List (BitVec 32 → Bool) → FbkflowState
  | [_, _, _] => .idle
  | [_, _] => .set
  | [_] => .expo
  | _ => .frame

end History

/-- A flow stands where its history says. -/
structure Follows (flow : Flow) (h : History) : Prop where
  enabled : maskExst flow.flags flagEnable = h.enabled
  pending : flow.event = h.pending
  observed : h.first = true → h.observed = []
  state : flow.state = if h.first then .init
    else History.waiting (h.observed.foldl InOrder.advance History.round)

/-! ### What a run finds -/

/-- The events that are still waited for are the last ones of a round. -/
theorem left_cases (observed : List (BitVec 32)) : ∃ k ≤ 3,
    observed.foldl InOrder.advance History.round = History.round.drop k := by
  induction observed using List.reverseRecOn with
  | nil => exact ⟨0, by decide, rfl⟩
  | append_singleton observed event ih =>
      obtain ⟨k, hk, hleft⟩ := ih
      rw [List.foldl_append, hleft]
      have hstep : ∀ p : BitVec 32 → Bool, ∀ ps : List (BitVec 32 → Bool),
          InOrder.advance (p :: ps) event = ps ∨ InOrder.advance (p :: ps) event = p :: ps := by
        intro p ps
        rw [InOrder.advance]
        split
        · exact .inl rfl
        · exact .inr rfl
      obtain rfl | hlast : k = 3 ∨ k ≤ 2 := by omega
      · exact ⟨3, by decide, rfl⟩
      · obtain ⟨p, hcons⟩ : ∃ p, History.round.drop k = p :: History.round.drop (k + 1) :=
          ⟨_, List.drop_eq_getElem_cons (Nat.lt_succ_of_le hlast)⟩
        rcases hstep p (History.round.drop (k + 1)) with hnext | hstay
        · refine ⟨k + 1, by omega, ?_⟩
          rw [hcons]
          exact hnext
        · refine ⟨k, hk, ?_⟩
          rw [hcons]
          exact hstay

/-- A flow that waits for an event goes on when it finds it, and one that waits for none is
valid. -/
theorem switch_waiting {flow : Flow} {observed : List (BitVec 32)}
    (hstate : flow.state = History.waiting (observed.foldl InOrder.advance History.round)) :
    ((fbkflowSwitch flow).1 = true ↔ InOrder.Seen History.round observed) ∧
      ((fbkflowSwitch flow).1 = true → (fbkflowSwitch flow).2 = .idle) ∧
      ((fbkflowSwitch flow).1 = false → (fbkflowSwitch flow).2 =
        History.waiting ((observed ++ [flow.event]).foldl InOrder.advance History.round)) := by
  obtain ⟨k, hk, hleft⟩ := left_cases observed
  rw [hleft] at hstate
  rw [InOrder.inOrder_iff, List.foldl_append, hleft, fbkflowSwitch, hstate]
  have hno : ¬false = true := Bool.false_ne_true
  interval_cases k
  · refine ⟨iff_of_false hno (List.cons_ne_nil _ _), fun hvalid => absurd hvalid hno, fun _ => ?_⟩
    show _ = History.waiting (if maskExst flow.event eventSet then _ else _)
    rw [apply_ite History.waiting]
    rfl
  · refine ⟨iff_of_false hno (List.cons_ne_nil _ _), fun hvalid => absurd hvalid hno, fun _ => ?_⟩
    show _ = History.waiting (if maskExst flow.event eventExpo then _ else _)
    rw [apply_ite History.waiting]
    rfl
  · refine ⟨iff_of_false hno (List.cons_ne_nil _ _), fun hvalid => absurd hvalid hno, fun _ => ?_⟩
    show _ = History.waiting (if maskExst flow.event eventFrame then _ else _)
    rw [apply_ite History.waiting]
    rfl
  · exact ⟨iff_of_true rfl rfl, fun _ => rfl, fun hvalid => absurd hvalid.symm hno⟩

/-! ### One call -/

variable {flow : Flow} {h : History}

/-- A run of an enabled flow. -/
theorem Follows.ran (hf : Follows flow h) (hon : h.enabled = true) (ret : ErrType) :
    ((fbkflowSwitch flow).1 = true ↔ h.Due) ∧
      Follows (fbkflowWait flow).2 (h.next (fbkflowSwitch flow).1 (.run ret)) := by
  have hstate := hf.state
  have hnext : h.next (fbkflowSwitch flow).1 (.run ret) =
      { h with
        pending := 0
        first := h.first && !(fbkflowSwitch flow).1
        observed := if (fbkflowSwitch flow).1 then [] else h.observed ++ [h.pending] } :=
    if_pos hon
  rw [hnext, History.Due]
  cases hfirst : h.first with
  | true =>
      have hinit : fbkflowSwitch flow = (true, .idle) := by
        rw [fbkflowSwitch, hstate, hfirst, if_pos rfl]
      rw [fbkflowWait, hinit]
      exact ⟨iff_of_true rfl (.inl rfl), hf.enabled, rfl, fun _ => rfl, rfl⟩
  | false =>
      rw [hfirst, if_neg Bool.false_ne_true] at hstate
      obtain ⟨hdue, hvalid, hwait⟩ := switch_waiting hstate
      refine ⟨hdue.trans (or_iff_right Bool.false_ne_true).symm, hf.enabled, rfl, nofun, ?_⟩
      show (fbkflowSwitch flow).2 = if (false && !(fbkflowSwitch flow).1) = true then _ else _
      rw [Bool.false_and, if_neg Bool.false_ne_true]
      cases hswitch : (fbkflowSwitch flow).1 with
      | true => exact hvalid hswitch
      | false =>
          rw [if_neg Bool.false_ne_true, ← hf.pending]
          exact hwait hswitch

/-- **One call** updates when it should, and the flow goes on as its history. -/
theorem Follows.call (hf : Follows flow h) (c : Call) :
    h.Updates c (flow.call c).2 (h.next (flow.call c).2 c) ∧
      Follows (flow.call c).1 (h.next (flow.call c).2 c) := by
  cases c with
  | enable on =>
      refine ⟨⟨iff_of_false Bool.false_ne_true fun ⟨⟨_, hrun⟩, _⟩ => (nomatch hrun), rfl⟩, ?_⟩
      cases on with
      | true =>
          refine ⟨?_, hf.pending, hf.observed, hf.state⟩
          show maskExst (maskPush _ _) _ = true
          rw [maskExst_push, Bool.or_eq_true]
          exact .inr (by decide)
      | false => exact ⟨maskExst_pull _ _, rfl, fun _ => rfl, rfl⟩
  | notify event =>
      refine ⟨⟨iff_of_false Bool.false_ne_true fun ⟨⟨_, hrun⟩, _⟩ => (nomatch hrun), rfl⟩, ?_⟩
      have henabled := hf.enabled
      show Follows (bkFbkflowNotify flow event) (if h.enabled then _ else _)
      unfold bkFbkflowNotify
      cases hon : h.enabled with
      | true =>
          rw [if_pos (henabled.trans hon), if_pos rfl]
          refine ⟨henabled.trans hon, ?_, hf.observed, hf.state⟩
          exact congrArg (maskPush · event) hf.pending
      | false =>
          rw [if_neg (by rw [henabled, hon]; exact Bool.false_ne_true), if_neg Bool.false_ne_true]
          exact hf
  | run ret =>
      have henabled := hf.enabled
      cases hon : h.enabled with
      | true =>
          obtain ⟨hdue, hfollows⟩ := hf.ran hon ret
          have hrun : flow.call (.run ret) = ((fbkflowWait flow).2, (fbkflowSwitch flow).1) := by
            show ((bkFbkflowRun flow ret).1, (bkFbkflowRun flow ret).2.2) = _
            rw [bkFbkflowRun, if_pos (henabled.trans hon)]
            rfl
          rw [hrun]
          refine ⟨⟨?_, rfl⟩, hfollows⟩
          rw [hdue, and_iff_right hon, and_iff_right ⟨ret, rfl⟩]
      | false =>
          have hrun : flow.call (.run ret) = (flow, false) := by
            show ((bkFbkflowRun flow ret).1, (bkFbkflowRun flow ret).2.2) = _
            rw [bkFbkflowRun, if_neg (by rw [henabled, hon]; exact Bool.false_ne_true)]
          have hnext : h.next false (.run ret) = h := if_neg (by rw [hon]; exact Bool.false_ne_true)
          rw [hrun, hnext]
          refine ⟨⟨iff_of_false Bool.false_ne_true fun hran => ?_, hnext.symm⟩, hf⟩
          exact absurd (hon.symm.trans hran.2.1) Bool.false_ne_true

/-! ### Every run -/

theorem init_follows (enable : Bool) : Follows (bkFbkflowInit enable) (.start enable) := by
  refine ⟨?_, rfl, fun _ => rfl, rfl⟩
  cases enable <;> decide

/-- **In every sequence of calls, a run updates exactly when the flow is enabled and an update is
due**: it is the first one since the flow was set up or disabled, or three runs since the last one
found the events of a round, one after the other. -/
theorem fbkflow_updates (enable : Bool) (calls : List Call) :
    RunRefines (total Flow.call) History.Updates Follows (bkFbkflowInit enable)
      (.start enable) calls := by
  refine runRefines_of_step (C := fun _ _ => True) (fun flow h c hf _ => ?_) calls _ _
    (init_follows enable) (meets_true _ _)
  obtain ⟨hupdates, hfollows⟩ := hf.call c
  exact ⟨_, _, _, rfl, hupdates, hfollows⟩

end Awoke.Fbkflow
