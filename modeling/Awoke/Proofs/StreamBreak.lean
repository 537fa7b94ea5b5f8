/-
A chunk of another stream.

The pool is cleaned and the label jumped back to, but `p->id` stays what it was, so the next turn
comes to the same test with the same answer.  `processTurns` has no result then, whatever the number
of turns; with any other chunk the first turn is the only one.
-/
import Awoke.Cmder.StreamUses

namespace Awoke.Cmder

variable {s s' : Litk} {info : Streaminfo} {a : Arrival}

/-- The chunk belongs to another stream than the one under way. -/
def Breaks (p info : Streaminfo) : Prop := p.id ≠ 0 ∧ (p.id ≠ info.id ∨ p.media ≠ info.media)

instance (p info : Streaminfo) : Decidable (Breaks p info) :=
  inferInstanceAs (Decidable (_ ∧ _))

/-- The state in which the first chunk of a stream is looked at by its index. -/
def Litk.begun (s : Litk) (info : Streaminfo) : Litk :=
  if s.streaminfo.id = 0 then s.opened info else s

/-! ### Turns -/

theorem startTurn_on (h : ¬Breaks s.streaminfo info) : startTurn info s = .on (s.begun info) := by
  rw [startTurn, Litk.begun]
  by_cases hid : s.streaminfo.id = 0
  · rw [if_pos hid, if_pos hid]
  · rw [if_neg hid, if_neg hid, if_neg fun hother => h ⟨hid, hother⟩]

theorem startTurn_back (h : Breaks s.streaminfo info) :
    startTurn info s = .back { s with streampool := s.streampool.clean } := by
  rw [startTurn, if_neg h.1, if_pos h.2]

/-- **The first turn leads on**, with any chunk that does not break the stream. -/
theorem startTurns_on (h : ¬Breaks s.streaminfo info) (n : Nat) :
    startTurns info (n + 1) s = some (s.begun info) := by
  rw [startTurns, startTurn_on h]

/-- **No number of turns does**, with one that does. -/
theorem startTurns_back (n : Nat) : ∀ {s : Litk}, Breaks s.streaminfo info →
    startTurns info n s = none := by
  induction n with
  | zero => intro s _; rfl
  | succ n ih =>
      intro s h
      rw [startTurns, startTurn_back h]
      -- The description is as it was.
      exact ih (s := { s with streampool := s.streampool.clean }) h

theorem streamStart_eq (s : Litk) (info : Streaminfo) :
    streamStart s info = if Breaks s.streaminfo info then none else some (s.begun info) := by
  rw [streamStart, Litk.begun]
  by_cases hid : s.streaminfo.id = 0
  · rw [if_pos hid, if_pos hid, if_neg fun h => h.1 hid]
  by_cases hother : s.streaminfo.id ≠ info.id ∨ s.streaminfo.media ≠ info.media
  · rw [if_neg hid, if_pos hother, if_pos ⟨hid, hother⟩]
  · rw [if_neg hid, if_neg hother, if_neg hid, if_neg fun h => hother h.2]

/-- **The turns and the result.**  What a number of turns leads to is the result; and there is none
when no number of turns is enough. -/
theorem processTurns_result (s : Litk) (a : Arrival) :
    (∀ n r, processTurns n s a = some r → streamProcess s a = r) ∧
      ((∀ n, processTurns n s a = none) → streamProcess s a = none) := by
  have hprocess : streamProcess s a = (streamStart s a.info).bind fun s => streamRest s a := rfl
  rw [hprocess, streamStart_eq]
  by_cases h : Breaks s.streaminfo a.info
  · rw [if_pos h]
    refine ⟨fun n r hr => ?_, fun _ => rfl⟩
    rw [processTurns, startTurns_back n h] at hr
    cases hr
  · rw [if_neg h]
    refine ⟨fun n r hr => ?_, fun hnone => ?_⟩
    · cases n with
      | zero => cases hr
      | succ n =>
          rw [processTurns, startTurns_on h, Option.map_some, Option.some.injEq] at hr
          exact hr
    · have hone := hnone 1
      rw [processTurns, startTurns_on h] at hone
      cases hone

/-! ### What is expected -/

/-- The state when the stream under way is forgotten: its bytes are dropped, and none is under
way. -/
def Litk.forgotten (s : Litk) : Litk :=
  { s with streampool := s.streampool.clean, streaminfo := .zero }

/-- What is expected of an arrival: it comes to an end, and when it belongs to another stream, to
the end that it has as a first chunk when the old stream is forgotten. -/
structure Handled (s : Litk) (a : Arrival) : Prop where
  ends : ∃ n r, processTurns n s a = some r
  first : Breaks s.streaminfo a.info →
    ∃ n, processTurns n s a = some (streamRest (s.forgotten.opened a.info) a)

/-- **When an arrival comes to an end**: when it does not break the stream under way. -/
theorem stream_handled_iff (s : Litk) (a : Arrival) :
    Handled s a ↔ ¬Breaks s.streaminfo a.info := by
  constructor
  · rintro ⟨⟨n, r, hr⟩, -⟩ hbreaks
    rw [processTurns, startTurns_back n hbreaks] at hr
    cases hr
  · intro h
    refine ⟨⟨1, streamRest (s.begun a.info) a, ?_⟩, fun hbreaks => absurd hbreaks h⟩
    rw [processTurns, startTurns_on h]
    rfl

/-- A stream of one byte out of two under way. -/
def underWay : Litk :=
  { streamInit 0 0 0 with
    streaminfo := { id := 1, media := mediaDPCPARAMS, index := 0, length := 1, totalsize := 2,
                    recvbytes := 1 } }

/-- The first chunk of another one. -/
def otherStream : Arrival :=
  { info := { id := 2, media := mediaDPCPARAMS, index := 0, length := 1, totalsize := 2,
              recvbytes := 0 }
    payload := [9]
    fits := rfl }

/-- **Two streams that meet**: the second is never taken up. -/
theorem stream_never_handled : ¬Handled underWay otherStream := by
  intro h
  obtain ⟨n, r, hr⟩ := h.ends
  rw [processTurns, startTurns_back n (by decide)] at hr
  cases hr

end Awoke.Cmder
