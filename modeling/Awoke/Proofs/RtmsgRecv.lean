/-
When the receiver gets every message.

The bytes behind a header are read until all are there, but `read` returning 0 is taken for a
piece of no bytes: where the other side closes in the middle of them the loop goes on for ever.
And a header that comes in two pieces is an error, after which the second piece is taken for the
next header.

`recv_iff` says of every run of calls, whatever the pieces and wherever the other side closes,
when each call returns what it should.
-/
import Awoke.Rtmsg.Message
import Awoke.Lib.Run

namespace Awoke.Rtmsg

open Socket (Stream)

/-! ### What is received -/

/-- The stream gives these messages, and then what is left of one that was cut off. -/
structure Delivers (fd : Stream UInt8) (messages : List Message) : Prop where
  left : ∃ (cut : Message) (k : Nat), k < cut.bytes.length ∧
    fd.left = messages.flatMap Message.bytes ++ cut.bytes.take k

/-- The wait for a message times out. -/
def Idle (fd : Stream UInt8) (env : Env) : Prop := env.waits = some 0 ∧ fd.segments ≠ []

/-- What a call should return, with the messages still to come: the next one if it was completely
delivered, and an error if none was or the wait for it timed out. -/
inductive Right (fd : Stream UInt8) (env : Env) :
    List Message → ErrType × Option (List UInt8) → Prop
  | message (m : Message) (ms : List Message) : Right fd env (m :: ms) (.etOk, some m.bytes)
  | idle (ms : List Message) (h : Idle fd env) {err : ErrType} (herr : err ≠ .etOk) :
      Right fd env ms (err, none)
  | none {err : ErrType} (herr : err ≠ .etOk) : Right fd env [] (err, none)

/-- A call with the messages still to come.  Every turn of the loop that gets anything gets a
byte, so that more fuel is of no use (`rtMessageRecv_fuel`). -/
def step (s : Stream UInt8 × List Message) (env : Env) :
    Option ((Stream UInt8 × List Message) × (ErrType × Option (List UInt8))) :=
  (rtMessageRecv (s.1.left.length + 1) s.1 env).map fun r =>
    ((r.2, if r.1.1 = .etOk then s.2.tail else s.2), r.1)

/-- The call returns, and what it should. -/
def Kept (s : Stream UInt8 × List Message) (env : Env) : Prop :=
  ∃ r, step s env = some r ∧ Right s.1 env s.2 r.2

/-! ### When it is -/

/-- The first piece has a whole header. -/
def HeaderWhole (fd : Stream UInt8) : Prop := headerSize ≤ (fd.segments.headD []).length

/-- A wait times out while some of `n` bytes are missing, when so many waits are in time. -/
def Late (fd : Stream UInt8) (n : Nat) (waits : Option Nat) : Prop :=
  ∃ w data fd', waits = some w ∧ Stream.Takes maxRwCount fd n w data fd' ∧ data.length < n ∧
    fd'.segments ≠ []

/-- How many bytes follow the header, as the next 40 bytes have it. -/
def nextLen (fd : Stream UInt8) : Nat := dataLen (fd.left.take headerSize)

/-- The wait for some of the bytes behind the header times out. -/
def DataLate (fd : Stream UInt8) (env : Env) : Prop :=
  Late (fd.advance headerSize) (nextLen fd) (env.waits.map (· - 1))

/-- The calls that go well.  With a message to come, its header has to be in one piece and the
bytes behind it in time.  Without, what is left must not be a whole header, unless the bytes
behind it are late or end with the connection broken. -/
def Safe (s : Stream UInt8 × List Message) (env : Env) : Prop :=
  Idle s.1 env ∨
    match s.2 with
    | _ :: _ => HeaderWhole s.1 ∧ ¬DataLate s.1 env
    | [] => HeaderWhole s.1 → DataLate s.1 env ∨
        s.1.broken = true ∧ (s.1.advance headerSize).left.length < nextLen s.1

/-! ### Waiting -/

/-- So many waits are in time. -/
def InTime (waits : Option Nat) (k : Nat) : Prop := ∀ w, waits = some w → k ≤ w

section

variable {fd fd' : Stream UInt8} {waits : Option Nat}

theorem wait_end (h : fd.segments = []) (waits : Option Nat) :
    rtMessageWaitData fd waits = (.etOk, waits) := by
  cases waits with
  | none => rfl
  | some w => simp only [rtMessageWaitData, h, List.isEmpty_nil, if_true]

theorem wait_inTime (h : fd.segments ≠ []) (htime : InTime waits 1) :
    rtMessageWaitData fd waits = (.etOk, waits.map (· - 1)) := by
  cases waits with
  | none => rfl
  | some w =>
      obtain ⟨w, rfl⟩ := Nat.exists_eq_add_of_le' (htime w rfl)
      rw [rtMessageWaitData, if_neg (by rwa [List.isEmpty_iff])]
      rfl

theorem wait_late (h : fd.segments ≠ []) :
    rtMessageWaitData fd (some 0) = (.etSockRecv, some 0) := by
  rw [rtMessageWaitData, if_neg (by rwa [List.isEmpty_iff])]

theorem InTime.pred {k : Nat} (h : InTime waits (k + 1)) :
    InTime waits 1 ∧ InTime (waits.map (· - 1)) k := by
  refine ⟨fun w hw => by have := h w hw; omega, fun w hw => ?_⟩
  obtain ⟨w', hw', rfl⟩ := Option.map_eq_some_iff.mp hw
  have := h w' hw'
  omega

theorem map_sub_succ (waits : Option Nat) (k : Nat) :
    (waits.map (· - 1)).map (· - k) = waits.map (· - (k + 1)) := by
  rw [Option.map_map]
  congr 1
  funext w
  simp only [Function.comp_apply]
  omega

/-! ### The loop -/

variable {n k total : Nat} {data bs : List UInt8}

theorem recvLoop_bytes {fuel : Nat} (htotal : data.length + n = total) (hn : 0 < n)
    (hread : fd.recv (min n maxRwCount) = (.bytes bs, fd')) (htime : InTime waits 1) :
    recvLoop total (fuel + 1) fd waits data =
      if (data ++ bs).length < total then
        recvLoop total fuel fd' (waits.map (· - 1)) (data ++ bs)
      else some ((.etOk, data ++ bs), fd') := by
  have hcap : 0 < maxRwCount := by decide
  have hseg := (Stream.recv_eq_bytes (by omega) hread).1
  have hmissing : total - data.length = n := by omega
  rw [recvLoop, wait_inTime hseg htime, if_neg (not_not.mpr rfl), read, hmissing, hread]

/-- The turns that do not get the last bytes. -/
theorem recvLoop_takes (h : Stream.Takes maxRwCount fd n k bs fd') : ∀ {waits : Option Nat}
    {data : List UInt8} (_ : data.length + n = total) (_ : bs.length < n)
    (_ : InTime waits k) (fuel : Nat),
    recvLoop total (fuel + k) fd waits data =
      recvLoop total fuel fd' (waits.map (· - k)) (data ++ bs) := by
  induction h with
  | done s n =>
      intro waits data _ _ _ fuel
      rw [List.append_nil]
      cases waits with
      | none => rfl
      | some w => rfl
  | turn hn hrecv hrest ih =>
      intro waits data htotal hlt htime fuel
      rw [List.length_append] at hlt
      rw [← Nat.add_assoc, recvLoop_bytes htotal hn hrecv htime.pred.1, if_pos, ih,
        map_sub_succ, List.append_assoc]
      · rw [List.length_append]
        omega
      · omega
      · exact htime.pred.2
      · rw [List.length_append]
        omega

/-- The turns that get all of them. -/
theorem recvLoop_done (h : Stream.Takes maxRwCount fd n k bs fd') : ∀ {waits : Option Nat}
    {data : List UInt8} (_ : data.length + n = total) (_ : 0 < n) (_ : bs.length = n)
    (_ : InTime waits k),
    recvLoop total k fd waits data = some ((.etOk, data ++ bs), fd') := by
  induction h with
  | done s n =>
      intro waits data _ hn hall _
      exact absurd hall (Nat.ne_of_lt hn)
  | @turn s s' s'' n k bs bs' hn hrecv hrest ih =>
      intro waits data htotal _ hall htime
      rw [List.length_append] at hall
      rw [recvLoop_bytes htotal hn hrecv htime.pred.1]
      split
      case isTrue hlt =>
        rw [List.length_append] at hlt
        rw [ih (by rw [List.length_append]; omega) (by omega) (by omega) htime.pred.2,
          List.append_assoc]
      case isFalse hge =>
        rw [List.length_append] at hge
        have hnil : bs' = [] := List.length_eq_zero_iff.mp (by omega)
        have hzero : n - bs.length = 0 := by omega
        rw [hzero] at hrest
        cases hrest with
        | done => rw [List.append_nil]
        | turn hn' _ _ => exact absurd hn' (Nat.lt_irrefl 0)

/-- Nothing comes any more, but the loop goes on. -/
theorem recvLoop_stuck (hend : fd.segments = []) (hclosed : fd.broken = false)
    (hlt : data.length < total) : ∀ (fuel : Nat) (waits : Option Nat),
    recvLoop total fuel fd waits data = none := by
  have hcap : 0 < maxRwCount := by decide
  intro fuel
  induction fuel with
  | zero => exact fun _ => rfl
  | succ fuel ih =>
      intro waits
      have hread : read fd (total - data.length) = (.closed, fd) := by
        rw [read, Stream.recv_end (by omega) hend, Stream.ending, hclosed]
        rfl
      rw [recvLoop, wait_end hend, if_neg (not_not.mpr rfl), hread]
      exact (if_pos hlt).trans (ih waits)

/-- Nothing comes any more because the connection is broken. -/
theorem recvLoop_broken (hend : fd.segments = []) (hbroken : fd.broken = true)
    (hlt : data.length < total) (fuel : Nat) (waits : Option Nat) :
    recvLoop total (fuel + 1) fd waits data = some ((.etSockRecv, data), fd) := by
  have hcap : 0 < maxRwCount := by decide
  have hread : read fd (total - data.length) = (.failed, fd) := by
    rw [read, Stream.recv_end (by omega) hend, Stream.ending, hbroken]
    rfl
  rw [recvLoop, wait_end hend, if_neg (not_not.mpr rfl), hread]

/-- More fuel changes nothing. -/
theorem recvLoop_mono {r : (ErrType × List UInt8) × Stream UInt8} (more : Nat) :
    ∀ {fuel : Nat} {fd : Stream UInt8} {waits : Option Nat} {data : List UInt8},
      recvLoop total fuel fd waits data = some r →
        recvLoop total (fuel + more) fd waits data = some r := by
  intro fuel
  induction fuel with
  | zero => exact fun h => absurd h.symm (Option.some_ne_none r)
  | succ fuel ih =>
      intro fd waits data h
      rw [Nat.add_right_comm, recvLoop]
      rw [recvLoop] at h
      split
      case isTrue hlate => rwa [if_pos hlate] at h
      case isFalse htime =>
        rw [if_neg htime] at h
        generalize read fd (total - data.length) = rc at h ⊢
        obtain ⟨rc, fd'⟩ := rc
        cases rc with
        | failed => exact h
        | closed =>
            simp only at h ⊢
            split
            case isTrue hlt => exact ih (by rwa [if_pos hlt] at h)
            case isFalse hge => rwa [if_neg hge] at h
        | bytes bs =>
            simp only at h ⊢
            split
            case isTrue hlt => exact ih (by rwa [if_pos hlt] at h)
            case isFalse hge => rwa [if_neg hge] at h

theorem maxRwCount_pos : 0 < maxRwCount := by decide

theorem start_length (n : Nat) : ([] : List UInt8).length + n = n := Nat.zero_add n

theorem inTime_of_not_late (hlate : ¬Late fd n waits)
    (h : Stream.Takes maxRwCount fd n k bs fd') : InTime waits k := by
  intro w hw
  by_contra hlt
  obtain ⟨bs₁, fd₁, htakes, hmissing, hseg⟩ := h.before maxRwCount_pos w (not_le.mp hlt)
  exact hlate ⟨w, bs₁, fd₁, hw, htakes, hmissing, hseg⟩

/-- The loop gets what is there, in time. -/
theorem recvLoop_all (hn : 0 < n) (hle : n ≤ fd.left.length) (hlate : ¬Late fd n waits) :
    ∃ fd', recvLoop n (fd.left.length + 1) fd waits [] = some ((.etOk, fd.left.take n), fd') ∧
      fd'.left = fd.left.drop n := by
  obtain ⟨k, bs, fd', htakes, hend⟩ := Stream.exists_takes maxRwCount_pos n fd
  obtain ⟨hleft, -, -⟩ := htakes.left maxRwCount_pos
  have hall : bs.length = n := by
    refine hend.resolve_right fun ⟨hlt, hnil⟩ => ?_
    rw [hleft, Stream.left_eq_nil_iff.mpr hnil, List.append_nil] at hle
    omega
  have hcount := htakes.count maxRwCount_pos
  have hdone := recvLoop_done htakes (start_length n) hn hall
    (inTime_of_not_late hlate htakes)
  have hmore := recvLoop_mono (fd.left.length + 1 - k) hdone
  rw [Nat.add_sub_of_le (by omega), List.nil_append] at hmore
  refine ⟨fd', ?_, ?_⟩
  · rw [hmore, hleft, ← hall, List.take_left]
  · rw [hleft, ← hall, List.drop_left]

theorem recvLoop_late (hlate : Late fd n waits) :
    ∃ data fd', recvLoop n (fd.left.length + 1) fd waits [] = some ((.etSockRecv, data), fd') := by
  obtain ⟨w, bs, fd', rfl, htakes, hlt, hseg⟩ := hlate
  have hcount := htakes.count maxRwCount_pos
  have hbound : bs.length ≤ fd.left.length := by
    rw [(htakes.left maxRwCount_pos).1, List.length_append]
    omega
  have hturns := recvLoop_takes htakes (start_length n) hlt
    (fun w' hw' => (Option.some_inj.mp hw').le) (fd.left.length + 1 - w)
  rw [Nat.sub_add_cancel (by omega), Option.map_some, Nat.sub_self, List.nil_append] at hturns
  obtain ⟨fuel, hfuel⟩ := Nat.exists_eq_add_of_le' (show 1 ≤ fd.left.length + 1 - w by omega)
  refine ⟨bs, fd', ?_⟩
  rw [hturns, hfuel, recvLoop, wait_late hseg]
  rfl

/-- Where less is there it ends only if the connection is broken. -/
theorem recvLoop_short (hlt : fd.left.length < n) (hlate : ¬Late fd n waits) :
    (fd.broken = true → ∃ data fd',
      recvLoop n (fd.left.length + 1) fd waits [] = some ((.etSockRecv, data), fd')) ∧
    (fd.broken = false → ∀ fuel, recvLoop n fuel fd waits [] = none) := by
  obtain ⟨k, bs, fd', htakes, hend⟩ := Stream.exists_takes maxRwCount_pos n fd
  obtain ⟨hleft, -, hbroken⟩ := htakes.left maxRwCount_pos
  have hlen := congrArg List.length hleft
  rw [List.length_append] at hlen
  obtain ⟨hmissing, hnil⟩ := hend.resolve_left (by omega)
  have hcount := htakes.count maxRwCount_pos
  have hturns := recvLoop_takes htakes (start_length n) hmissing
    (inTime_of_not_late hlate htakes)
  rw [List.nil_append] at hturns
  constructor
  · intro hb
    obtain ⟨fuel, hfuel⟩ := Nat.exists_eq_add_of_le' (show 1 ≤ fd.left.length + 1 - k by omega)
    have hlast := hturns (fd.left.length + 1 - k)
    rw [Nat.sub_add_cancel (by omega), hfuel,
      recvLoop_broken hnil (hbroken.trans hb) hmissing] at hlast
    exact ⟨bs, fd', hlast⟩
  · intro hb fuel
    cases hr : recvLoop n fuel fd waits [] with
    | none => rfl
    | some r =>
        have hmore := recvLoop_mono k hr
        rw [hturns fuel, recvLoop_stuck hnil (hbroken.trans hb) hmissing] at hmore
        exact absurd hmore.symm (Option.some_ne_none r)

end

/-! ### One call -/

section

variable {fd : Stream UInt8} {env : Env}

theorem rtMessageRecv_idle (h : Idle fd env) (fuel : Nat) :
    rtMessageRecv fuel fd env = some ((.etSockRecv, none), fd) := by
  rw [rtMessageRecv, h.1, wait_late h.2]
  rfl

theorem first_wait (h : ¬Idle fd env) : (rtMessageWaitData fd env.waits).1 = .etOk ∧
    (fd.segments ≠ [] → (rtMessageWaitData fd env.waits).2 = env.waits.map (· - 1)) := by
  by_cases hseg : fd.segments = []
  · rw [wait_end hseg]
    exact ⟨rfl, fun hne => absurd hseg hne⟩
  · have htime : InTime env.waits 1 := by
      intro w hw
      rcases Nat.eq_zero_or_pos w with rfl | hpos
      · exact absurd ⟨hw, hseg⟩ h
      · exact hpos
    rw [wait_inTime hseg htime]
    exact ⟨rfl, fun _ => rfl⟩

theorem read_header (fd : Stream UInt8) : read fd headerSize = fd.recv headerSize := by
  rw [read, Nat.min_eq_left (show headerSize ≤ maxRwCount by decide)]

/-- The header is read whole when it comes in one piece. -/
theorem header_whole (h : HeaderWhole fd) :
    fd.segments ≠ [] ∧
      fd.recv headerSize = (.bytes (fd.left.take headerSize), fd.advance headerSize) ∧
      (fd.left.take headerSize).length = headerSize ∧
      (fd.advance headerSize).left = fd.left.drop headerSize := by
  cases hs : fd.segments with
  | nil =>
      rw [HeaderWhole, hs] at h
      exact absurd h (by decide)
  | cons seg rest =>
      have hlen : headerSize ≤ seg.length := by
        rw [HeaderWhole, hs] at h
        exact h
      obtain ⟨hrecv, -, -, hleft⟩ := Stream.recv_bytes (show 0 < headerSize by decide) hs
      have htake : (seg.take headerSize).length = headerSize := List.length_take_of_le hlen
      refine ⟨List.cons_ne_nil _ _, ?_, ?_, ?_⟩
      · rw [hrecv, hleft, List.take_left' htake]
      · rw [hleft, List.take_left' htake, htake]
      · rw [hleft, List.drop_left' htake]

/-- Else the call is an error. -/
theorem rtMessageRecv_short (h : ¬Idle fd env) (hwhole : ¬HeaderWhole fd) :
    ∃ err fd', err ≠ ErrType.etOk ∧
      ∀ fuel, rtMessageRecv fuel fd env = some ((err, none), fd') := by
  cases hs : fd.segments with
  | nil =>
      have hrecv := Stream.recv_end (show 0 < headerSize by decide) hs
      cases hb : fd.broken with
      | true =>
          rw [Stream.ending, hb, if_pos rfl] at hrecv
          refine ⟨if env.errno = 131 then .etSockConn else .etSockRecv, fd, ?_, fun fuel => ?_⟩
          · split
            · decide
            · decide
          · rw [rtMessageRecv, (first_wait h).1, if_neg (not_not.mpr rfl), read_header, hrecv]
      | false =>
          rw [Stream.ending, hb, if_neg Bool.false_ne_true] at hrecv
          refine ⟨.etSockConn, fd, by decide, fun fuel => ?_⟩
          rw [rtMessageRecv, (first_wait h).1, if_neg (not_not.mpr rfl), read_header, hrecv]
  | cons seg rest =>
      have hlen : ¬headerSize ≤ seg.length := by
        rw [HeaderWhole, hs] at hwhole
        exact hwhole
      obtain ⟨hrecv, -⟩ := Stream.recv_bytes (show 0 < headerSize by decide) hs
      have hshort : (seg.take headerSize).length ≠ headerSize := by
        rw [List.length_take]
        omega
      refine ⟨.etSockRecv, fd.advance headerSize, by decide, fun fuel => ?_⟩
      rw [rtMessageRecv, (first_wait h).1, if_neg (not_not.mpr rfl), read_header, hrecv]
      exact if_pos hshort

theorem rtMessageRecv_whole (h : ¬Idle fd env) (hwhole : HeaderWhole fd) (fuel : Nat) :
    rtMessageRecv fuel fd env =
      if 0 < nextLen fd then
        (recvLoop (nextLen fd) fuel (fd.advance headerSize) (env.waits.map (· - 1)) []).map fun r =>
          ((r.1.1, if r.1.1 = .etOk then some (fd.left.take headerSize ++ r.1.2) else none), r.2)
      else some ((.etOk, some (fd.left.take headerSize)), fd.advance headerSize) := by
  obtain ⟨hseg, hrecv, hlen, -⟩ := header_whole hwhole
  rw [rtMessageRecv, (first_wait h).1, if_neg (not_not.mpr rfl), read_header, hrecv,
    (first_wait h).2 hseg]
  exact if_neg (not_not.mpr hlen)

/-- The fuel that `step` has is enough for the loop. -/
theorem recvLoop_enough (hwhole : HeaderWhole fd) {n : Nat} {waits : Option Nat}
    {r : (ErrType × List UInt8) × Stream UInt8}
    (hr : recvLoop n ((fd.advance headerSize).left.length + 1) (fd.advance headerSize) waits [] =
      some r) :
    recvLoop n (fd.left.length + 1) (fd.advance headerSize) waits [] = some r := by
  have hmore := recvLoop_mono (fd.left.length - (fd.advance headerSize).left.length) hr
  obtain ⟨-, -, -, hleft⟩ := header_whole hwhole
  have hle : (fd.advance headerSize).left.length ≤ fd.left.length := by
    rw [hleft, List.length_drop]
    omega
  rwa [Nat.add_right_comm, Nat.add_sub_of_le hle] at hmore

/-- The call returns what is there. -/
theorem rtMessageRecv_all (h : ¬Idle fd env) (hwhole : HeaderWhole fd)
    (hle : nextLen fd ≤ (fd.advance headerSize).left.length) (hlate : ¬DataLate fd env) :
    ∃ fd', rtMessageRecv (fd.left.length + 1) fd env =
        some ((.etOk, some (fd.left.take headerSize ++
          (fd.advance headerSize).left.take (nextLen fd))), fd') ∧
      fd'.left = (fd.advance headerSize).left.drop (nextLen fd) := by
  rw [rtMessageRecv_whole h hwhole]
  split
  case isTrue hn =>
    obtain ⟨fd', hloop, hleft⟩ := recvLoop_all hn hle hlate
    rw [recvLoop_enough hwhole hloop]
    exact ⟨fd', rfl, hleft⟩
  case isFalse hzero =>
    have hnil : nextLen fd = 0 := Nat.eq_zero_of_not_pos hzero
    rw [hnil, List.take_zero, List.append_nil, List.drop_zero]
    exact ⟨_, rfl, rfl⟩

theorem rtMessageRecv_late (h : ¬Idle fd env) (hwhole : HeaderWhole fd) (hlate : DataLate fd env) :
    ∃ fd', rtMessageRecv (fd.left.length + 1) fd env = some ((.etSockRecv, none), fd') := by
  obtain ⟨data, fd', hloop⟩ := recvLoop_late hlate
  have hn : 0 < nextLen fd := by
    obtain ⟨w, bs, fd', -, -, hmissing, -⟩ := hlate
    exact Nat.lt_of_le_of_lt (Nat.zero_le _) hmissing
  rw [rtMessageRecv_whole h hwhole, if_pos hn, recvLoop_enough hwhole hloop]
  exact ⟨fd', rfl⟩

/-- **Where the other side ends in the middle of a message the call is an error if the
connection is broken, and never returns if it was closed.** -/
theorem rtMessageRecv_cut (h : ¬Idle fd env) (hwhole : HeaderWhole fd)
    (hlt : (fd.advance headerSize).left.length < nextLen fd) (hlate : ¬DataLate fd env) :
    (fd.broken = true → ∃ fd',
      rtMessageRecv (fd.left.length + 1) fd env = some ((.etSockRecv, none), fd')) ∧
    (fd.broken = false → ∀ fuel, rtMessageRecv fuel fd env = none) := by
  obtain ⟨hbroken, hclosed⟩ := recvLoop_short hlt hlate
  constructor
  · intro hb
    obtain ⟨data, fd', hloop⟩ := hbroken hb
    rw [rtMessageRecv_whole h hwhole, if_pos (by omega), recvLoop_enough hwhole hloop]
    exact ⟨fd', rfl⟩
  · intro hb fuel
    rw [rtMessageRecv_whole h hwhole, if_pos (by omega), hclosed hb fuel]
    rfl

/-- More fuel changes nothing. -/
theorem rtMessageRecv_mono {fuel : Nat} {r : (ErrType × Option (List UInt8)) × Stream UInt8}
    (more : Nat) (hr : rtMessageRecv fuel fd env = some r) :
    rtMessageRecv (fuel + more) fd env = some r := by
  by_cases h : Idle fd env
  · rw [rtMessageRecv_idle h] at hr ⊢
    exact hr
  by_cases hwhole : HeaderWhole fd
  · rw [rtMessageRecv_whole h hwhole] at hr ⊢
    split at hr
    case isTrue hn =>
      obtain ⟨d, hd, rfl⟩ := Option.map_eq_some_iff.mp hr
      rw [if_pos hn, recvLoop_mono more hd]
      rfl
    case isFalse hn => rwa [if_neg hn]
  · obtain ⟨err, fd', -, hret⟩ := rtMessageRecv_short h hwhole
    rw [hret] at hr ⊢
    exact hr

/-- **A call that returns with any fuel returns with as much as `step` has.** -/
theorem rtMessageRecv_fuel {fuel : Nat} {r : (ErrType × Option (List UInt8)) × Stream UInt8}
    (hr : rtMessageRecv fuel fd env = some r) :
    rtMessageRecv (fd.left.length + 1) fd env = some r := by
  -- two calls that return, return the same
  have hsame : ∀ {r'}, rtMessageRecv (fd.left.length + 1) fd env = some r' →
      rtMessageRecv (fd.left.length + 1) fd env = some r := by
    intro r' hr'
    have hmore := rtMessageRecv_mono fuel hr'
    rw [Nat.add_comm, rtMessageRecv_mono _ hr] at hmore
    rw [hr', hmore]
  by_cases h : Idle fd env
  · exact hsame (rtMessageRecv_idle h _)
  by_cases hwhole : HeaderWhole fd
  · by_cases hlate : DataLate fd env
    · obtain ⟨fd', hret⟩ := rtMessageRecv_late h hwhole hlate
      exact hsame hret
    rcases Nat.lt_or_ge (fd.advance headerSize).left.length (nextLen fd) with hlt | hle
    · obtain ⟨hbroken, hclosed⟩ := rtMessageRecv_cut h hwhole hlt hlate
      cases hb : fd.broken with
      | true =>
          obtain ⟨fd', hret⟩ := hbroken hb
          exact hsame hret
      | false => exact absurd (hr.symm.trans (hclosed hb fuel)) (Option.some_ne_none r)
    · obtain ⟨fd', hret, -⟩ := rtMessageRecv_all h hwhole hle hlate
      exact hsame hret
  · obtain ⟨err, fd', -, hret⟩ := rtMessageRecv_short h hwhole
    exact hsame (hret _)

end

/-! ### Every run -/

section

variable {fd : Stream UInt8} {env : Env}

theorem kept_eq (ms : List Message) : Kept (fd, ms) env ↔
    ∃ r, rtMessageRecv (fd.left.length + 1) fd env = some r ∧ Right fd env ms r.1 := by
  constructor
  · rintro ⟨r, hr, hright⟩
    obtain ⟨r', hr', rfl⟩ := Option.map_eq_some_iff.mp hr
    exact ⟨r', hr', hright⟩
  · rintro ⟨r, hr, hright⟩
    exact ⟨_, Option.map_eq_some_iff.mpr ⟨r, hr, rfl⟩, hright⟩

theorem kept_of_returns {ms : List Message} {r : (ErrType × Option (List UInt8)) × Stream UInt8}
    (hr : rtMessageRecv (fd.left.length + 1) fd env = some r) :
    Kept (fd, ms) env ↔ Right fd env ms r.1 := by
  rw [kept_eq]
  refine ⟨fun ⟨r', hr', hright⟩ => ?_, fun hright => ⟨r, hr, hright⟩⟩
  rw [Option.some_inj.mp (hr.symm.trans hr')]
  exact hright

/-- An error is right when there is no message, unless nothing was waited for. -/
theorem right_err (h : ¬Idle fd env) {ms : List Message} {err : ErrType} (herr : err ≠ .etOk) :
    Right fd env ms (err, none) ↔ ms = [] := by
  constructor
  · intro hright
    cases hright with
    | idle _ hidle _ => exact absurd hidle h
    | none _ => rfl
  · rintro rfl
    exact .none herr

theorem right_ok {ms : List Message} {buff : List UInt8} :
    Right fd env ms (.etOk, some buff) ↔ ∃ m rest, ms = m :: rest ∧ buff = m.bytes := by
  constructor
  · intro hright
    cases hright with
    | message m rest => exact ⟨m, rest, rfl, rfl⟩
  · rintro ⟨m, rest, rfl, rfl⟩
    exact .message m rest

theorem next_message {m : Message} {rest : List UInt8} (hleft : fd.left = m.bytes ++ rest) :
    fd.left.take headerSize = m.header ∧ fd.left.drop headerSize = m.data ++ rest ∧
      nextLen fd = m.data.length := by
  rw [Message.bytes, List.append_assoc] at hleft
  have htake : fd.left.take headerSize = m.header := by
    rw [hleft, List.take_left' m.header_length]
  refine ⟨htake, ?_, ?_⟩
  · rw [hleft, List.drop_left' m.header_length]
  · rw [nextLen, htake, m.data_length]

/-- **When a call with a message to come is right.** -/
theorem kept_message {m : Message} {ms : List Message} {rest : List UInt8}
    (hleft : fd.left = m.bytes ++ rest) (h : ¬Idle fd env) :
    Kept (fd, m :: ms) env ↔ HeaderWhole fd ∧ ¬DataLate fd env := by
  obtain ⟨htake, hdrop, hlen⟩ := next_message hleft
  by_cases hwhole : HeaderWhole fd
  · rw [and_iff_right hwhole]
    by_cases hlate : DataLate fd env
    · obtain ⟨fd', hret⟩ := rtMessageRecv_late h hwhole hlate
      rw [kept_of_returns hret, right_err h (by decide)]
      exact iff_of_false (List.cons_ne_nil m ms) fun hnot => hnot hlate
    · have hdata : (fd.advance headerSize).left = m.data ++ rest :=
        (header_whole hwhole).2.2.2.trans hdrop
      obtain ⟨fd', hret, -⟩ := rtMessageRecv_all h hwhole
        (by rw [hdata, hlen, List.length_append]; omega) hlate
      rw [kept_of_returns hret, hdata, hlen, htake, List.take_left, right_ok]
      exact iff_of_true ⟨m, ms, rfl, rfl⟩ hlate
  · obtain ⟨err, fd', herr, hret⟩ := rtMessageRecv_short h hwhole
    rw [kept_of_returns (hret _), right_err h herr]
    exact iff_of_false (List.cons_ne_nil m ms) fun hsafe => hwhole hsafe.1

/-- **When a call with no message to come is right.** -/
theorem kept_nil (h : ¬Idle fd env) : Kept (fd, []) env ↔
    (HeaderWhole fd → DataLate fd env ∨
      fd.broken = true ∧ (fd.advance headerSize).left.length < nextLen fd) := by
  by_cases hwhole : HeaderWhole fd
  · rw [forall_prop_of_true hwhole]
    by_cases hlate : DataLate fd env
    · obtain ⟨fd', hret⟩ := rtMessageRecv_late h hwhole hlate
      rw [kept_of_returns hret, right_err h (by decide)]
      exact iff_of_true rfl (.inl hlate)
    rw [or_iff_right hlate]
    rcases Nat.lt_or_ge (fd.advance headerSize).left.length (nextLen fd) with hlt | hle
    · rw [and_iff_left hlt]
      obtain ⟨hbroken, hclosed⟩ := rtMessageRecv_cut h hwhole hlt hlate
      cases hb : fd.broken with
      | true =>
          obtain ⟨fd', hret⟩ := hbroken hb
          rw [kept_of_returns hret, right_err h (by decide)]
          exact iff_of_true rfl rfl
      | false =>
          refine iff_of_false (fun hkept => ?_) Bool.false_ne_true
          obtain ⟨r, hr, -⟩ := (kept_eq []).mp hkept
          exact Option.some_ne_none r (hr.symm.trans (hclosed hb _))
    · obtain ⟨fd', hret, -⟩ := rtMessageRecv_all h hwhole hle hlate
      rw [kept_of_returns hret, right_ok]
      refine iff_of_false (fun ⟨m, rest, hnil, _⟩ => List.cons_ne_nil m rest hnil.symm) ?_
      exact fun hcut => absurd hcut.2 (Nat.not_lt.mpr hle)
  · obtain ⟨err, fd', herr, hret⟩ := rtMessageRecv_short h hwhole
    rw [kept_of_returns (hret _), right_err h herr]
    exact iff_of_true rfl fun hwhole' => absurd hwhole' hwhole

end

/-- The stream begins with the messages to come. -/
def Coming (s : Stream UInt8 × List Message) : Prop :=
  ∃ rest, s.1.left = s.2.flatMap Message.bytes ++ rest

theorem kept_iff {s : Stream UInt8 × List Message} (hcoming : Coming s) (env : Env) :
    Kept s env ↔ Safe s env := by
  obtain ⟨fd, ms⟩ := s
  obtain ⟨rest, hleft⟩ := hcoming
  by_cases h : Idle fd env
  · rw [kept_of_returns (rtMessageRecv_idle h _)]
    exact iff_of_true (.idle ms h (by decide)) (.inl h)
  cases ms with
  | nil => rw [kept_nil h, Safe, or_iff_right h]
  | cons m ms =>
      simp only [List.flatMap_cons, List.append_assoc] at hleft
      rw [kept_message hleft h, Safe, or_iff_right h]

/-- What is left after a call that was right begins with the messages still to come. -/
theorem step_coming {s s' : Stream UInt8 × List Message} (hcoming : Coming s) {env : Env}
    (hsafe : Safe s env) {o : ErrType × Option (List UInt8)} (hstep : step s env = some (s', o)) :
    Coming s' := by
  obtain ⟨fd, ms⟩ := s
  obtain ⟨r, hr, heq⟩ := Option.map_eq_some_iff.mp hstep
  obtain ⟨rfl, rfl⟩ := Prod.mk.inj heq
  by_cases h : Idle fd env
  · rw [rtMessageRecv_idle h, Option.some_inj] at hr
    subst hr
    exact hcoming
  obtain ⟨rest, hleft⟩ := hcoming
  cases ms with
  | nil =>
      refine ⟨r.2.left, ?_⟩
      simp
  | cons m ms =>
      simp only [List.flatMap_cons, List.append_assoc] at hleft
      obtain ⟨hwhole, hlate⟩ := hsafe.resolve_left h
      obtain ⟨-, hdrop, hlen⟩ := next_message hleft
      have hdata := (header_whole hwhole).2.2.2.trans hdrop
      obtain ⟨fd', hret, hleft'⟩ := rtMessageRecv_all h hwhole
        (by rw [hdata, hlen, List.length_append]; omega) hlate
      rw [hret, Option.some_inj] at hr
      subst hr
      refine ⟨rest, ?_⟩
      simp only [if_true, List.tail_cons]
      rw [hleft', hdata, hlen, List.drop_left]

/-- **Every call of a run returns what it should exactly when every call is one that goes
well.** -/
theorem rt_message_recv_iff (fd : Stream UInt8) (messages : List Message)
    (h : Delivers fd messages) (envs : List Env) :
    Machine.Meets step Kept (fd, messages) envs ↔ Machine.Meets step Safe (fd, messages) envs := by
  obtain ⟨cut, k, -, hleft⟩ := h
  exact Machine.meets_congr (J := Coming) (fun _ env hJ => kept_iff hJ env)
    (fun _ _ hJ hsafe _ _ hstep => step_coming hJ hsafe hstep) envs ⟨_, hleft⟩

/-- A message of two bytes. -/
def twoBytes : Message where
  header := List.replicate 24 0 ++ [2, 0, 0, 0] ++ List.replicate 12 0
  data := [7, 8]
  header_length := by decide
  data_length := by decide

/-- A stream in these pieces, closed at the end. -/
def pieces (segments : List (List UInt8)) (h : ∀ seg ∈ segments, seg ≠ []) : Stream UInt8 where
  segments := segments
  broken := false
  nonempty := h

theorem not_dataLate_none (fd : Stream UInt8) (errno : Nat) : ¬DataLate fd ⟨none, errno⟩ := by
  rintro ⟨w, data, fd', hw, -⟩
  exact Option.some_ne_none w hw.symm

theorem rt_message_recv_iff_two : Machine.Meets step Kept
    (pieces [twoBytes.header, [7], [8]] (by decide), [twoBytes]) [⟨none, 0⟩] :=
  (rt_message_recv_iff _ _ ⟨twoBytes, 0, by decide, by decide⟩ _).mpr
    ⟨.inr ⟨by unfold HeaderWhole; decide, not_dataLate_none _ 0⟩, fun _ _ _ => trivial⟩

/-- The other side closes after one byte of two, and the call never returns; a header in two
pieces, and the message is not returned. -/
theorem rt_message_recv_closed :
    (Delivers (pieces [twoBytes.header, [7]] (by decide)) [] ∧
      ∀ fuel, rtMessageRecv fuel (pieces [twoBytes.header, [7]] (by decide)) ⟨none, 0⟩ = none) ∧
    Delivers (pieces [twoBytes.header.take 20, twoBytes.header.drop 20, [7, 8]] (by decide))
        [twoBytes] ∧
      ¬Kept (pieces [twoBytes.header.take 20, twoBytes.header.drop 20, [7, 8]] (by decide),
        [twoBytes]) ⟨none, 0⟩ := by
  have hidle : ∀ fd, ¬Idle fd ⟨none, 0⟩ := fun fd h => Option.some_ne_none 0 h.1.symm
  refine ⟨⟨⟨twoBytes, 41, by decide, by decide⟩, ?_⟩, ⟨twoBytes, 0, by decide, by decide⟩, ?_⟩
  · exact (rtMessageRecv_cut (hidle _) (by unfold HeaderWhole; decide) (by decide)
      (not_dataLate_none _ 0)).2 rfl
  · intro hkept
    have hleft : (pieces [twoBytes.header.take 20, twoBytes.header.drop 20, [7, 8]]
        (by decide)).left = twoBytes.bytes ++ [] := by decide
    have hwhole := ((kept_message hleft (hidle _)).mp hkept).1
    unfold HeaderWhole at hwhole
    exact absurd hwhole (by decide)

end Awoke.Rtmsg
