/-
Which responses are received as they were sent, and which streams at all.

A stream is read at most eight times, and what has come after so many reads depends on
nothing but the stream.  The loop looks at it after each read; so the first read has to
bring the whole head, and less than the buffer holds, since there is no room for the NUL
behind a full one.

From then on no search fails until the head is taken apart, and the buffer's limit ends the
loop.  Whether it ends with the response is a matter of the length it reads: that text is
searched for in all that has come, and what was read once is kept.
-/
import Awoke.Proofs.HttpParse

namespace Awoke.Http

open CString

/-! ### What the loop should do -/

/-- The bytes a stream begins with are received as a response. -/
structure Received.Right (r : Received) (m : Message) : Prop where
  ret : r.ret = .etOk
  body : r.rsp.bind Response.bodyBytes = some m.body
  /-- The loop ends when all of it has come, and not before. -/
  ends : ∃ before, r.lengths = before ++ [m.bytes.length] ∧ ∀ l ∈ before, l < m.bytes.length

/-- The loop ends without a crash, and a response that fits is received. -/
def RecvAsSent (s : Socket.Stream UInt8) : Prop :=
  (∃ n r, responseRecv n s = some r) ∧
    ∀ m : Message, m.bytes.length ≤ bufferLimit → s.left = m.bytes →
      ∃ n r, responseRecv n s = some r ∧ r.Right m

/-! ### What comes of a stream -/

/-- What has come after so many reads that went well, and what is left. -/
def arrived (s : Socket.Stream UInt8) : Nat → Option (List UInt8 × Socket.Stream UInt8)
  | 0 => some ([], s)
  | k + 1 => (arrived s k).bind fun q =>
      let read := tcpConnectRecv q.2 ((k + 1) * bufferChunk - q.1.length)
      if read.1 = .etOk then some (q.1 ++ read.2.1, read.2.2) else none

/-- The bytes of it. -/
def received (s : Socket.Stream UInt8) (k : Nat) : Option (List UInt8) :=
  (arrived s k).map Prod.fst

/-- The length of the body as it was read first in what has come so far. -/
def lengthRead (s : Socket.Stream UInt8) : Nat → UInt64
  | 0 => 0
  | k + 1 =>
      if lengthRead s k = 0 then
        ((received s (k + 1)).bind fun data => Response.scanContentLength (text data)).getD 0
      else lengthRead s k

/-- As many bytes have come behind the head as that length says. -/
def Complete (s : Socket.Stream UInt8) (k : Nat) : Prop :=
  ∃ data h, received s k = some data ∧ headLength data = some h ∧
    data.length = h + (lengthRead s k).toNat

/-- The first read fails, or it brings the whole head and leaves room for a NUL. -/
def HeadFirst (s : Socket.Stream UInt8) : Prop :=
  ∀ data, received s 1 = some data → data.length < bufferChunk ∧ (headLength data).isSome

/-- The first of eight reads to complete a response is this one. -/
def CompletedBy (s : Socket.Stream UInt8) (k : Nat) : Prop :=
  0 < k ∧ k ≤ 8 ∧ Complete s k ∧ ∀ i, 0 < i → i < k → ¬Complete s i

/-- Where the response is complete, from every line of its head on a colon and a space are
somewhere; or there are no two spaces, and the lines are not read. -/
def LinesRead (s : Socket.Stream UInt8) : Prop :=
  ∀ k data, CompletedBy s k → received s k = some data →
    TwoSpaces (text data) → LinesSplit (text data)

/-- The read that brings the last byte of the message is one of the first eight, the length
has been read by then, and at the first read unless that brought more than the head. -/
def Timely (s : Socket.Stream UInt8) (m : Message) : Prop :=
  ∃ k < 8, received s k ≠ some m.bytes ∧ received s (k + 1) = some m.bytes ∧
    (lengthRead s (k + 1)).toNat = m.body.length ∧
    ((lengthRead s 1).toNat = m.body.length ∨
      ∃ data, received s 1 = some data ∧ m.head.length < data.length)

section Arrived

variable {s : Socket.Stream UInt8} {k : Nat} {data : List UInt8} {left : Socket.Stream UInt8}

/-- A read that goes well takes what fits, and something if there is something left. -/
theorem tcpConnectRecv_ok {t : Socket.Stream UInt8} {maxSize : Nat} (hroom : 0 < maxSize)
    (h : (tcpConnectRecv t maxSize).1 = .etOk) :
    (tcpConnectRecv t maxSize).2.1.length ≤ maxSize ∧
      t.left = (tcpConnectRecv t maxSize).2.1 ++ (tcpConnectRecv t maxSize).2.2.left ∧
      (t.left ≠ [] → (tcpConnectRecv t maxSize).2.1 ≠ []) := by
  cases hseg : t.segments with
  | nil =>
      have hrecv := Socket.Stream.recv_end hroom hseg
      have hempty := Socket.Stream.left_eq_nil_iff.mpr hseg
      cases hbroken : t.broken with
      | true =>
          rw [Socket.Stream.ending, if_pos hbroken] at hrecv
          rw [tcpConnectRecv, hrecv] at h
          cases h
      | false =>
          rw [Socket.Stream.ending, if_neg (by rw [hbroken]; decide)] at hrecv
          rw [tcpConnectRecv, hrecv]
          exact ⟨Nat.zero_le _, rfl, fun hne => absurd hempty hne⟩
  | cons seg rest =>
      obtain ⟨hrecv, hne, hlen, hleft⟩ := Socket.Stream.recv_bytes hroom hseg
      rw [tcpConnectRecv, hrecv]
      exact ⟨hlen, hleft, fun _ => hne⟩

theorem arrived_succ (ha : arrived s k = some (data, left)) :
    arrived s (k + 1) =
      let read := tcpConnectRecv left ((k + 1) * bufferChunk - data.length)
      if read.1 = .etOk then some (data ++ read.2.1, read.2.2) else none := by
  rw [arrived, ha]
  rfl

/-- What has come is the first part of what comes, and the buffer has room for it. -/
theorem arrived_spec : ∀ (k : Nat) {data : List UInt8} {left : Socket.Stream UInt8},
    arrived s k = some (data, left) →
      s.left = data ++ left.left ∧ data.length ≤ k * bufferChunk := by
  intro k
  induction k with
  | zero =>
      intro data left h
      rw [arrived, Option.some.injEq, Prod.mk.injEq] at h
      rw [← h.1, ← h.2]
      exact ⟨rfl, Nat.zero_le _⟩
  | succ k ih =>
      intro data left h
      obtain ⟨⟨before, t⟩, ht, hread⟩ := Option.bind_eq_some_iff.mp h
      obtain ⟨hleft, hlen⟩ := ih ht
      have hroom : 0 < (k + 1) * bufferChunk - before.length := by
        rw [Nat.succ_mul]
        have : 0 < bufferChunk := by decide
        omega
      simp only at hread
      split at hread
      · rename_i hok
        obtain ⟨hfits, hsplit, _⟩ := tcpConnectRecv_ok hroom hok
        rw [Option.some.injEq, Prod.mk.injEq] at hread
        rw [← hread.1, ← hread.2, List.length_append, List.append_assoc, ← hsplit]
        exact ⟨hleft, by omega⟩
      · exact nomatch hread

theorem arrived_of_received (h : received s k = some data) :
    ∃ left, arrived s k = some (data, left) := by
  obtain ⟨⟨data', left⟩, hleft, rfl⟩ := Option.map_eq_some_iff.mp h
  exact ⟨left, hleft⟩

theorem received_before (h : received s (k + 1) = some data) :
    ∃ before more, received s k = some before ∧ data = before ++ more := by
  obtain ⟨left, hleft⟩ := arrived_of_received h
  obtain ⟨⟨before, t⟩, ht, hread⟩ := Option.bind_eq_some_iff.mp hleft
  simp only at hread
  split at hread
  · rw [Option.some.injEq, Prod.mk.injEq] at hread
    exact ⟨before, _, by rw [received, ht]; rfl, hread.1.symm⟩
  · exact nomatch hread

theorem received_mono {i : Nat} (hle : i ≤ k) : ∀ {data : List UInt8}, received s k = some data →
    ∃ before, received s i = some before ∧ before <+: data := by
  induction hle with
  | refl => exact fun h => ⟨_, h, List.prefix_rfl⟩
  | step _ ih =>
      intro data h
      obtain ⟨next, more, hnext, rfl⟩ := received_before h
      obtain ⟨before, hbefore, hpre⟩ := ih hnext
      exact ⟨before, hbefore, hpre.trans (List.prefix_append _ _)⟩

theorem lengthRead_kept {i : Nat} (hi : lengthRead s i ≠ 0) (hle : i ≤ k) :
    lengthRead s k = lengthRead s i := by
  induction hle with
  | refl => rfl
  | step _ ih => rw [lengthRead, if_neg (by rw [ih]; exact hi), ih]

end Arrived

/-! ### One turn -/

theorem MemPtr.between_len {head tail : Nat} (hle : head ≤ tail) (htail : tail < 2 ^ 64) :
    (MemPtr.between head tail).len.toNat = tail - head := by
  have hhead : (UInt64.ofNat head).toNat = head :=
    UInt64.toNat_ofNat_of_lt' (Nat.lt_of_le_of_lt hle htail)
  have htail' : (UInt64.ofNat tail).toNat = tail := UInt64.toNat_ofNat_of_lt' htail
  rw [MemPtr.between, UInt64.toNat_sub_of_le _ _ (UInt64.le_iff_toNat_le.mpr (by omega)), hhead,
    htail']

/-- The buffer during the turn behind the `k`-th. -/
def chunkAt (k : Nat) (buff : List UInt8) : Buffchunk where
  buff := buff
  size := (k + 1) * bufferChunk
  alloc := if k = 0 then bufferChunk else (k + 1) * bufferChunk + 1

/-- There is room for the NUL, unless the first read fills the buffer. -/
theorem chunkAt_store {k : Nat} {buff bs : List UInt8}
    (hfits : (buff ++ bs).length ≤ (k + 1) * bufferChunk) :
    (chunkAt k buff).store bs =
      if k = 0 ∧ bufferChunk ≤ (buff ++ bs).length then none
      else some (chunkAt k (buff ++ bs)) := by
  have hlen : (buff ++ bs).length = (chunkAt k buff).length + bs.length := List.length_append
  rw [Buffchunk.store, ← hlen]
  by_cases hfull : k = 0 ∧ bufferChunk ≤ (buff ++ bs).length
  · rw [if_pos hfull, if_neg]
    rw [show (chunkAt k buff).alloc = bufferChunk from if_pos hfull.1]
    exact Nat.not_lt_of_le hfull.2
  · rw [if_neg hfull, if_pos]
    · rfl
    · by_cases hk : k = 0
      · rw [show (chunkAt k buff).alloc = bufferChunk from if_pos hk]
        exact Nat.lt_of_not_le fun hle => hfull ⟨hk, hle⟩
      · rw [show (chunkAt k buff).alloc = (k + 1) * bufferChunk + 1 from if_neg hk]
        exact Nat.lt_succ_of_le hfits

theorem chunkAt_resize {k : Nat} (hk : k + 1 < 8) (buff : List UInt8) :
    (chunkAt k buff).resize ((chunkAt k buff).size + bufferChunk) =
      (.etOk, chunkAt (k + 1) buff) := by
  have hgrow : (chunkAt k buff).size + bufferChunk = (k + 1 + 1) * bufferChunk :=
    (Nat.succ_mul _ _).symm
  have hlimit : (k + 1 + 1) * bufferChunk ≤ bufferLimit := Nat.mul_le_mul_right _ hk
  have hchunk : 0 < bufferChunk := by decide
  rw [Buffchunk.resize, if_neg (Nat.not_le_of_lt (Nat.lt_add_of_pos_right hchunk)), hgrow,
    if_neg (Nat.not_lt_of_le hlimit)]
  rfl

theorem chunkAt_resize_limit (buff : List UInt8) :
    (chunkAt 7 buff).resize ((chunkAt 7 buff).size + bufferChunk) =
      (.etMemLimit, chunkAt 7 buff) := by
  rw [Buffchunk.resize, if_neg, if_pos]
  · show 8 * bufferChunk < 8 * bufferChunk + bufferChunk
    decide
  · show ¬8 * bufferChunk + bufferChunk ≤ 8 * bufferChunk
    decide

/-- A response between two reads, after so many of them. -/
structure Turn (s : Socket.Stream UInt8) (k : Nat) (rsp : Response)
    (socket : Socket.Stream UInt8) : Prop where
  comes : arrived s k = some (rsp.buffchunk.buff, socket)
  chunk : rsp.buffchunk = chunkAt (k - 1) rsp.buffchunk.buff
  started : rsp.buffchunk.length = 0 ↔ k = 0
  length : rsp.contentLength = lengthRead s k

/-- The response a turn ends with. -/
def Response.afterRead (rsp : Response) (s : Socket.Stream UInt8) (k : Nat) (data : List UInt8)
    (h : Nat) : Response :=
  { rsp with
    contentLength := lengthRead s (k + 1)
    body := some (.between h data.length)
    buffchunk := chunkAt k data }

section Turns

variable {s : Socket.Stream UInt8} {k : Nat} {rsp : Response} {socket : Socket.Stream UInt8}
  {lengths : List Nat} {n : Nat} {data : List UInt8} {left : Socket.Stream UInt8}

theorem Turn.init (s : Socket.Stream UInt8) : Turn s 0 .init s where
  comes := rfl
  chunk := rfl
  started := iff_of_true rfl rfl
  length := rfl

theorem Turn.resized (h : Turn s k rsp socket) (hk : k < 8) :
    (if rsp.buffchunk.length = 0 then (ErrType.etOk, rsp.buffchunk)
      else rsp.buffchunk.resize (rsp.buffchunk.size + bufferChunk)) =
      (.etOk, chunkAt k rsp.buffchunk.buff) := by
  cases k with
  | zero =>
      rw [if_pos (h.started.mpr rfl), Prod.mk.injEq]
      exact ⟨rfl, h.chunk⟩
  | succ k =>
      rw [if_neg fun h0 => absurd (h.started.mp h0) (Nat.succ_ne_zero k), h.chunk]
      exact chunkAt_resize hk _

theorem recvLoop_limit (h : Turn s 8 rsp socket) :
    recvLoop (n + 1) rsp socket lengths = some { ret := .etMemLimit, rsp := none, lengths } := by
  have hstart : rsp.buffchunk.length ≠ 0 := fun h0 => absurd (h.started.mp h0) (by decide)
  have hresize : rsp.buffchunk.resize (rsp.buffchunk.size + bufferChunk) =
      (.etMemLimit, rsp.buffchunk) := by
    rw [h.chunk]
    exact chunkAt_resize_limit _
  rw [recvLoop]
  simp only [if_neg hstart, hresize]
  rfl

theorem recvLoop_read (h : Turn s k rsp socket) (hk : k < 8) :
    recvLoop (n + 1) rsp socket lengths =
      let read := tcpConnectRecv socket ((k + 1) * bufferChunk - rsp.buffchunk.buff.length)
      if read.1 ≠ .etOk then some { ret := read.1, rsp := none, lengths }
      else
        ((chunkAt k rsp.buffchunk.buff).store read.2.1).bind fun chunk =>
          (Response.recvFinish { rsp with buffchunk := chunk }).bind fun q =>
            if q.1 then
              q.2.parseHeader.map fun parsed =>
                { ret := .etOk, rsp := some parsed.2, lengths := lengths ++ [chunk.length] }
            else recvLoop n q.2 read.2.2 (lengths ++ [chunk.length]) := by
  rw [recvLoop]
  simp only [h.resized hk]
  rfl

theorem recvLoop_failed (h : Turn s k rsp socket) (hk : k < 8) (hnone : arrived s (k + 1) = none) :
    ∃ r, recvLoop (n + 1) rsp socket lengths = some r ∧ r.ret ≠ .etOk := by
  rw [arrived_succ h.comes] at hnone
  simp only at hnone
  split at hnone
  · exact nomatch hnone
  · rename_i hread
    rw [recvLoop_read h hk]
    exact ⟨_, if_pos hread, hread⟩

theorem preparse_eq (rsp : Response) :
    rsp.preparse = (headLength rsp.buffchunk.buff).map fun h =>
      { rsp with
        contentLength :=
          if rsp.contentLength = 0 then
            (Response.scanContentLength (text rsp.buffchunk.buff)).getD 0
          else rsp.contentLength
        body := some (.between h rsp.buffchunk.length) } := by
  rw [headLength, Option.map_map]
  rfl

/-- A turn with a read that went well: there has to be room for the NUL, and the head has to
be there. -/
theorem recvLoop_arrived (h : Turn s k rsp socket) (hk : k < 8)
    (ha : arrived s (k + 1) = some (data, left)) :
    recvLoop (n + 1) rsp socket lengths =
      if k = 0 ∧ bufferChunk ≤ data.length then none
      else (headLength data).bind fun hl =>
        if (MemPtr.between hl data.length).len == lengthRead s (k + 1) then
          (rsp.afterRead s k data hl).parseHeader.map fun parsed =>
            { ret := .etOk, rsp := some parsed.2, lengths := lengths ++ [data.length] }
        else recvLoop n (rsp.afterRead s k data hl) left (lengths ++ [data.length]) := by
  have hread := ha
  rw [arrived_succ h.comes] at hread
  simp only at hread
  split at hread
  case isFalse => exact nomatch hread
  rename_i hok
  rw [Option.some.injEq, Prod.mk.injEq] at hread
  obtain ⟨hdata, rfl⟩ := hread
  have hfits := (arrived_spec (k + 1) ha).2
  have hlength : (if rsp.contentLength = 0 then
      (Response.scanContentLength (text data)).getD 0 else rsp.contentLength) =
        lengthRead s (k + 1) := by
    rw [lengthRead, h.length, received, ha]
    rfl
  rw [recvLoop_read h hk]
  simp only [ne_eq, hok, not_true_eq_false, if_false]
  rw [chunkAt_store (by rw [hdata]; exact hfits), hdata]
  split
  · rfl
  · rw [Option.bind_some, Response.recvFinish, preparse_eq, Option.map_map, Option.bind_map]
    show (headLength data).bind _ = _
    congr 1
    funext hl
    rw [Response.afterRead, ← hlength]
    rfl

theorem Turn.next (ha : arrived s (k + 1) = some (data, left)) {hl : Nat}
    (hhead : headLength data = some hl) : Turn s (k + 1) (rsp.afterRead s k data hl) left where
  comes := ha
  chunk := rfl
  started := by
    have hpos : data.length ≠ 0 := by
      have := headLength_bounds hhead
      omega
    exact iff_of_false hpos (Nat.succ_ne_zero k)
  length := rfl

/-- The test at the end of a turn. -/
theorem complete_iff (ha : arrived s (k + 1) = some (data, left)) (hk : k < 8) {hl : Nat}
    (hhead : headLength data = some hl) :
    ((MemPtr.between hl data.length).len == lengthRead s (k + 1)) ↔ Complete s (k + 1) := by
  have hreceived : received s (k + 1) = some data := by
    rw [received, ha]
    rfl
  have hle := (headLength_bounds hhead).2
  have hsmall : data.length < 2 ^ 64 := by
    have hfits := (arrived_spec (k + 1) ha).2
    have hlimit : (k + 1) * bufferChunk ≤ 8 * bufferChunk := Nat.mul_le_mul_right _ hk
    exact Nat.lt_of_le_of_lt (Nat.le_trans hfits hlimit) (by decide)
  rw [beq_iff_eq, ← UInt64.toNat_inj, MemPtr.between_len hle hsmall]
  constructor
  · intro heq
    exact ⟨data, hl, hreceived, hhead, by omega⟩
  · rintro ⟨data', hl', hreceived', hhead', heq⟩
    obtain rfl : data = data' := Option.some.inj (hreceived.symm.trans hreceived')
    obtain rfl : hl = hl' := Option.some.inj (hhead.symm.trans hhead')
    omega

theorem HeadFirst.head (hs : HeadFirst s) (hdata : received s (k + 1) = some data) :
    (headLength data).isSome := by
  obtain ⟨first, hfirst, more, rfl⟩ := received_mono (Nat.le_add_left 1 k) hdata
  obtain ⟨hl, hhead⟩ := Option.isSome_iff_exists.mp (hs first hfirst).2
  rw [headLength_append hhead more]
  rfl

/-- How much has come after so many reads. -/
def lengthAt (s : Socket.Stream UInt8) (k : Nat) : Nat := ((received s k).getD []).length

/-- The body of the response is what has come behind the head. -/
def Response.BehindHead (rsp : Response) : Prop :=
  ∃ h, headLength rsp.buffchunk.buff = some h ∧
    rsp.body = some (.between h rsp.buffchunk.length)

/-- **The loop ends with the first of eight reads that completes a response**, and without
one when there is none. -/
theorem recvLoop_run (hs : HeadFirst s) :
    ∀ (n k : Nat) (rsp : Response) (socket : Socket.Stream UInt8) (lengths : List Nat),
      Turn s k rsp socket → k ≤ 8 → 9 ≤ n + k →
      (∃ j rsp' left, k < j ∧ j ≤ 8 ∧ Complete s j ∧ (∀ i, k < i → i < j → ¬Complete s i) ∧
        Turn s j rsp' left ∧ rsp'.BehindHead ∧
        recvLoop n rsp socket lengths = rsp'.parseHeader.map fun parsed =>
          { ret := .etOk
            rsp := some parsed.2
            lengths := lengths ++ (List.range' (k + 1) (j - k)).map (lengthAt s) }) ∨
      ((∀ j, k < j → j ≤ 8 → ¬Complete s j) ∧
        ∃ r, recvLoop n rsp socket lengths = some r ∧ r.ret ≠ .etOk) := by
  intro n
  induction n with
  | zero =>
      intro k rsp socket lengths _ hk hn
      omega
  | succ n ih =>
      intro k rsp socket lengths h hk hn
      rcases Nat.eq_or_lt_of_le hk with rfl | hlt
      · refine Or.inr ⟨fun j hj hj8 => absurd hj (Nat.not_lt_of_le hj8), ?_⟩
        exact ⟨_, recvLoop_limit h, nofun⟩
      cases ha : arrived s (k + 1) with
      | none =>
          refine Or.inr ⟨fun j hj _ ⟨data, _, hdata, _⟩ => ?_, recvLoop_failed h hlt ha⟩
          obtain ⟨before, hbefore, _⟩ := received_mono hj hdata
          rw [received, ha] at hbefore
          exact nomatch hbefore
      | some q =>
          obtain ⟨data, left⟩ := q
          have hdata : received s (k + 1) = some data := by
            rw [received, ha]
            rfl
          obtain ⟨hl, hhead⟩ := Option.isSome_iff_exists.mp (hs.head hdata)
          have hroom : ¬(k = 0 ∧ bufferChunk ≤ data.length) := by
            rintro ⟨rfl, hfull⟩
            exact absurd hfull (Nat.not_le_of_lt (hs data hdata).1)
          have hat : lengthAt s (k + 1) = data.length := by
            rw [lengthAt, hdata]
            rfl
          have hnext : Turn s (k + 1) (rsp.afterRead s k data hl) left := .next ha hhead
          rw [recvLoop_arrived h hlt ha, if_neg hroom, hhead, Option.bind_some]
          by_cases hdone : Complete s (k + 1)
          · refine Or.inl ⟨k + 1, _, left, Nat.lt_succ_self k, hlt, hdone,
              fun i hi hi' => absurd hi' (Nat.not_lt_of_le hi), hnext, ⟨hl, hhead, rfl⟩, ?_⟩
            rw [if_pos ((complete_iff ha hlt hhead).mpr hdone), Nat.add_sub_cancel_left, ← hat]
            rfl
          · rw [if_neg (mt (complete_iff ha hlt hhead).mp hdone)]
            rcases ih (k + 1) _ left (lengths ++ [data.length]) hnext hlt (by omega) with
              ⟨j, rsp', left', hj, hj8, hcomplete, hfirst, hturn, hbody, heq⟩ | ⟨hnever, hr⟩
            · refine Or.inl ⟨j, rsp', left', Nat.lt_of_succ_lt hj, hj8, hcomplete, ?_, hturn,
                hbody, ?_⟩
              · intro i hi hij
                rcases Nat.eq_or_lt_of_le hi with rfl | hi
                · exact hdone
                · exact hfirst i hi hij
              · rw [heq, show j - k = j - (k + 1) + 1 by omega, List.range'_succ, List.map_cons,
                  hat, List.append_assoc]
                rfl
            · refine Or.inr ⟨fun j hj hj8 => ?_, hr⟩
              rcases Nat.eq_or_lt_of_le hj with rfl | hj
              · exact hdone
              · exact hnever j hj hj8

theorem CompletedBy.unique {j : Nat} (hj : CompletedBy s j) (hk : CompletedBy s k) : j = k := by
  rcases Nat.lt_trichotomy j k with hlt | heq | hgt
  · exact absurd hj.2.2.1 (hk.2.2.2 j hj.1 hlt)
  · exact heq
  · exact absurd hk.2.2.1 (hj.2.2.2 k hk.1 hgt)

theorem responseRecv_run (hs : HeadFirst s) (n : Nat) :
    (∃ j rsp' left, CompletedBy s j ∧ Turn s j rsp' left ∧ rsp'.BehindHead ∧
        responseRecv (n + 9) s = rsp'.parseHeader.map fun parsed =>
          { ret := .etOk
            rsp := some parsed.2
            lengths := (List.range' 1 j).map (lengthAt s) }) ∨
      ((∀ j, ¬CompletedBy s j) ∧ ∃ r, responseRecv (n + 9) s = some r ∧ r.ret ≠ .etOk) := by
  rcases recvLoop_run hs (n + 9) 0 .init s [] (.init s) (Nat.zero_le 8) (Nat.le_add_left 9 n) with
    ⟨j, rsp', left, hj, hj8, hcomplete, hnone, hturn, hbody, heq⟩ | ⟨hnever, hr⟩
  · simp only [List.nil_append, Nat.zero_add, Nat.sub_zero] at heq
    exact Or.inl ⟨j, rsp', left, ⟨hj, hj8, hcomplete, hnone⟩, hturn, hbody, heq⟩
  · exact Or.inr ⟨fun j hj => hnever j hj.1 hj.2.1 hj.2.2.1, hr⟩

/-- More turns than it takes make no difference. -/
theorem recvLoop_mono {r : Received} : ∀ (n : Nat) (rsp : Response) (socket : Socket.Stream UInt8)
    (lengths : List Nat), recvLoop n rsp socket lengths = some r →
      recvLoop (n + 1) rsp socket lengths = some r := by
  intro n
  induction n with
  | zero => exact fun _ _ _ h => nomatch h
  | succ n ih =>
      intro rsp socket lengths h
      rw [recvLoop] at h ⊢
      generalize (if rsp.buffchunk.length = 0 then (ErrType.etOk, rsp.buffchunk)
        else rsp.buffchunk.resize (rsp.buffchunk.size + bufferChunk)) = resized at h ⊢
      simp only at h ⊢
      split at h
      · rename_i hresize
        rw [if_pos hresize]
        exact h
      rename_i hresize
      rw [if_neg hresize]
      split at h
      · rename_i hread
        rw [if_pos hread]
        exact h
      rename_i hread
      rw [if_neg hread]
      obtain ⟨chunk, hchunk, h⟩ := Option.bind_eq_some_iff.mp h
      obtain ⟨q, hq, h⟩ := Option.bind_eq_some_iff.mp h
      rw [hchunk, Option.bind_some, hq, Option.bind_some]
      split at h
      · rename_i hdone
        rw [if_pos hdone]
        exact h
      · rename_i hdone
        rw [if_neg hdone]
        exact ih _ _ _ h

theorem responseRecv_mono {r : Received} (h : responseRecv n s = some r) (d : Nat) :
    responseRecv (n + d) s = some r := by
  induction d with
  | zero => exact h
  | succ d ih => exact recvLoop_mono _ _ _ _ ih

/-- Without a head in the first read, or with no room behind it, there is no result. -/
theorem responseRecv_none (h : ¬HeadFirst s) (n : Nat) : responseRecv n s = none := by
  simp only [HeadFirst, not_forall] at h
  obtain ⟨data, hdata, hbad⟩ := h
  obtain ⟨left, ha⟩ := arrived_of_received hdata
  cases n with
  | zero => rfl
  | succ n =>
      rw [responseRecv, recvLoop_arrived (.init s) (by decide) ha]
      by_cases hfull : bufferChunk ≤ data.length
      · rw [if_pos ⟨rfl, hfull⟩]
      · rw [if_neg fun hc => hfull hc.2]
        cases hhead : headLength data with
        | none => rfl
        | some hl =>
            rw [hhead] at hbad
            exact absurd ⟨Nat.lt_of_not_le hfull, rfl⟩ hbad

end Turns

/-! ### Responses -/

section Messages

variable {s : Socket.Stream UInt8} {k : Nat} {m : Message} {rsp : Response}
  {left : Socket.Stream UInt8}

theorem received_part (hleft : s.left = m.bytes) {data : List UInt8}
    (hdata : received s k = some data) : data <+: m.bytes := by
  obtain ⟨left, ha⟩ := arrived_of_received hdata
  rw [← hleft, (arrived_spec k ha).1]
  exact List.prefix_append _ _

theorem bytes_length (m : Message) : m.bytes.length = m.head.length + m.body.length :=
  List.length_append

theorem complete_whole (hall : received s k = some m.bytes) :
    Complete s k ↔ (lengthRead s k).toNat = m.body.length := by
  have hhead : headLength m.bytes = some m.head.length := m.headLength_head m.body
  have hlen := bytes_length m
  constructor
  · rintro ⟨data, h, hdata, hh, heq⟩
    obtain rfl : m.bytes = data := Option.some.inj (hall.symm.trans hdata)
    obtain rfl : m.head.length = h := Option.some.inj (hhead.symm.trans hh)
    omega
  · intro heq
    exact ⟨m.bytes, _, hall, hhead, by omega⟩

theorem shorter_before (hleft : s.left = m.bytes) (hnot : received s k ≠ some m.bytes)
    (hall : received s (k + 1) = some m.bytes) {i : Nat} (hi : i ≤ k) :
    lengthAt s i < m.bytes.length := by
  obtain ⟨next, more, hnext, _⟩ := received_before hall
  have hpart : next <+: m.bytes := received_part hleft hnext
  have hne : next.length ≠ m.bytes.length := fun heq =>
    hnot (by rw [hnext, hpart.eq_of_length heq])
  obtain ⟨data, hdata, hpre⟩ := received_mono hi hnext
  rw [lengthAt, hdata]
  exact Nat.lt_of_le_of_lt hpre.length_le (Nat.lt_of_le_of_ne hpart.length_le hne)

/-- With the length read in time it is not complete before. -/
theorem not_complete_before (hleft : s.left = m.bytes) (hnot : received s k ≠ some m.bytes)
    (hall : received s (k + 1) = some m.bytes)
    (hlen : (lengthRead s (k + 1)).toNat = m.body.length)
    (hfirst : (lengthRead s 1).toNat = m.body.length ∨
      ∃ data, received s 1 = some data ∧ m.head.length < data.length)
    {i : Nat} (hpos : 0 < i) (hi : i ≤ k) : ¬Complete s i := by
  rintro ⟨data, h, hdata, hh, heq⟩
  have hwhole := bytes_length m
  obtain rfl := m.headLength_part (received_part hleft hdata) hh
  have hshort := shorter_before hleft hnot hall hi
  rw [lengthAt, hdata, Option.getD_some] at hshort
  by_cases hread : lengthRead s i = 0
  · -- nothing was read so far, so as many bytes have come as the head has
    rw [hread] at heq
    have hzero : lengthRead s 1 = 0 := by
      by_contra hne
      exact hne (by rw [← lengthRead_kept hne hpos, hread])
    rcases hfirst with hfirst | ⟨first, hfirst, hmore⟩
    · rw [hzero] at hfirst
      rw [← hfirst] at hwhole
      omega
    · obtain ⟨first', hfirst', hpre⟩ := received_mono hpos hdata
      obtain rfl : first = first' := Option.some.inj (hfirst.symm.trans hfirst')
      have := hpre.length_le
      rw [UInt64.toNat_zero] at heq
      omega
  · rw [lengthRead_kept hread (Nat.le_succ_of_le hi)] at hlen
    omega

/-- The body of a message that has come is the body of the response. -/
theorem parseHeader_bodyBytes (hlen : rsp.contentLength.toNat = m.body.length)
    (hbuff : rsp.buffchunk.buff = m.bytes) (hsmall : m.bytes.length < 2 ^ 64)
    (hbody : rsp.BehindHead) {parsed : ErrType × Response} (h : rsp.parseHeader = some parsed) :
    parsed.2.bodyBytes = some m.body := by
  have hdrop : (m.bytes.drop m.head.length).take m.body.length = m.body := by
    rw [Message.bytes, List.drop_left, List.take_length]
  obtain ⟨hchunk, hwhere⟩ := parseHeader_body h
  rw [Response.bodyBytes, hchunk, hbuff]
  rcases hwhere with hkept | ⟨first, tail, hfirst, htail, hset⟩
  · obtain ⟨hl, hhead, heq⟩ := hbody
    rw [hbuff] at hhead
    obtain rfl := m.headLength_part List.prefix_rfl hhead
    have hblen := bytes_length m
    rw [hkept, heq, Option.map_some, Buffchunk.length, hbuff, MemPtr.between_len (by omega) hsmall,
      hblen, Nat.add_sub_cancel_left]
    exact congrArg some hdrop
  · have htext : rsp.buffchunk.text = text (m.head ++ m.body) := congrArg text hbuff
    rw [htext] at hfirst htail
    rw [hset, Option.map_some, m.tail_head m.body hfirst htail, hlen]
    exact congrArg some hdrop

theorem lengths_concat (s : Socket.Stream UInt8) (k : Nat) :
    (List.range' 1 (k + 1)).map (lengthAt s) =
      (List.range' 1 k).map (lengthAt s) ++ [lengthAt s (k + 1)] := by
  rw [List.range'_1_concat, List.map_append, Nat.add_comm 1 k]
  rfl

/-- A timely message is received. -/
theorem Timely.right (hs : HeadFirst s) (hlines : LinesRead s)
    (hfits : m.bytes.length ≤ bufferLimit) (hleft : s.left = m.bytes) (h : Timely s m) :
    ∃ n r, responseRecv n s = some r ∧ r.Right m := by
  obtain ⟨k, hk, hnot, hall, hlen, hfirst⟩ := h
  have hdone : CompletedBy s (k + 1) :=
    ⟨Nat.succ_pos k, hk, (complete_whole hall).mpr hlen, fun i hpos hi =>
      not_complete_before hleft hnot hall hlen hfirst hpos (Nat.le_of_lt_succ hi)⟩
  rcases responseRecv_run hs 0 with ⟨j, rsp', left, hj, hturn, hbody, heq⟩ | ⟨hnever, _⟩
  · obtain rfl := hj.unique hdone
    have hbuff : rsp'.buffchunk.buff = m.bytes := by
      rw [received, hturn.comes] at hall
      exact Option.some.inj hall
    have hparse : rsp'.parseHeader.isSome := by
      rw [parseHeader_isSome_iff, show rsp'.buffchunk.text = text m.bytes from congrArg text hbuff]
      exact hlines (k + 1) m.bytes hdone hall
    obtain ⟨parsed, hparsed⟩ := Option.isSome_iff_exists.mp hparse
    rw [hparsed, Option.map_some, lengths_concat] at heq
    refine ⟨0 + 9, _, heq, rfl, ?_, (List.range' 1 k).map (lengthAt s), ?_, ?_⟩
    · refine parseHeader_bodyBytes ?_ hbuff (Nat.lt_of_le_of_lt hfits (by decide)) hbody hparsed
      rw [hturn.length]
      exact hlen
    · rw [lengthAt, hall]
      rfl
    · intro l hl
      obtain ⟨i, hi, rfl⟩ := List.mem_map.mp hl
      rw [List.mem_range'_1] at hi
      exact shorter_before hleft hnot hall (by omega)
  · exact absurd hdone (hnever (k + 1))

/-- With no length read, exactly the head would have been complete at once. -/
theorem length_in_time (hs : HeadFirst s) (hall : received s (k + 1) = some m.bytes)
    (hlen : (lengthRead s (k + 1)).toNat = m.body.length) (hnone : 0 < k → ¬Complete s 1) :
    (lengthRead s 1).toNat = m.body.length ∨
      ∃ data, received s 1 = some data ∧ m.head.length < data.length := by
  cases k with
  | zero => exact Or.inl hlen
  | succ k =>
      obtain ⟨first, hfirst, hpre⟩ := received_mono (Nat.le_add_left 1 (k + 1)) hall
      obtain ⟨hl, hhead⟩ := Option.isSome_iff_exists.mp (hs first hfirst).2
      obtain rfl := m.headLength_part hpre hhead
      by_cases hread : lengthRead s 1 = 0
      · refine Or.inr ⟨first, hfirst, Nat.lt_of_le_of_ne (headLength_bounds hhead).2 ?_⟩
        intro heq
        refine hnone (Nat.succ_pos k) ⟨first, _, hfirst, hhead, ?_⟩
        rw [hread, UInt64.toNat_zero, Nat.add_zero]
        exact heq.symm
      · rw [lengthRead_kept hread (Nat.le_add_left 1 (k + 1))] at hlen
        exact Or.inl hlen

/-- A message that is received is timely. -/
theorem Timely.of_right (hs : HeadFirst s) (hleft : s.left = m.bytes) {n : Nat} {r : Received}
    (hr : responseRecv n s = some r) (hright : r.Right m) : Timely s m := by
  obtain ⟨hret, _, before, hends, hless⟩ := hright
  have hmore := responseRecv_mono hr 9
  rcases responseRecv_run hs n with ⟨j, rsp', left, hj, hturn, hbody, heq⟩ | ⟨_, r', hr', hret'⟩
  · obtain ⟨hpos, hj8, hcomplete, hnone⟩ := hj
    obtain ⟨k, rfl⟩ : ∃ k, j = k + 1 := ⟨j - 1, (Nat.succ_pred_eq_of_pos hpos).symm⟩
    rw [heq] at hmore
    obtain ⟨parsed, _, rfl⟩ := Option.map_eq_some_iff.mp hmore
    rw [lengths_concat] at hends
    obtain ⟨rfl, hlast⟩ := List.append_inj' hends rfl
    have hdata : received s (k + 1) = some rsp'.buffchunk.buff := by
      rw [received, hturn.comes]
      rfl
    have hall : received s (k + 1) = some m.bytes := by
      have hpart := received_part hleft hdata
      rw [lengthAt, hdata] at hlast
      rw [hdata, hpart.eq_of_length (List.cons.inj hlast).1]
    have hlen := (complete_whole hall).mp hcomplete
    refine ⟨k, hj8, fun hearly => ?_, hall, hlen, ?_⟩
    · cases k with
      | zero =>
          have hnil : [] = m.bytes := Option.some.inj hearly
          have hlong := m.status_lt_head
          have hblen := bytes_length m
          rw [← hnil, List.length_nil] at hblen
          omega
      | succ k =>
          have hin := hless (lengthAt s (k + 1))
            (List.mem_map.mpr ⟨k + 1, List.mem_range'_1.mpr (by omega), rfl⟩)
          rw [lengthAt, hearly] at hin
          exact Nat.lt_irrefl _ hin
    · exact length_in_time hs hall hlen fun hk => hnone 1 Nat.one_pos (Nat.succ_lt_succ hk)
  · obtain rfl : r' = r := Option.some.inj (hr'.symm.trans hmore)
    exact absurd hret hret'

end Messages

end Awoke.Http
