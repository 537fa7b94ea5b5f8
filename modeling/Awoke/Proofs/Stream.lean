/-
A stream's chunks are accepted in order, and none of their bytes is lost.

`Download` is what a receiver should know of a stream under way: the chunks it has
accepted, in the order of their indexes, and their bytes, each once, some merged
already and the others in the pool.  `Receives` is what it should do with an arrival.

The code falls short in four ways.  A chunk that arrives before its stream began is
turned away, but its description stays, and the stream goes on behind its index.  As
long as `p->index` is zero any index is accepted, zero again included.  A chunk that
the pool does not take is counted.  And a chunk of another stream jumps back for ever,
an empty one is a null pointer.  `SafeArrival` is when none of this happens.
-/
import Awoke.Lib.Run
import Awoke.Proofs.StreamStep

namespace Awoke.Cmder

/-! ### The receiver -/

/-- A download under way. -/
structure Download where
  id : UInt8
  media : UInt8
  totalsize : UInt32
  /-- The chunks accepted so far. -/
  accepted : List Arrival
  /-- The bytes merged so far. -/
  merged : List UInt8
  /-- The bytes in the pool. -/
  pooled : List UInt8
  inOrder : accepted.map (fun a => a.info.index.toNat) = List.range accepted.length
  once : (accepted.map Arrival.payload).flatten = merged ++ pooled

/-- A download of which nothing has come. -/
def Download.fresh (info : Streaminfo) : Download :=
  { id := info.id, media := info.media, totalsize := info.totalsize
    accepted := [], merged := [], pooled := [], inOrder := rfl, once := rfl }

theorem Download.fresh_length (info : Streaminfo) (n : Nat) :
    (fresh info).merged.length + (fresh info).pooled.length + n = n := Nat.zero_add n

/-- The download a chunk belongs to. -/
def begun (t : Option Download) (info : Streaminfo) : Download :=
  match t with
  | some d => if d.id = info.id ∧ d.media = info.media then d else .fresh info
  | none => .fresh info

/-- A chunk is accepted when its index is the next, and then its bytes come behind the
others; some may be merged.  With the last byte the download is over. -/
inductive Receives : Option Download → Arrival → Outcome → Option Download → Prop
  | refused {t : Option Download} {a : Arrival} {o : Outcome}
      (haccepted : o.accepted = false) (hmerged : o.merged = []) (hfinished : o.finished = false)
      (hindex : a.info.index.toNat ≠ (begun t a.info).accepted.length) : Receives t a o t
  | stored {t : Option Download} {a : Arrival} {o : Outcome} {d d' : Download}
      (haccepted : o.accepted = true) (hfinished : o.finished = false)
      (hbegun : begun t a.info = d) (hindex : a.info.index.toNat = d.accepted.length)
      (hid : d'.id = d.id) (hmedia : d'.media = d.media) (htotal : d'.totalsize = d.totalsize)
      (happend : d'.accepted = d.accepted ++ [a]) (hmerged : d'.merged = d.merged ++ o.merged)
      (hmore : d'.merged.length + d'.pooled.length ≠ d'.totalsize.toNat) :
      Receives t a o (some d')
  | completed {t : Option Download} {a : Arrival} {o : Outcome} {d : Download}
      (haccepted : o.accepted = true) (hfinished : o.finished = true)
      (hbegun : begun t a.info = d) (hindex : a.info.index.toNat = d.accepted.length)
      (hmerged : o.merged = d.pooled ++ a.payload)
      (hall : d.merged.length + d.pooled.length + a.payload.length = d.totalsize.toNat) :
      Receives t a o none

variable {s s' : Litk} {a : Arrival} {t : Option Download} {d : Download}

/-- The download after one more chunk. -/
def Download.accept (d : Download) (a : Arrival) (hindex : a.info.index.toNat = d.accepted.length)
    (out rest : List UInt8) (hbytes : out ++ rest = d.pooled) : Download :=
  { d with
    accepted := d.accepted ++ [a]
    merged := d.merged ++ out
    pooled := rest ++ a.payload
    inOrder := by
      rw [List.map_append, List.length_append, List.length_singleton, List.range_succ, d.inOrder,
        List.map_cons, List.map_nil, hindex]
    once := by
      rw [List.map_append, List.flatten_append, d.once, List.map_cons, List.map_nil,
        List.flatten_cons, List.flatten_nil, List.append_nil, ← hbytes, List.append_assoc,
        List.append_assoc, List.append_assoc] }

/-! ### What a state knows of a download -/

/-- The state holds the bytes of `d`. -/
structure Holding (s : Litk) (d : Download) : Prop where
  id : s.streaminfo.id = d.id
  media : s.streaminfo.media = d.media
  totalsize : s.streaminfo.totalsize = d.totalsize
  recvbytes : s.streaminfo.recvbytes.toNat = d.merged.length + d.pooled.length
  pool : Pooled 4096 s.streampool d.pooled
  bound : d.merged.length + d.pooled.length ≤ 4096 * d.accepted.length

/-- The state is that of a download under way, or of none. -/
def Tracks (s : Litk) : Option Download → Prop
  | none => s.streaminfo.id = 0 ∧ s.streaminfo.recvbytes = 0 ∧ Pooled 4096 s.streampool []
  | some d => Holding s d ∧ d.id ≠ 0 ∧ s.streaminfo.index.toNat + 1 = d.accepted.length

theorem tracks_init (nucaddr : UInt32) (nucChecksum : UInt8) (chunkid : UInt16) :
    Tracks (streamInit nucaddr nucChecksum chunkid) none :=
  ⟨rfl, rfl, pooled_init 4096⟩

theorem holding_opened (h : Tracks s none) (info : Streaminfo) :
    Holding (s.opened info) (.fresh info) :=
  ⟨rfl, rfl, rfl, rfl, h.2.2, Nat.le_refl 0⟩

theorem Holding.ack (h : Holding s d) : Holding (streamAck s) d :=
  ⟨h.id, h.media, h.totalsize, h.recvbytes, h.pool, h.bound⟩

theorem Holding.recvAfter_toNat (h : Holding s d) (hindex : a.info.index.toNat = d.accepted.length)
    (hsmall : a.payload.length ≤ 4096) :
    (recvAfter s a).toNat = d.merged.length + d.pooled.length + a.payload.length := by
  have hlt := a.info.index.toNat_lt
  have hbound := h.bound
  have hlen : (UInt32.ofNat a.payload.length).toNat = a.payload.length :=
    Nat.mod_eq_of_lt (by omega)
  rw [recvAfter, UInt32.toNat_add, h.recvbytes, hlen]
  exact Nat.mod_eq_of_lt (by omega)

/-! ### One arrival -/

/-- **A chunk the pool takes is received as it should be.** -/
theorem Holding.accept (h : Holding s d) (hbegun : begun t a.info = d)
    (hindex : a.info.index.toNat = d.accepted.length) (ht : Taken s a)
    (hid : d.id ≠ 0 ∨ d.merged.length + d.pooled.length + a.payload.length = d.totalsize.toNat) :
    ∃ s' o t', streamAccept s a = some (s', o) ∧ Receives t a o t' ∧ Tracks s' t' := by
  have hrecv := h.recvAfter_toNat hindex ht.small
  by_cases hall : recvAfter s a = s.streaminfo.totalsize
  · obtain ⟨s', haccept, hpool, hinfo, -⟩ := streamAccept_last h.pool ht hall
    refine ⟨s', _, none, haccept, .completed rfl rfl hbegun hindex rfl ?_, ?_⟩
    · rw [← hrecv, hall, h.totalsize]
    · rw [Tracks, hinfo]
      exact ⟨rfl, rfl, hpool⟩
  · obtain ⟨s', haccept, hpool, hinfo, -, -⟩ := streamAccept_more h.pool ht hall
    have hmore : d.merged.length + d.pooled.length + a.payload.length ≠ d.totalsize.toNat := by
      rw [← hrecv, ← h.totalsize]
      exact fun heq => hall (UInt32.toNat_inj.mp heq)
    have hbytes := spilled_append_kept d.pooled a.payload.length
    have hlen := congrArg List.length hbytes
    rw [List.length_append] at hlen
    have hbound := h.bound
    have hsmall := ht.small
    refine ⟨s', _, some (d.accept a hindex _ _ hbytes), haccept,
      .stored rfl rfl hbegun hindex rfl rfl rfl rfl rfl ?_, ⟨?_, ?_, ?_, ?_, hpool, ?_⟩, ?_, ?_⟩
    · simp only [Download.accept, List.length_append]
      omega
    · rw [hinfo]
      exact h.id
    · rw [hinfo]
      exact h.media
    · rw [hinfo]
      exact h.totalsize
    · rw [hinfo]
      simp only [Download.accept, List.length_append, hrecv]
      omega
    · simp only [Download.accept, List.length_append, List.length_singleton]
      omega
    · exact hid.resolve_right hmore
    · rw [hinfo]
      simp only [Download.accept, List.length_append, List.length_singleton, hindex]

theorem Receives.index {o : Outcome} {t' : Option Download} (h : Receives t a o t')
    (haccepted : o.accepted = true) (hbegun : begun t a.info = d) :
    a.info.index.toNat = d.accepted.length := by
  cases h with
  | refused hrefused => exact absurd (haccepted.symm.trans hrefused) (by simp)
  | stored _ _ hd hindex => rw [hindex, ← hd, hbegun]
  | completed _ _ hd hindex => rw [hindex, ← hd, hbegun]

/-- What a receiver accepts leaves in the pool what was there, less what was merged, and
the chunk. -/
theorem Receives.bytes {o : Outcome} {t' : Option Download} (h : Receives t a o t')
    (haccepted : o.accepted = true) (hbegun : begun t a.info = d) {rest : List UInt8}
    (htracks : Tracks s' t') (hpool : Pooled 4096 s'.streampool rest) :
    o.merged ++ rest = d.pooled ++ a.payload := by
  cases h with
  | refused hrefused => exact absurd (haccepted.symm.trans hrefused) (by simp)
  | @stored d₁ d' _ _ hd _ _ _ _ happend hmerged =>
      have hrest : rest = d'.pooled := hpool.chunks.symm.trans htracks.1.pool.chunks
      have honce := d'.once
      rw [happend, List.map_append, List.flatten_append, d₁.once, hmerged, List.append_assoc,
        List.append_assoc, List.append_cancel_left_eq] at honce
      rw [hrest, ← honce, ← hbegun, hd]
      simp
  | completed _ _ hd _ hmerged =>
      have hrest : rest = [] := hpool.chunks.symm.trans htracks.2.2.chunks
      rw [hrest, List.append_nil, hmerged, ← hd, hbegun]

/-- **A chunk the pool does not take is not received as it should be.** -/
theorem Holding.lost (h : Holding s d) (hbegun : begun t a.info = d) (ht : ¬Taken s a) :
    ¬∃ s' o t', streamAccept s a = some (s', o) ∧ Receives t a o t' ∧ Tracks s' t' := by
  rintro ⟨s', o, t', haccept, hreceives, htracks⟩
  obtain ⟨hne, rest, hrest, hpool⟩ := streamAccept_lost h.pool ht haccept
  have hbytes := hreceives.bytes (streamAccept_accepted haccept) hbegun htracks hpool
  rw [hrest] at hbytes
  exact hne (List.self_eq_append_right.mp hbytes)

/-- Chunks of a stream whose id is zero are received only when the first is all of it. -/
theorem Holding.unnamed (h : Holding s d) (hindex : a.info.index.toNat = d.accepted.length)
    (ht : Taken s a) (hid : d.id = 0)
    (hmore : d.merged.length + d.pooled.length + a.payload.length ≠ d.totalsize.toNat) :
    ¬∃ s' o t', streamAccept s a = some (s', o) ∧ Receives t a o t' ∧ Tracks s' t' := by
  rintro ⟨s', o, t', haccept, hreceives, htracks⟩
  have hrecv := h.recvAfter_toNat hindex ht.small
  have hall : recvAfter s a ≠ s.streaminfo.totalsize := by
    intro heq
    rw [heq, h.totalsize] at hrecv
    exact hmore hrecv.symm
  obtain ⟨s₁, haccept₁, -, hinfo, -, -⟩ := streamAccept_more h.pool ht hall
  rw [haccept₁, Option.some.injEq, Prod.mk.injEq] at haccept
  obtain ⟨rfl, rfl⟩ := haccept
  cases hreceives with
  | refused hrefused => exact absurd hrefused (by simp)
  | stored =>
      obtain ⟨hholding, hne, -⟩ := htracks
      refine hne ?_
      rw [← hholding.id, hinfo]
      exact h.id.trans hid
  | completed _ hfinished => exact absurd hfinished (by simp)

/-! ### The exact condition -/

/-- No stream is under way: the arrival is one the receiver can begin with, or one that
leaves no trace. -/
structure SafeFirst (s : Litk) (a : Arrival) : Prop where
  taken : a.info.index = 0 → Taken s a
  named : a.info.index = 0 → a.info.id ≠ 0 ∨ a.payload.length = a.info.totalsize.toNat
  traceless : a.info.index ≠ 0 → a.info.id = 0

/-- A stream is under way: the arrival belongs to it, comes second if only the first has
come, and is one the pool takes if it is the next. -/
structure SafeNext (s : Litk) (a : Arrival) : Prop where
  id : a.info.id = s.streaminfo.id
  media : a.info.media = s.streaminfo.media
  second : s.streaminfo.index = 0 → a.info.index = 1
  taken : a.info.index.toNat = s.streaminfo.index.toNat + 1 → Taken s a

/-- The condition on an arrival, in the state it comes in. -/
def SafeArrival (s : Litk) (a : Arrival) : Prop :=
  if s.streaminfo.id = 0 then SafeFirst s a else SafeNext s a

instance (s : Litk) (a : Arrival) : Decidable (SafeFirst s a) :=
  decidable_of_iff ((a.info.index = 0 → Taken s a) ∧
      (a.info.index = 0 → a.info.id ≠ 0 ∨ a.payload.length = a.info.totalsize.toNat) ∧
      (a.info.index ≠ 0 → a.info.id = 0))
    ⟨fun h => ⟨h.1, h.2.1, h.2.2⟩, fun h => ⟨h.taken, h.named, h.traceless⟩⟩

instance (s : Litk) (a : Arrival) : Decidable (SafeNext s a) :=
  decidable_of_iff (a.info.id = s.streaminfo.id ∧ a.info.media = s.streaminfo.media ∧
      (s.streaminfo.index = 0 → a.info.index = 1) ∧
      (a.info.index.toNat = s.streaminfo.index.toNat + 1 → Taken s a))
    ⟨fun h => ⟨h.1, h.2.1, h.2.2.1, h.2.2.2⟩, fun h => ⟨h.id, h.media, h.second, h.taken⟩⟩

instance (s : Litk) (a : Arrival) : Decidable (SafeArrival s a) := by
  unfold SafeArrival
  infer_instance

theorem stepRefines_congr (heq : streamProcess s a = streamAccept s' a) :
    Machine.StepRefines streamProcess Receives Tracks s t a ↔
      ∃ s'' o t', streamAccept s' a = some (s'', o) ∧ Receives t a o t' ∧ Tracks s'' t' := by
  rw [Machine.StepRefines, heq]

/-- The step where no stream is under way. -/
theorem first_step (h : Tracks s none) :
    Machine.StepRefines streamProcess Receives Tracks s none a ↔ SafeFirst s a := by
  have hholding := holding_opened h a.info
  by_cases hindex : a.info.index = 0
  · have hnext : a.info.index.toNat = (Download.fresh a.info).accepted.length := by
      rw [hindex]
      rfl
    rw [stepRefines_congr (streamProcess_first h.1 hindex)]
    have htaken : Taken (s.opened a.info) a ↔ Taken s a :=
      ⟨fun ht => ⟨ht.nonempty, ht.small, ht.fresh⟩, fun ht => ⟨ht.nonempty, ht.small, ht.fresh⟩⟩
    constructor
    · intro hstep
      have ht : Taken (s.opened a.info) a := by
        by_contra hnot
        exact hholding.lost (t := none) rfl hnot hstep
      refine ⟨fun _ => htaken.mp ht, fun _ => ?_, fun hne => absurd hindex hne⟩
      by_contra hnamed
      obtain ⟨hid, hmore⟩ := not_or.mp hnamed
      refine hholding.unnamed (t := none) hnext ht (not_not.mp hid) ?_ hstep
      rw [Download.fresh_length]
      exact hmore
    · intro hsafe
      refine hholding.accept rfl hnext (htaken.mpr (hsafe.taken hindex)) ?_
      rw [Download.fresh_length]
      exact hsafe.named hindex
  · have hstray := streamProcess_stray h.1 hindex
    have hne : a.info.index.toNat ≠ (begun none a.info).accepted.length := by
      intro hzero
      exact hindex (UInt16.toNat_inj.mp hzero)
    constructor
    · rintro ⟨s', o, t', hstep, hreceives, htracks⟩
      refine ⟨fun hc => absurd hc hindex, fun hc => absurd hc hindex, fun _ => ?_⟩
      rw [hstray, Option.some.injEq, Prod.mk.injEq] at hstep
      obtain ⟨rfl, rfl⟩ := hstep
      cases hreceives with
      | refused => exact htracks.1
      | stored haccepted => exact absurd haccepted (by simp [refusal])
      | completed haccepted => exact absurd haccepted (by simp [refusal])
    · intro hsafe
      exact ⟨_, _, none, hstray, .refused rfl rfl rfl hne, hsafe.traceless hindex, rfl, h.2.2⟩

/-- The step where a stream is under way. -/
theorem next_step (h : Tracks s (some d)) :
    Machine.StepRefines streamProcess Receives Tracks s (some d) a ↔ SafeNext s a := by
  obtain ⟨hholding, hne, hnext⟩ := h
  have hid : s.streaminfo.id ≠ 0 := by
    rw [hholding.id]
    exact hne
  by_cases hsame : a.info.id = s.streaminfo.id ∧ a.info.media = s.streaminfo.media
  · have hbegun : begun (some d) a.info = d := by
      rw [begun, if_pos ⟨(hsame.1.trans hholding.id).symm, (hsame.2.trans hholding.media).symm⟩]
    have hsplit := streamProcess_same hid hsame
    have hzero : s.streaminfo.index = 0 ↔ s.streaminfo.index.toNat = 0 := UInt16.toNat_inj.symm
    have hone : a.info.index = 1 ↔ a.info.index.toNat = 1 := UInt16.toNat_inj.symm
    by_cases hold : oldIndex s.streaminfo a.info
    · rw [if_pos hold] at hsplit
      have hnot : a.info.index.toNat ≠ d.accepted.length := by
        have hprev := hold.2
        omega
      constructor
      · intro _
        exact ⟨hsame.1, hsame.2, fun hz => absurd hz hold.1, fun hi => absurd hi (by omega)⟩
      · intro _
        refine ⟨_, _, some d, hsplit, .refused rfl rfl rfl ?_, hholding.ack, hne, hnext⟩
        rw [hbegun]
        exact hnot
    · rw [if_neg hold] at hsplit
      rw [stepRefines_congr hsplit]
      have hnew : s.streaminfo.index = 0 ∨ a.info.index.toNat = s.streaminfo.index.toNat + 1 := by
        by_contra hboth
        obtain ⟨hz, hi⟩ := not_or.mp hboth
        exact hold ⟨hz, fun heq => hi (by omega)⟩
      constructor
      · intro hstep
        have hindex : a.info.index.toNat = d.accepted.length := by
          obtain ⟨s', o, t', haccept, hreceives, -⟩ := hstep
          exact hreceives.index (streamAccept_accepted haccept) hbegun
        refine ⟨hsame.1, hsame.2, fun hz => hone.mpr ?_, fun _ => ?_⟩
        · have := hzero.mp hz
          omega
        · by_contra hnot
          exact hholding.lost hbegun hnot hstep
      · intro hsafe
        have hindex : a.info.index.toNat = s.streaminfo.index.toNat + 1 := by
          rcases hnew with hz | hi
          · have hz' := hzero.mp hz
            have hi' := hone.mp (hsafe.second hz)
            omega
          · exact hi
        exact hholding.accept hbegun (by omega) (hsafe.taken hindex) (.inl hne)
  · have hother : s.streaminfo.id ≠ a.info.id ∨ s.streaminfo.media ≠ a.info.media := by
      by_contra hboth
      obtain ⟨h₁, h₂⟩ := not_or.mp hboth
      exact hsame ⟨(not_not.mp h₁).symm, (not_not.mp h₂).symm⟩
    constructor
    · rintro ⟨s', o, t', hstep, -, -⟩
      rw [streamProcess_other hid hother] at hstep
      exact absurd hstep (by simp)
    · intro hsafe
      exact absurd ⟨hsafe.id, hsafe.media⟩ hsame

/-- **One arrival is received as it should be exactly when it is safe.** -/
theorem stream_step (h : Tracks s t) :
    Machine.StepRefines streamProcess Receives Tracks s t a ↔ SafeArrival s a := by
  cases t with
  | none =>
      rw [SafeArrival, if_pos h.1]
      exact first_step h
  | some d =>
      have hid : s.streaminfo.id ≠ 0 := by
        rw [h.1.id]
        exact h.2.1
      rw [SafeArrival, if_neg hid]
      exact next_step h

/-- **The exact condition**: from the start, every arrival is received as it should be if
and only if every arrival is safe when it comes. -/
theorem stream_received_iff (nucaddr : UInt32) (nucChecksum : UInt8) (chunkid : UInt16)
    (arrivals : List Arrival) :
    Machine.RunRefines streamProcess Receives Tracks (streamInit nucaddr nucChecksum chunkid) none
        arrivals ↔
      Machine.Meets streamProcess SafeArrival (streamInit nucaddr nucChecksum chunkid) arrivals :=
  Machine.runRefines_iff (fun _ _ _ h => stream_step h) arrivals
    (tracks_init nucaddr nucChecksum chunkid)

/-- The first of three chunks of one byte. -/
def firstOfThree : Arrival :=
  { info := { id := 1, media := mediaDPCPARAMS, index := 0, length := 1, totalsize := 3,
              recvbytes := 0 }
    payload := [7]
    fits := rfl }

/-- The chunk with index zero is accepted each time it comes. -/
theorem stream_accepts_twice :
    (Machine.run streamProcess (streamInit 0 0 0) [firstOfThree, firstOfThree]).map (fun r =>
        (r.2.map Outcome.accepted, r.1.streampool.chunklist.map Buffchunk.contents)) =
      some ([true, true], [[7], [7]]) := by
  rfl

end Awoke.Cmder
