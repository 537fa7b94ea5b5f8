/-
Which responses a DATA channel hands on as they were sent.

A connection brings a response, or a first part of it, in any segments.  `Reads` is what
holds between two calls of `recv` once a header can be read: the bytes received are the
first ones of the response, in the receive buffer or in the spare one, and `need_read` is
what is missing.  It needs a receive buffer that was empty, and three bytes from the first
`recv`; with less of either a header is read that was not received.

A connection that fails leaves its bytes in the receive buffer, where the next one finds
them unless it writes a request first.
-/
import Awoke.Mtk.ShortLink
import Awoke.Lib.Run
import Awoke.Proofs.Buffer
import Awoke.Proofs.Download

namespace Awoke.Mtk

/-! ### What the channel should do -/

/-- A well-formed response. -/
structure Response where
  code : UInt8
  data : List UInt8
  checksum : UInt8
  fits : data.length < 2 ^ 16

/-- Its bytes. -/
def Response.bytes (m : Response) : List UInt8 :=
  m.code :: (pushHtons (UInt16.ofNat m.data.length) ++ m.data ++ [m.checksum])

/-- A connection that brings a response, or fails after a first part of it. -/
structure Delivery extends Connection where
  response : Response
  part : socket.left <+: response.bytes

/-- All of the response comes. -/
def Delivery.Whole (d : Delivery) : Prop := d.socket.left = d.response.bytes

/-- The byte `i` of the chunk is one of the first `received` of the connection. -/
def Served.Own (o : Served) (received i : Nat) : Prop := o.left ≤ i ∧ (i : Int) < o.left + received

/-- A response is handed on once, as it was sent, and a part of one is not; what is handed on
was received on the connection, and so was a header before it is read. -/
structure Served.Right (o : Served) (d : Delivery) : Prop where
  once : d.Whole → o.calls = [d.response.bytes]
  never : ¬d.Whole → o.calls = []
  own : ∀ call ∈ o.calls, ∀ i < call.length, o.Own o.received i
  headers : ∀ received ∈ o.headers, ∀ i < 3, o.Own received i

/-- One connection on the channel. -/
def channel (s : ShortLink) (d : Delivery) : Option (ShortLink × Served) := s.serve d.toConnection

/-- Nothing of the connection is read and its response does not come as a whole, or it is
read into an empty buffer with three bytes at once. -/
def Delivery.Taken (s : ShortLink) (d : Delivery) : Prop :=
  ¬d.Whole ∧ (d.socket.segments = [] ∨ (s.write d.requests).rx.remain = 0) ∨
    (s.write d.requests).rx.length = 0 ∧
      ∃ seg rest, d.socket.segments = seg :: rest ∧ 3 ≤ seg.length

/-! ### Buffers -/

variable {r : Reading} {m : Response}

@[simp] theorem Reading.setChunk_chunk (r : Reading) (chunk : Buffchunk) :
    (r.setChunk chunk).chunk = chunk := by
  unfold setChunk Reading.chunk
  cases r.inSpare <;> simp

/-- Storing bytes changes nothing but the buffer in use. -/
theorem Reading.store_spec (r : Reading) (bs : List UInt8) (socket : Socket.Stream UInt8)
    (length : Int) :
    (r.store bs socket length).socket = socket ∧
      (r.store bs socket length).received = r.received + bs.length ∧
      (r.store bs socket length).headers = r.headers ∧
      (r.store bs socket length).chunk = { r.chunk with
        p := Cells.write r.chunk.p r.chunk.length bs
        length := r.chunk.length + length } ∧
      (r.store bs socket length).inSpare = r.inSpare ∧
      (r.spare.isSome = r.inSpare → (r.store bs socket length).spare.isSome = r.inSpare) ∧
      (r.store bs socket length).rx.size = r.rx.size ∧
      ((r.store bs socket length).rx.length = r.rx.length ∨
        (r.store bs socket length).rx = (r.store bs socket length).chunk) := by
  unfold store setChunk Reading.chunk
  cases r.inSpare <;> simp

theorem Reading.makeRoom_headers {q : ErrType × Reading} (h : r.makeRoom = some q) :
    q.2.headers = r.headers := by
  unfold makeRoom at h
  split at h
  · split at h
    · split at h
      · rw [← Option.some.inj h]
      · rw [← Option.some.inj h]
    · simp only at h
      split at h
      · rw [← Option.some.inj h]
        unfold setChunk
        split <;> rfl
      · exact nomatch h
  · rw [← Option.some.inj h]

/-- A turn of the loop that receives something reads the header. -/
theorem readLoop_bytes {n : Nat} {r' : Reading} {bs : List UInt8} {socket : Socket.Stream UInt8}
    (hmake : r.makeRoom = some (.etOk, r'))
    (hrecv : r'.socket.recv r'.chunk.remain.toNat = (.bytes bs, socket))
    (hroom : (bs.length : Int) ≤ r'.chunk.remain) :
    readLoop (n + 1) r =
      if (r'.store bs socket bs.length).chunk.length <
          (r'.store bs socket bs.length).length.toNat + rspHeaderLength then
        readLoop n { r'.store bs socket bs.length with
          headers := r'.headers ++ [r'.received + bs.length]
          needRead := (r'.store bs socket bs.length).length.toNat + rspHeaderLength -
            (r'.store bs socket bs.length).chunk.length }
      else some (.etOk, [(r'.store bs socket bs.length).chunk.contents],
        { r'.store bs socket bs.length with
          headers := r'.headers ++ [r'.received + bs.length] }) := by
  obtain ⟨-, hreceived, hheaders, -⟩ := r'.store_spec bs socket bs.length
  rw [readLoop, hmake]
  simp only [Option.bind_some, ne_eq, not_true_eq_false, if_false, hrecv]
  rw [if_neg (by omega), hheaders, hreceived]
  rfl

/-- A header that was read stays read. -/
theorem readLoop_headers : ∀ (n : Nat) (r : Reading) (q : ErrType × List (List UInt8) × Reading),
    readLoop n r = some q → ∀ received ∈ r.headers, received ∈ q.2.2.headers := by
  intro n
  induction n with
  | zero => intro r q h; exact nomatch h
  | succ n ih =>
      intro r q h received hmem
      rw [readLoop] at h
      obtain ⟨p, hroom, h⟩ := Option.bind_eq_some_iff.mp h
      rw [← Reading.makeRoom_headers hroom] at hmem
      split at h
      · rw [← Option.some.inj h]
        exact hmem
      · simp only at h
        split at h
        · rw [← Option.some.inj h]
          exact hmem
        · rw [← Option.some.inj h]
          exact hmem
        · rename_i bs socket _
          split at h
          · refine ih _ _ h received ?_
            rw [(p.2.store_spec bs socket p.2.chunk.remain).2.2.1]
            exact hmem
          · have hstore : received ∈ (p.2.store bs socket bs.length).headers ++
                [(p.2.store bs socket bs.length).received] := by
              rw [(p.2.store_spec bs socket bs.length).2.2.1]
              exact List.mem_append_left _ hmem
            split at h
            · exact ih _ _ h received hstore
            · rw [← Option.some.inj h]
              exact hstore

/-! ### The loop -/

/-- Between two calls of `recv` what was received is the first part of a response. -/
structure Reads (m : Response) (r : Reading) : Prop where
  place : r.spare.isSome = r.inSpare
  size : r.rx.size = 4096
  low : 0 ≤ r.rx.length
  high : r.rx.length ≤ 4096
  length : r.chunk.length = r.received
  fits : r.chunk.length ≤ r.chunk.size
  contents : r.chunk.contents ++ r.socket.left <+: m.bytes
  more : r.received < m.bytes.length
  need : r.received = 0 ∧ r.needRead = r.chunk.remain ∧ 3 ≤ r.chunk.remain ∨
    3 ≤ r.received ∧ r.needRead = m.bytes.length - r.received
  headers : ∀ received ∈ r.headers, 3 ≤ received

theorem Response.bytes_length (m : Response) : m.bytes.length = m.data.length + 4 := by
  simp [bytes, pushHtons]

theorem Buffchunk.contents_length (chunk : Buffchunk) :
    chunk.contents.length = chunk.length.toNat := Cells.slice_length _ _ _

theorem Reading.chunk_of_spare {spare : Buffchunk} (hplace : r.inSpare = true)
    (hspare : r.spare = some spare) : r.chunk = spare := by
  rw [Reading.chunk, if_pos hplace, hspare]
  rfl

/-- The same bytes in a buffer of another size. -/
structure Grown (r r' : Reading) (size : Int) : Prop where
  place : r'.spare.isSome = r'.inSpare
  rx : r'.rx = r.rx
  size : r'.chunk.size = size
  length : r'.chunk.length = r.chunk.length
  contents : r'.chunk.contents = r.chunk.contents
  socket : r'.socket = r.socket
  received : r'.received = r.received
  headers : r'.headers = r.headers
  needRead : r'.needRead = r.needRead

/-- Where there is less room than is needed, the spare buffer gets it, new or resized. -/
theorem Reading.makeRoom_grown (hplace : r.spare.isSome = r.inSpare)
    (hroom : r.chunk.remain < r.needRead) (hlow : 0 < r.chunk.length)
    (hneed : 0 < r.needRead) (hlimit : r.needRead + r.chunk.length ≤ Buffchunk.limit) :
    ∃ r', r.makeRoom = some (.etOk, r') ∧ Grown r r' (r.needRead + r.chunk.length) := by
  rw [makeRoom, if_pos hroom]
  cases hspare : r.spare with
  | none =>
      have hcopy : Cells.slice (Cells.write (fun _ => 0) 0 r.chunk.contents) 0
          r.chunk.length.toNat = r.chunk.contents := by
        rw [← Buffchunk.contents_length]
        exact Cells.slice_write_self _ _ _
      rw [Buffchunk.create, if_neg (by omega)]
      have hchunk : ∀ (id : UInt16) (spare : Buffchunk),
          ({ r with nextId := id, spare := some spare, inSpare := true } : Reading).chunk = spare :=
        fun _ _ => chunk_of_spare rfl rfl
      refine ⟨_, rfl, ⟨rfl, rfl, ?_, ?_, ?_, rfl, rfl, rfl, rfl⟩⟩
      · rw [hchunk]
      · rw [hchunk]
      · rw [hchunk]
        exact hcopy
  | some spare =>
      have hin : r.inSpare = true := by rw [← hplace, hspare]; rfl
      have hresize : r.chunk.resize (r.needRead + r.chunk.length) false =
          (.etOk, { r.chunk with size := r.needRead + r.chunk.length }) := by
        rw [Buffchunk.resize, if_neg (by simp), if_neg (by omega), if_neg (by omega)]
      simp only [hresize, if_true]
      have hchunk : ∀ spare : Buffchunk, ({ r with spare := some spare } : Reading).chunk = spare :=
        fun _ => chunk_of_spare hin rfl
      rw [setChunk, if_pos hin]
      refine ⟨_, rfl, ⟨hin.symm, rfl, ?_, ?_, ?_, rfl, rfl, rfl, rfl⟩⟩
      · rw [hchunk]
      · rw [hchunk]
      · rw [hchunk]
        rfl

/-- There is room for something, and for all of the response once its length is known. -/
theorem Reads.makeRoom (h : Reads m r) :
    ∃ r', r.makeRoom = some (.etOk, r') ∧ Reads m r' ∧ 0 < r'.chunk.remain ∧
      r'.socket = r.socket ∧ r'.received = r.received := by
  have hlength := h.length
  have hmore := h.more
  by_cases hroom : r.chunk.remain < r.needRead
  · rcases h.need with ⟨-, hneed, -⟩ | ⟨hthree, hneed⟩
    · omega
    have hlimit : r.needRead + r.chunk.length ≤ Buffchunk.limit := by
      have hbytes := m.bytes_length
      have hfits := m.fits
      rw [Buffchunk.limit]
      omega
    obtain ⟨r', hmake, hgrown⟩ :=
      Reading.makeRoom_grown h.place hroom (by omega) (by omega) hlimit
    have hsize := hgrown.size
    have hsame := hgrown.length
    refine ⟨r', hmake, ?_, ?_, hgrown.socket, hgrown.received⟩
    · refine ⟨hgrown.place, ?_, ?_, ?_, ?_, ?_, ?_, ?_, ?_, ?_⟩
      · rw [hgrown.rx, h.size]
      · rw [hgrown.rx]
        exact h.low
      · rw [hgrown.rx]
        exact h.high
      · rw [hsame, hgrown.received, hlength]
      · omega
      · rw [hgrown.contents, hgrown.socket]
        exact h.contents
      · rw [hgrown.received]
        exact hmore
      · rw [hgrown.received, hgrown.needRead]
        exact .inr ⟨hthree, hneed⟩
      · rw [hgrown.headers]
        exact h.headers
    · rw [Buffchunk.remain]
      omega
  · refine ⟨r, by rw [Reading.makeRoom, if_neg hroom], h, ?_, rfl, rfl⟩
    rcases h.need with ⟨-, -, hpos⟩ | ⟨-, hneed⟩ <;> omega

theorem Response.length_eq {p : Cells UInt8} {n : Nat} (h : Cells.slice p 0 n <+: m.bytes)
    (hn : 3 ≤ n) : (htons (pullWord p 1)).toNat = m.data.length := by
  have hfirst : Cells.slice p 0 3 <+: m.bytes := by
    rw [← Cells.slice_take p 0 hn]
    exact (List.take_prefix 3 _).trans h
  simp only [Cells.slice_succ, Cells.slice_zero, Response.bytes, pushHtons, List.cons_append,
    List.cons_prefix_cons] at hfirst
  obtain ⟨-, hhigh, hlow, -⟩ := hfirst
  have hword : htons (pullWord p 1) = UInt16.ofNat m.data.length := by
    apply pushHtons_inj
    rw [pushHtons_htons_pullWord, pushHtons, ← hhigh, ← hlow]
    rfl
  rw [hword]
  exact UInt16.toNat_ofNat_of_lt' m.fits

/-- What the loop comes to, when `total` bytes come. -/
structure Ended (m : Response) (total : Nat) (calls : List (List UInt8)) (r : Reading) : Prop where
  size : r.rx.size = 4096
  low : 0 ≤ r.rx.length
  high : r.rx.length ≤ 4096
  headers : ∀ received ∈ r.headers, 3 ≤ received
  whole : total = m.bytes.length → calls = [m.bytes] ∧ r.received = m.bytes.length
  part : total ≠ m.bytes.length → calls = []

section Stored

variable {bs : List UInt8} {socket : Socket.Stream UInt8}

theorem Reads.stored_length (h : Reads m r) (bs : List UInt8) (socket : Socket.Stream UInt8) :
    (r.store bs socket bs.length).chunk.length = (r.store bs socket bs.length).received := by
  obtain ⟨-, hreceived, -, hchunk, -⟩ := r.store_spec bs socket bs.length
  have hlength := h.length
  rw [hreceived, hchunk]
  show r.chunk.length + bs.length = _
  omega

theorem Reads.stored_contents (h : Reads m r) (bs : List UInt8) (socket : Socket.Stream UInt8) :
    (r.store bs socket bs.length).chunk.contents = r.chunk.contents ++ bs := by
  obtain ⟨-, -, -, hchunk, -⟩ := r.store_spec bs socket bs.length
  have hlength := h.length
  have htoNat : (r.chunk.length + bs.length).toNat = r.chunk.length.toNat + bs.length := by
    omega
  have hat : (0 : Int) + r.chunk.length.toNat = r.chunk.length := by omega
  rw [hchunk, Buffchunk.contents, htoNat, Cells.slice_add, hat, Cells.slice_write_self,
    Cells.slice_write_before _ _ _ _ (by omega), Buffchunk.contents]

theorem Reads.stored_part (h : Reads m r) (hleft : r.socket.left = bs ++ socket.left) :
    (r.store bs socket bs.length).chunk.contents ++ socket.left <+: m.bytes := by
  rw [h.stored_contents, List.append_assoc, ← hleft]
  exact h.contents

/-- The receive buffer keeps its size, and is not overfilled. -/
theorem Reads.stored_rx (h : Reads m r) (hroom : (bs.length : Int) ≤ r.chunk.remain)
    (socket : Socket.Stream UInt8) :
    (r.store bs socket bs.length).rx.size = 4096 ∧
      0 ≤ (r.store bs socket bs.length).rx.length ∧
      (r.store bs socket bs.length).rx.length ≤ 4096 := by
  obtain ⟨-, -, -, hchunk, -, -, hsize, hrx⟩ := r.store_spec bs socket bs.length
  have hlength := h.length
  refine ⟨hsize.trans h.size, ?_⟩
  rcases hrx with hsame | hmoved
  · have := h.low
    have := h.high
    omega
  · have hfits : (r.store bs socket bs.length).rx.size = r.chunk.size := by
      rw [hmoved, hchunk]
    rw [Buffchunk.remain] at hroom
    rw [hmoved, hchunk]
    have := h.size
    show 0 ≤ r.chunk.length + bs.length ∧ r.chunk.length + bs.length ≤ 4096
    omega

theorem Reads.stored_header (h : Reads m r) (hleft : r.socket.left = bs ++ socket.left)
    (hthree : 3 ≤ r.received + bs.length) :
    (r.store bs socket bs.length).length.toNat + rspHeaderLength = m.bytes.length := by
  obtain ⟨-, hreceived, -⟩ := r.store_spec bs socket bs.length
  have hfirst : (r.store bs socket bs.length).chunk.contents <+: m.bytes :=
    (List.prefix_append _ _).trans (h.stored_part hleft)
  have hlength := h.stored_length bs socket
  rw [Reading.length, Response.length_eq hfirst (by omega), m.bytes_length, rspHeaderLength]
  omega

/-- While bytes are missing the next turn begins as this one did. -/
theorem Reads.stored_more (h : Reads m r) (hroom : (bs.length : Int) ≤ r.chunk.remain)
    (hleft : r.socket.left = bs ++ socket.left) (hthree : 3 ≤ r.received + bs.length)
    (hmore : (r.store bs socket bs.length).received < m.bytes.length) {headers : List Nat}
    (hheaders : ∀ received ∈ headers, 3 ≤ received) :
    Reads m { r.store bs socket bs.length with
      headers := headers
      needRead := m.bytes.length - (r.store bs socket bs.length).received } := by
  obtain ⟨hsocket, hreceived, -, hchunk, hin, hplace, -⟩ := r.store_spec bs socket bs.length
  obtain ⟨hsize, hlow, hhigh⟩ := h.stored_rx hroom socket
  refine ⟨?_, hsize, hlow, hhigh, h.stored_length bs socket, ?_, ?_, hmore,
    .inr ⟨?_, rfl⟩, hheaders⟩
  · show (r.store bs socket bs.length).spare.isSome = (r.store bs socket bs.length).inSpare
    rw [hplace h.place, hin]
  · show (r.store bs socket bs.length).chunk.length ≤ (r.store bs socket bs.length).chunk.size
    rw [hchunk]
    rw [Buffchunk.remain] at hroom
    show r.chunk.length + bs.length ≤ r.chunk.size
    omega
  · show _ ++ (r.store bs socket bs.length).socket.left <+: _
    rw [hsocket]
    exact h.stored_part hleft
  · show 3 ≤ (r.store bs socket bs.length).received
    omega

theorem Reads.stored_all (h : Reads m r) (hleft : r.socket.left = bs ++ socket.left)
    (hall : m.bytes.length ≤ (r.store bs socket bs.length).received) :
    (r.store bs socket bs.length).chunk.contents = m.bytes := by
  have hpart := h.stored_part hleft
  have hlength := h.stored_length bs socket
  refine ((List.prefix_append _ _).trans hpart).eq_of_length_le ?_
  rw [Buffchunk.contents_length]
  omega

end Stored

/-- At the end of the stream the response is not there. -/
theorem Reads.ended {r' : Reading} (h' : Reads m r') (hmake : r.makeRoom = some (.etOk, r'))
    (hroom : 0 < r'.chunk.remain) (hsegments : r'.socket.segments = []) (n : Nat) :
    ∃ ret, readLoop (n + 1) r = some (ret, [], r') ∧
      Ended m (r'.received + r'.socket.left.length) [] r' := by
  have hmore := h'.more
  have hpos : 0 < r'.chunk.remain.toNat := by omega
  have hleft := Socket.Stream.left_eq_nil_iff.mpr hsegments
  rw [readLoop, hmake, hleft]
  simp only [Option.bind_some, ne_eq, not_true_eq_false, if_false,
    Socket.Stream.recv_end hpos hsegments, Socket.Stream.ending]
  refine ⟨.etSockRecv, ?_, h'.size, h'.low, h'.high, h'.headers, ?_, fun _ => rfl⟩
  · cases r'.socket.broken <;> rfl
  · intro htotal
    rw [List.length_nil] at htotal
    omega

/-- **The loop gives the response when it comes as a whole**, and only then. -/
theorem Reads.run : ∀ (n : Nat) (r : Reading), Reads m r →
    (r.received = 0 → ∀ seg rest, r.socket.segments = seg :: rest → 3 ≤ seg.length) →
      r.socket.left.length < n →
        ∃ ret calls r', readLoop n r = some (ret, calls, r') ∧
          Ended m (r.received + r.socket.left.length) calls r' := by
  intro n
  induction n with
  | zero => intro r _ _ hlt; exact absurd hlt (Nat.not_lt_zero _)
  | succ n ih =>
      intro r h hfirst hlt
      obtain ⟨r', hmake, h', hroom, hsocket, hreceived⟩ := h.makeRoom
      rw [← hsocket] at hfirst hlt ⊢
      rw [← hreceived] at hfirst ⊢
      have hmore := h'.more
      have hpos : 0 < r'.chunk.remain.toNat := by omega
      cases hsegments : r'.socket.segments with
      | nil =>
          obtain ⟨ret, hrun, hended⟩ := h'.ended hmake hroom hsegments n
          exact ⟨ret, [], r', hrun, hended⟩
      | cons seg rest =>
          obtain ⟨hrecv, hne, hlong, hleft⟩ := Socket.Stream.recv_bytes hpos hsegments
          have hthree : 3 ≤ r'.received + (seg.take r'.chunk.remain.toNat).length := by
            rcases h'.need with ⟨hzero, -, hremain⟩ | ⟨hthree, -⟩
            · have := hfirst hzero seg rest hsegments
              rw [List.length_take]
              omega
            · omega
          have hsome := List.length_pos_iff.mpr hne
          rw [hleft, List.length_append] at hlt ⊢
          generalize seg.take r'.chunk.remain.toNat = bs at *
          generalize r'.socket.advance r'.chunk.remain.toNat = socket at *
          have hfits : (bs.length : Int) ≤ r'.chunk.remain := by omega
          obtain ⟨hsocket', hreceived', -⟩ := r'.store_spec bs socket bs.length
          have hheaders : ∀ received ∈ r'.headers ++ [r'.received + bs.length], 3 ≤ received := by
            intro received hmem
            rcases List.mem_append.mp hmem with hold | hnew
            · exact h'.headers received hold
            · rw [List.mem_singleton.mp hnew]
              exact hthree
          rw [readLoop_bytes hmake hrecv hfits, h'.stored_header hleft hthree,
            h'.stored_length, hreceived', ← Nat.add_assoc]
          by_cases hmissing : r'.received + bs.length < m.bytes.length
          · rw [if_pos (by omega)]
            have hreads := h'.stored_more hfits hleft hthree (by omega) hheaders
            rw [hreceived'] at hreads
            obtain ⟨ret, calls, r'', hrun, hended⟩ := ih _ hreads (fun hzero => by
              have hreceived'' : r'.received + bs.length = 0 := hreceived' ▸ hzero
              omega) (by
              show (r'.store bs socket bs.length).socket.left.length < n
              rw [hsocket']
              omega)
            refine ⟨ret, calls, r'', hrun, ?_⟩
            have htotal : (r'.store bs socket bs.length).received +
                (r'.store bs socket bs.length).socket.left.length =
                  r'.received + bs.length + socket.left.length := by
              rw [hreceived', hsocket']
            rw [← htotal]
            exact hended
          · rw [if_neg (by omega), h'.stored_all hleft (by omega)]
            obtain ⟨hsize, hlow, hhigh⟩ := h'.stored_rx hfits socket
            have hall := h'.contents.length_le
            rw [List.length_append, Buffchunk.contents_length, hleft, List.length_append,
              h'.length, Int.toNat_natCast] at hall
            refine ⟨_, _, _, rfl, hsize, hlow, hhigh, hheaders, fun _ => ⟨rfl, ?_⟩,
              fun htotal => ?_⟩
            · show (r'.store bs socket bs.length).received = _
              omega
            · omega

/-! ### Connections -/

/-- The receive buffer has its size, and no connection holds a spare one. -/
structure ShortLink.Ready (s : ShortLink) : Prop where
  spare : s.spare = none
  size : s.rx.size = 4096
  low : 0 ≤ s.rx.length
  high : s.rx.length ≤ 4096

variable {s : ShortLink} {d : Delivery}

theorem ShortLink.init_ready (id : UInt16) : (init id).Ready :=
  ⟨rfl, rfl, Int.le_refl 0, show (0 : Int) ≤ 4096 by decide⟩

theorem ShortLink.Ready.serviceConnect (h : s.Ready) (ret : ErrType) :
    (s.serviceConnect ret).Ready := by
  unfold ShortLink.serviceConnect
  split
  · exact h
  · exact ⟨h.spare, h.size, Int.le_refl 0, show (0 : Int) ≤ 4096 by decide⟩

theorem ShortLink.Ready.write (h : s.Ready) (n : Nat) : (s.write n).Ready := by
  induction n generalizing s with
  | zero => exact h
  | succ n ih => exact ih (h.serviceConnect .etOk)

theorem ShortLink.ready_after {ret : ErrType} {r : Reading} (hsize : r.rx.size = 4096)
    (hlow : 0 ≤ r.rx.length) (hhigh : r.rx.length ≤ 4096) :
    (({ rx := r.rx, spare := r.spare, nextId := r.nextId } : ShortLink).release.serviceConnect
      ret).Ready := by
  refine ShortLink.Ready.serviceConnect ⟨rfl, ?_, ?_, ?_⟩ ret
  · exact hsize
  · exact hlow
  · exact hhigh

theorem ShortLink.reading_makeRoom (s : ShortLink) (socket : Socket.Stream UInt8) :
    (s.reading socket).makeRoom = some (.etOk, s.reading socket) :=
  if_neg (Int.lt_irrefl _)

/-- A connection that brings nothing, or finds no room, leaves everything as it was. -/
theorem ShortLink.Ready.nothing (h : s.Ready)
    (hnone : d.socket.segments = [] ∨ (s.write d.requests).rx.remain = 0) :
    ∃ s' o, channel s d = some (s', o) ∧ s'.Ready ∧ o.calls = [] ∧ o.headers = [] := by
  have hready := h.write d.requests
  have hrecv : ∃ n : Bool, ((s.write d.requests).reading d.socket).socket.recv
      ((s.write d.requests).reading d.socket).chunk.remain.toNat =
        (if n then .failed else .closed, d.socket) := by
    show ∃ n : Bool, d.socket.recv (s.write d.requests).rx.remain.toNat = _
    by_cases hfull : (s.write d.requests).rx.remain = 0
    · refine ⟨false, ?_⟩
      rw [hfull]
      exact Socket.Stream.recv_zero _
    · refine ⟨d.socket.broken, Socket.Stream.recv_end ?_ (hnone.resolve_right hfull)⟩
      have hhigh := hready.high
      have hsize := hready.size
      rw [Buffchunk.remain] at hfull ⊢
      omega
  obtain ⟨n, hrecv⟩ := hrecv
  have hloop : readLoop (d.socket.left.length + 1) ((s.write d.requests).reading d.socket) =
      some (.etSockRecv, [], (s.write d.requests).reading d.socket) := by
    rw [readLoop, ShortLink.reading_makeRoom]
    simp only [Option.bind_some, ne_eq, not_true_eq_false, if_false, hrecv]
    cases n <;> rfl
  rw [channel, ShortLink.serve, hloop]
  exact ⟨_, _, rfl, ShortLink.ready_after hready.size hready.low hready.high, rfl, rfl⟩

/-- A header is read after the first bytes. -/
theorem ShortLink.Ready.first_header (h : s.Ready) {seg : List UInt8} {rest : List (List UInt8)}
    (hsegments : d.socket.segments = seg :: rest) (hroom : (s.write d.requests).rx.remain ≠ 0)
    {s' : ShortLink} {o : Served} (hserve : channel s d = some (s', o)) :
    o.left = (s.write d.requests).rx.length ∧
      (seg.take (s.write d.requests).rx.remain.toNat).length ∈ o.headers := by
  have hready := h.write d.requests
  have hhigh := hready.high
  have hsize := hready.size
  have hpos : 0 < (s.write d.requests).rx.remain.toNat := by
    rw [Buffchunk.remain] at hroom ⊢
    omega
  obtain ⟨q, hloop, heq⟩ := Option.map_eq_some_iff.mp hserve
  obtain ⟨hrecv, -, hlong, -⟩ := Socket.Stream.recv_bytes hpos hsegments
  rw [← (Prod.mk.inj heq).2]
  refine ⟨rfl, ?_⟩
  show _ ∈ q.2.2.headers
  have hmem : (seg.take (s.write d.requests).rx.remain.toNat).length ∈
      [] ++ [0 + (seg.take (s.write d.requests).rx.remain.toNat).length] := by simp
  have hfits : ((seg.take (s.write d.requests).rx.remain.toNat).length : Int) ≤
      ((s.write d.requests).reading d.socket).chunk.remain := by
    show _ ≤ (s.write d.requests).rx.remain
    omega
  rw [readLoop_bytes (ShortLink.reading_makeRoom _ _) hrecv hfits] at hloop
  split at hloop
  · exact readLoop_headers _ _ _ hloop _ hmem
  · rw [← Option.some.inj hloop]
    exact hmem

/-- What is read into an empty buffer, three bytes at once, is right. -/
theorem ShortLink.Ready.clean (h : s.Ready) (hempty : (s.write d.requests).rx.length = 0)
    (hfirst : ∀ seg rest, d.socket.segments = seg :: rest → 3 ≤ seg.length) :
    ∃ s' o, channel s d = some (s', o) ∧ s'.Ready ∧ o.Right d := by
  have hready := h.write d.requests
  have hsize := hready.size
  have hbytes := d.response.bytes_length
  have hreads : Reads d.response ((s.write d.requests).reading d.socket) := by
    refine ⟨?_, hready.size, hready.low, hready.high, hempty, ?_, ?_, ?_, .inl ⟨rfl, rfl, ?_⟩, ?_⟩
    · show (s.write d.requests).spare.isSome = false
      rw [hready.spare]
      rfl
    · show (s.write d.requests).rx.length ≤ (s.write d.requests).rx.size
      omega
    · show Cells.slice _ _ (s.write d.requests).rx.length.toNat ++ _ <+: _
      rw [hempty]
      exact d.part
    · show 0 < _
      omega
    · show 3 ≤ (s.write d.requests).rx.remain
      rw [Buffchunk.remain]
      omega
    · intro received hmem
      exact absurd hmem (List.not_mem_nil)
  obtain ⟨ret, calls, r, hloop, hended⟩ :=
    hreads.run (d.socket.left.length + 1) _ (fun _ => hfirst) (Nat.lt_succ_self _)
  have htotal : (0 + d.socket.left.length = d.response.bytes.length) ↔ d.Whole := by
    rw [Nat.zero_add]
    exact ⟨fun heq => d.part.eq_of_length heq, fun heq => congrArg List.length heq⟩
  rw [channel, ShortLink.serve, hloop]
  refine ⟨_, _, rfl, ShortLink.ready_after hended.size hended.low hended.high, ?_, ?_, ?_, ?_⟩
  · intro hwhole
    exact (hended.whole (htotal.mpr hwhole)).1
  · intro hpart
    exact hended.part fun heq => hpart (htotal.mp heq)
  · intro call hcall i hi
    rw [Served.Own]
    by_cases hwhole : d.Whole
    · obtain ⟨hcalls, hreceived⟩ := hended.whole (htotal.mpr hwhole)
      have hcall' : call ∈ [d.response.bytes] := hcalls ▸ hcall
      rw [List.mem_singleton.mp hcall'] at hi
      simp only [hempty, hreceived]
      omega
    · have hcall' : call ∈ ([] : List (List UInt8)) :=
        hended.part (fun heq => hwhole (htotal.mp heq)) ▸ hcall
      exact absurd hcall' List.not_mem_nil
  · intro received hmem i hi
    have hthree := hended.headers received hmem
    rw [Served.Own]
    simp only [hempty]
    omega

/-- A connection is handed on as it should be exactly when it is taken well. -/
theorem channel_right_iff (h : s.Ready) :
    (∃ s' o, channel s d = some (s', o) ∧ o.Right d) ↔ d.Taken s := by
  constructor
  · rintro ⟨s', o, hserve, hright⟩
    cases hsegments : d.socket.segments with
    | nil =>
        refine .inl ⟨fun hwhole => ?_, .inl hsegments⟩
        have hnil : d.socket.left = [] := Socket.Stream.left_eq_nil_iff.mpr hsegments
        rw [Delivery.Whole, hnil] at hwhole
        exact nomatch hwhole
    | cons seg rest =>
        by_cases hroom : (s.write d.requests).rx.remain = 0
        · refine .inl ⟨fun hwhole => ?_, .inr hroom⟩
          obtain ⟨s'', o', hserve', -, hcalls, -⟩ := h.nothing (d := d) (.inr hroom)
          have hsame := (Prod.mk.inj (Option.some.inj (hserve.symm.trans hserve'))).2
          have honce := hright.once hwhole
          rw [hsame, hcalls] at honce
          exact nomatch honce
        · obtain ⟨hleft, hheader⟩ := h.first_header hsegments hroom hserve
          have hlow := (h.write d.requests).low
          have hzero := hright.headers _ hheader 0 (by decide)
          have htwo := hright.headers _ hheader 2 (by decide)
          rw [Served.Own, hleft] at hzero htwo
          have hlen := List.length_take_le' (s.write d.requests).rx.remain.toNat seg
          exact .inr ⟨by omega, seg, rest, hsegments, by omega⟩
  · rintro (⟨hpart, hnone⟩ | ⟨hempty, seg, rest, hsegments, hthree⟩)
    · obtain ⟨s', o, hserve, -, hcalls, hheaders⟩ := h.nothing hnone
      refine ⟨s', o, hserve, fun hwhole => absurd hwhole hpart, fun _ => hcalls, ?_, ?_⟩
      · rw [hcalls]
        exact fun call hcall => absurd hcall List.not_mem_nil
      · rw [hheaders]
        exact fun received hmem => absurd hmem List.not_mem_nil
    · obtain ⟨s', o, hserve, -, hright⟩ := h.clean hempty fun seg' rest' hsegments' => by
        rw [hsegments] at hsegments'
        rw [← (List.cons.inj hsegments').1]
        exact hthree
      exact ⟨s', o, hserve, hright⟩

theorem ShortLink.Ready.channel (h : s.Ready) (htaken : d.Taken s) :
    Machine.After channel ShortLink.Ready s d := by
  have hready : ∃ s' o, Mtk.channel s d = some (s', o) ∧ s'.Ready := by
    rcases htaken with ⟨-, hnone⟩ | ⟨hempty, seg, rest, hsegments, hthree⟩
    · obtain ⟨s', o, hserve, hready, -⟩ := h.nothing hnone
      exact ⟨s', o, hserve, hready⟩
    · obtain ⟨s', o, hserve, hready, -⟩ := h.clean hempty fun seg' rest' hsegments' => by
        rw [hsegments] at hsegments'
        rw [← (List.cons.inj hsegments').1]
        exact hthree
      exact ⟨s', o, hserve, hready⟩
  obtain ⟨s', o, hserve, hready⟩ := hready
  exact (Machine.after_some hserve).mpr hready

/-- **Every connection is handed on as it should be exactly when every one is taken well**: it
is read into an empty receive buffer with three bytes at once, or nothing of it is read and
it does not bring its whole response. -/
theorem short_link_iff (id : UInt16) (ds : List Delivery) :
    Machine.Meets channel (fun s d => ∃ s' o, channel s d = some (s', o) ∧ o.Right d)
        (ShortLink.init id) ds ↔
      Machine.Meets channel (fun s d => d.Taken s) (ShortLink.init id) ds :=
  Machine.meets_congr (J := ShortLink.Ready) (fun _ _ h => channel_right_iff h)
    (fun _ _ h htaken => h.channel htaken) ds (ShortLink.init_ready id)

/-- A response without data. -/
def emptyResponse : Response := ⟨0, [], 0, by decide⟩

/-- Its four bytes, the first of them alone. -/
def firstByteAlone : Socket.Stream UInt8 := ⟨[[0], [0, 0, 0]], false, by decide⟩

theorem firstByteAlone_left : firstByteAlone.left = emptyResponse.bytes := rfl

/-- Its header is read when the first byte is there. -/
theorem header_read_early : ∃ d : Delivery, d.response = emptyResponse ∧ d.requests = 1 ∧
    d.socket = firstByteAlone ∧
      ¬Machine.Meets channel (fun s d => ∃ s' o, channel s d = some (s', o) ∧ o.Right d)
        (ShortLink.init 0) [d] := by
  refine ⟨⟨⟨1, firstByteAlone⟩, emptyResponse, firstByteAlone_left ▸ List.prefix_refl _⟩,
    rfl, rfl, rfl, fun h => ?_⟩
  rcases (channel_right_iff (ShortLink.init_ready 0)).mp h.1 with
    ⟨hpart, -⟩ | ⟨-, seg, rest, hsegments, hthree⟩
  · exact hpart firstByteAlone_left
  · rw [← (List.cons.inj hsegments).1] at hthree
    exact absurd hthree (by decide)

end Awoke.Mtk
