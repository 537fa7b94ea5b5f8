/-
A content that is uploaded comes back.

The two halves of a transfer are apart in the code: `chunksend_request` makes the messages of an
upload, `chunkrecv_response` takes those of a download.  What lies between is a server that keeps the
messages and hands each of them out again, by its index, under the head of a response.  The fields of
the two heads are the same bytes, so nothing has to be read on the way.
-/
import Awoke.Proofs.Download
import Awoke.Proofs.UploadPlan

namespace Awoke.Mtk

/-! ### What is handed out again -/

/-- What a server makes of the message of a PUT request: the code 0, the number of chunks, the size and
the checksum of the whole, and the chunk, without the checksum of the message. -/
def relayed (payload : List UInt8) : List UInt8 :=
  0 :: ((payload.drop 12).take 2 ++ (payload.drop 16).take 6 ++
    (payload.drop 24).take (payload.length - 25))

/-- The chunk of a message is handed out whenever its index is asked for. -/
def Relays (server : ChunkRequest → ChunkResponse) (fileid : UInt32) (token : List UInt8)
    (puts : List PutRequest) : Prop :=
  ∀ i r, puts[i]? = some r →
    let m := server { fileid := fileid, index := UInt16.ofNat i }
    m.len.toNat = (relayed (r.payload token)).length ∧
      Cells.slice m.data 0 (relayed (r.payload token)).length = relayed (r.payload token)

theorem relayed_payload (r : PutRequest) {token : List UInt8} (h : token.length = 8) :
    relayed (r.payload token) =
      0 :: (pushHtons r.chunknum ++ pushHtonl r.totalsize ++ pushHtons r.crc ++ r.data) := by
  obtain ⟨t0, t1, t2, t3, t4, t5, t6, t7, rfl⟩ :
      ∃ t0 t1 t2 t3 t4 t5 t6 t7, token = [t0, t1, t2, t3, t4, t5, t6, t7] := by
    match token, h with
    | [t0, t1, t2, t3, t4, t5, t6, t7], _ => exact ⟨t0, t1, t2, t3, t4, t5, t6, t7, rfl⟩
  have hlength := Upload.length_payload r [t0, t1, t2, t3, t4, t5, t6, t7] rfl
  rw [relayed, hlength]
  simp [PutRequest.payload, pkgRequestHeader, pushHtons, pushHtonl, reqHeaderLength,
    putHeaderLength]

/-! ### The chunks -/

theorem Tiles.flatten (content : List UInt8) (rs : List (Nat × Nat)) : ∀ {a b : Nat},
    Tiles a rs b → (rs.map fun r => (content.drop r.1).take r.2).flatten ++ content.drop b =
      content.drop a := by
  induction rs with
  | nil =>
      intro a b h
      rw [Tiles] at h
      rw [h, List.map_nil, List.flatten_nil, List.nil_append]
  | cons r rs ih =>
      intro a b h
      obtain ⟨start, len⟩ := r
      obtain ⟨rfl, hrest⟩ := h
      rw [List.map_cons, List.flatten_cons, List.append_assoc, ih hrest, ← List.drop_drop,
        List.take_append_drop]

variable {u : Upload} {s : Nat}

theorem chunk_begins (hs : 0 < s) {i : Nat} (hi : i < (u.content.length + s - 1) / s) :
    i * min u.content.length s < u.content.length := by
  have hpos := u.length_pos
  have hmul : (i + 1) * s ≤ u.content.length + s - 1 :=
    (Nat.le_div_iff_mul_le hs).mp hi
  have hmin : i * min u.content.length s ≤ i * s :=
    Nat.mul_le_mul_left i (Nat.min_le_right _ _)
  rw [Nat.add_mul, Nat.one_mul] at hmul
  omega

theorem chunk_data_ne_nil (hs : 0 < s) {i : Nat} (hi : i < (u.content.length + s - 1) / s) :
    (u.request ((u.content.length + s - 1) / s) (min u.content.length s) i).data ≠ [] := by
  have hbegins := chunk_begins hs hi
  have hpos := u.length_pos
  have hlen : 0 < (chunkRange u.content.length (min u.content.length s)
      ((u.content.length + s - 1) / s) i).2 := by
    unfold chunkRange
    dsimp only
    split <;> omega
  have hdata : 0 < ((u.content.drop (i * min u.content.length s)).take (chunkRange u.content.length
      (min u.content.length s) ((u.content.length + s - 1) / s) i).2).length := by
    rw [List.length_take, List.length_drop]
    omega
  exact List.ne_nil_of_length_pos hdata

/-- The requests of a plan for chunks of `s` bytes. -/
def Upload.puts (u : Upload) (s : Nat) : List PutRequest :=
  (List.range ((u.content.length + s - 1) / s)).map
    (u.request ((u.content.length + s - 1) / s) (min u.content.length s))

theorem Upload.puts_length (u : Upload) (s : Nat) :
    (u.puts s).length = (u.content.length + s - 1) / s := by
  rw [puts, List.length_map, List.length_range]

/-- The chunks of a plan, in order. -/
def Upload.split (u : Upload) (hs : 0 < s) : Split where
  chunks := (u.puts s).map PutRequest.data
  nonempty := by
    have hpos := u.length_pos
    have hn : 0 < (u.content.length + s - 1) / s := Nat.div_pos (by omega) hs
    refine List.ne_nil_of_length_pos ?_
    rw [List.length_map, puts_length]
    exact hn
  pieces := by
    intro chunk hchunk
    obtain ⟨r, hr, rfl⟩ := List.mem_map.mp hchunk
    obtain ⟨i, hi, rfl⟩ := List.mem_map.mp hr
    exact chunk_data_ne_nil hs (List.mem_range.mp hi)

/-- A plan for chunks of `s` bytes in fields that are wide enough. -/
structure Upload.Wide (u : Upload) (s : Nat) : Prop where
  pos : 0 < s
  size : u.content.length < 2 ^ 31
  chunksize : min u.content.length s ≤ 65535
  chunknum : (u.content.length + s - 1) / s ≤ 65535
  typed : u.Typed

theorem Upload.Wide.planned (h : u.Wide s) :
    Planned u s (u.plan (UInt16.ofNat ((u.content.length + s - 1) / s),
      UInt16.ofNat (min u.content.length s))) (u.puts s) :=
  (sized_of_le h.pos h.size h.chunksize h.chunknum).planned h.typed
    (by rw [chunks, Int.toNat_natCast])

theorem Upload.Wide.split_content (h : u.Wide s) : (u.split h.pos).content = u.content := by
  have hflat := h.planned.ranges.flatten u.content
  rw [List.drop_length, List.append_nil, List.drop_zero, List.map_map] at hflat
  rw [Split.content, ← hflat]
  exact congrArg List.flatten (List.map_congr_left h.planned.carried)

/-- A server that hands the messages out is honest about the content. -/
theorem Relays.honest (hwide : u.Wide s) {token : List UInt8} (htoken : token.length = 8)
    {server : ChunkRequest → ChunkResponse} {fileid : UInt32}
    (h : Relays server fileid token (u.puts s)) : Honest server fileid (u.split hwide.pos) := by
  intro i hi
  obtain ⟨r, hr⟩ : ∃ r, (u.puts s)[i]? = some r :=
    ⟨_, List.getElem?_eq_getElem (by rw [Upload.split, List.length_map] at hi; exact hi)⟩
  have hchunk : (u.split hwide.pos).chunks[i] = r.data := by
    refine Option.some.inj ((List.getElem?_eq_getElem hi).symm.trans ?_)
    rw [Upload.split, List.getElem?_map, hr, Option.map_some]
  have hmem := List.mem_of_getElem? hr
  obtain ⟨hlen, hslice⟩ := h i r hr
  rw [relayed_payload r htoken] at hlen hslice
  have hlength : (0 :: (pushHtons r.chunknum ++ pushHtonl r.totalsize ++ pushHtons r.crc ++
      r.data)).length = 9 + r.data.length := by
    simp [pushHtons, pushHtonl]
    omega
  rw [hlength] at hlen hslice
  rw [hchunk]
  refine ⟨r.chunknum, r.totalsize, r.crc, ?_, ?_, hlen, hslice⟩
  · rw [hwide.planned.chunknum r hmem, Upload.split, List.length_map, Upload.puts_length,
      Upload.chunks, Int.toNat_natCast]
  · rw [hwide.planned.totalsize r hmem, hwide.split_content]

/-! ### The whole -/

/-- **A content that is uploaded comes back as it was.**  The messages of its plan, handed out again by
their indices, make a download end with the content in its file: for every server that hands them out,
every token they are signed with, every memory and every file there was before. -/
theorem relay_delivers (u : Upload) {chunksize : Int} (hread : u.Readable) (hpos : 0 < chunksize)
    (hfits : u.Fits chunksize) :
    ∃ ci, ∃ puts : List PutRequest, u.generate chunksize = some (.ok ci) ∧
      (List.range ci.chunknum.toNat).map (fun i => chunksendRequest (ci.atIndex i)) =
        puts.map (fun r => some (.ok r)) ∧
      ∀ (token : List UInt8) (server : ChunkRequest → ChunkResponse) (mem : Buffchunk)
        (filepath : Option (List UInt8)) (fileid : UInt32) (file : Option (List UInt8))
        (nextId : UInt16), token.length = 8 → (filepath.getD []).length < 32 →
        Relays server fileid token puts →
          ∃ s, session mem server puts.length
              { ci := mtkVoicefileRecv filepath fileid, file := file, nextId := nextId } =
                some (requests fileid puts.length, .fin s) ∧ s.file = some u.content := by
  obtain ⟨s, rfl⟩ : ∃ s : Nat, chunksize = s := ⟨chunksize.toNat, by omega⟩
  have hsize := hread.1
  have hwide : u.Wide s := by
    rcases hfits with hneg | ⟨hnot, -⟩ | ⟨-, -, hlt, hmin, hchunks, htyped⟩
    · omega
    · exact absurd hread hnot
    · rw [Upload.chunks, Int.toNat_natCast] at hchunks
      exact ⟨by omega, hlt, by omega, hchunks, htyped⟩
  have hgen := Upload.generate_readable hread (Int.le_of_lt hpos)
  rw [Upload.size_of_lt hwide.size, Int.toNat_natCast, Int.toNat_natCast,
    Upload.chunkPlan_pos u.length_pos hwide.pos, Option.map_some] at hgen
  refine ⟨_, u.puts s, hgen, hwide.planned.built, ?_⟩
  intro token server mem filepath fileid file nextId htoken hpath hrelays
  have hdelivers := (delivers_file_iff mem (hrelays.honest hwide htoken) file nextId).mpr hpath
  obtain ⟨last, hsession, hout⟩ := hdelivers.fin
  rw [hwide.split_content] at hout
  rw [Upload.split, List.length_map] at hsession
  exact ⟨last, hsession, hout⟩

/-- A server that has kept the messages. -/
def keeper (token : List UInt8) (puts : List PutRequest) (request : ChunkRequest) : ChunkResponse :=
  let bytes := ((puts.map fun r => relayed (r.payload token))[request.index.toNat]?).getD []
  { data := Cells.write (fun _ => 0) 0 bytes, len := UInt16.ofNat bytes.length }

/-- It hands out all of them, when they are short enough for a response and have an index of their
own. -/
theorem keeper_relays {token : List UInt8} {puts : List PutRequest} (fileid : UInt32)
    (hshort : ∀ r ∈ puts, (relayed (r.payload token)).length < 2 ^ 16)
    (hfew : puts.length ≤ 2 ^ 16) : Relays (keeper token puts) fileid token puts := by
  intro i r hr
  have hi : i < puts.length := (List.getElem?_eq_some_iff.mp hr).1
  have hindex : (UInt16.ofNat i).toNat = i :=
    UInt16.toNat_ofNat_of_lt' (show i < 2 ^ 16 by omega)
  have hbytes : ((puts.map fun r => relayed (r.payload token))[(UInt16.ofNat i).toNat]?).getD [] =
      relayed (r.payload token) := by
    rw [hindex, List.getElem?_map, hr]
    rfl
  refine ⟨?_, ?_⟩
  · show (UInt16.ofNat _).toNat = _
    rw [hbytes]
    exact UInt16.toNat_ofNat_of_lt' (hshort r (List.mem_of_getElem? hr))
  · show Cells.slice (Cells.write _ 0 _) 0 _ = _
    rw [hbytes, Cells.slice_write_self]

/-- Three bytes in memory. -/
def threeBytes : Upload := .buff [1, 2, 3] (List.cons_ne_nil _ _) (by decide) chunktypeBuff

theorem threeBytes_readable : threeBytes.Readable := by
  have hcrc : crc16 [1, 2, 3] ≠ 0 := by decide +kernel
  exact ⟨Int.natCast_pos.mpr (Nat.succ_pos 2), hcrc⟩

theorem threeBytes_wide : threeBytes.Wide 2 := ⟨by decide, by decide, by decide, by decide, rfl⟩

/-- In chunks of two. -/
theorem relay_delivers_three :
    ∃ s, session 0 (keeper [1, 2, 3, 4, 5, 6, 7, 8] (threeBytes.puts 2)) 2
      { ci := mtkVoicefileRecv none 9, file := none, nextId := 0 } =
        some (requests 9 2, .fin s) ∧ s.file = some [1, 2, 3] := by
  obtain ⟨ci, puts, hgen, hbuilt, hrun⟩ := relay_delivers threeBytes threeBytes_readable
    (show (0 : Int) < 2 by decide)
    (.inr (.inr ⟨threeBytes_readable, by decide, by decide, by decide, by decide, rfl⟩))
  have hplan : threeBytes.generate 2 = some (.ok (threeBytes.plan (2, 2))) := by
    rw [Upload.generate_readable threeBytes_readable (by decide)]
    rfl
  obtain rfl := Except.ok.inj (Option.some.inj (hplan.symm.trans hgen))
  have hinj : Function.Injective fun r : PutRequest =>
      (some (.ok r) : Option (Except ErrType PutRequest)) :=
    fun r r' h => Except.ok.inj (Option.some.inj h)
  obtain rfl : threeBytes.puts 2 = puts :=
    List.map_injective_iff.mpr hinj (threeBytes_wide.planned.built.symm.trans hbuilt)
  have hshort : ∀ r ∈ threeBytes.puts 2,
      (relayed (r.payload [1, 2, 3, 4, 5, 6, 7, 8])).length < 2 ^ 16 := by
    intro r hr
    obtain ⟨i, -, rfl⟩ := List.mem_map.mp hr
    rw [relayed_payload _ rfl]
    have hdata : (threeBytes.request 2 2 i).data.length ≤ 3 :=
      (List.length_take_le' ..).trans (List.length_drop ▸ Nat.sub_le _ _)
    simp only [pushHtons, pushHtonl, List.length_append, List.length_cons, List.length_nil]
    exact Nat.lt_of_le_of_lt (Nat.add_le_add_right (Nat.add_le_add_left hdata 8) 1) (by decide)
  exact hrun _ _ 0 none 9 none 0 rfl (by decide) (keeper_relays 9 hshort (by decide))

end Awoke.Mtk
