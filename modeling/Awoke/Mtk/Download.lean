/-
A download, `mtk_session.c` and `micro_talk.c`.

The chunks of a content are asked for one after the other by their index.  Every response
carries one of them behind a head of nine bytes.  The chunks go into a priority queue, by
their indices, which has room for as many as the first response announces; when it is full
they are merged, into a file or into a chunk in memory.

The chunk in memory is made of what `malloc` returns for as many bytes as the content has,
and nothing sets its fields; what lies there is given with the merge.  Memory and files are
there when they are asked for.
-/
import Awoke.Mtk.Chunkinfo
import Awoke.Util.Buffer
import Awoke.Util.Minpq

namespace Awoke

/-- A chunk in memory.  No queue of a fixed capacity looks at the bytes; those of the two
pointers are left zero here. -/
instance : Node Buffchunk where
  zero := { id := 0, p := fun _ => 0, size := 0, length := 0 }
  nodesize := 40
  byte chunk k :=
    if k < 2 then (chunk.id >>> (8 * UInt16.ofNat k)).toUInt8
    else if 16 ≤ k ∧ k < 20 then UInt8.ofInt (chunk.size >>> (8 * (k - 16)))
    else if 20 ≤ k ∧ k < 24 then UInt8.ofInt (chunk.length >>> (8 * (k - 20)))
    else 0

namespace Mtk

/-! ### The state -/

/-- `struct _mtk_chunkinfo`, as far as a download uses it.  A path is given by its bytes. -/
structure DownloadInfo where
  crc : UInt16 := 0
  index : UInt16 := 0
  fileid : UInt32
  chunknum : UInt16 := 0
  totalsize : UInt32 := 0
  filepath : Option (List UInt8)
  buffout : Option Buffchunk := none
  type : UInt32
  chunkPq : Option (Minpq Buffchunk) := none

/-- What `mtk_voicefile_recv` asks for.  Its debug line prints the path with `%s`, which reads `NULL`
where there is none; without a path, debug lines are taken to be hidden. -/
def mtkVoicefileRecv (filepath : Option (List UInt8)) (fileid : UInt32) : DownloadInfo :=
  { fileid := fileid, filepath := filepath, type := chunktypeFile }

/-- What `mtk_voicebuff_recv` asks for. -/
def mtkVoicebuffRecv : DownloadInfo :=
  { fileid := 1, filepath := none, type := chunktypeBuff }

/-- A download, with the file it is written to and the counter of `buffchunk_id`. -/
structure Download where
  ci : DownloadInfo
  file : Option (List UInt8)
  nextId : UInt16

/-- A request for a chunk, `chunkrecv_request`. -/
structure ChunkRequest where
  fileid : UInt32
  index : UInt16
  deriving DecidableEq

/-- `chunkrecv_request`. -/
def chunkrecvRequest (ci : DownloadInfo) : ChunkRequest :=
  { fileid := ci.fileid, index := ci.index }

/-- `struct _mtk_response_msg`, as far as a download uses it. -/
structure ChunkResponse where
  data : Cells UInt8
  len : UInt16

/-! ### Merging -/

/-- The loop of `mtk_filchunk_merge`, which takes out as many chunks as there are.  To write
no bytes is an error. -/
def filchunkLoop :
    Nat → Minpq Buffchunk → List UInt8 → Option (ErrType × List UInt8 × Minpq Buffchunk)
  | n, q, file =>
      if q.empty then some (.etOk, file, q)
      else
        match n with
        | 0 => none
        | n + 1 =>
            q.delmin.bind fun r =>
              r.2.1.bind fun x =>
                if x.1.length ≤ 0 then some (.etFileSend, file, r.2.2)
                else filchunkLoop n r.2.2 (file ++ x.1.contents)

/-- `mtk_filchunk_merge`; the path is copied into 32 bytes. -/
def mtkFilchunkMerge (s : Download) (q : Minpq Buffchunk) : Option (ErrType × Download) :=
  if (s.ci.filepath.getD []).length < 32 then
    (filchunkLoop q.nodeNr q []).map fun r =>
      (r.1, { s with ci := { s.ci with chunkPq := some r.2.2 }, file := some r.2.1 })
  else none

/-- The loop of `mtk_buffchunk_merge`; what `awoke_buffchunk_write` returns is not looked at. -/
def buffchunkLoop : Nat → Minpq Buffchunk → Buffchunk → Option (Buffchunk × Minpq Buffchunk)
  | n, q, out =>
      if q.empty then some (out, q)
      else
        match n with
        | 0 => none
        | n + 1 =>
            q.delmin.bind fun r =>
              r.2.1.bind fun x => buffchunkLoop n r.2.2 (out.write x.1.contents true).2

/-- `mtk_buffchunk_merge`, with the chunk that lies in the new memory. -/
def mtkBuffchunkMerge (mem : Buffchunk) (s : Download) (q : Minpq Buffchunk) :
    Option (ErrType × Download) :=
  if s.ci.totalsize = 0 then some (.etNomem, { s with ci := { s.ci with buffout := none } })
  else
    (buffchunkLoop q.nodeNr q mem).map fun r =>
      (.etOk, { s with ci := { s.ci with chunkPq := some r.2, buffout := some r.1 } })

/-- `mtk_chunkdata_merge`. -/
def mtkChunkdataMerge (mem : Buffchunk) (s : Download) (q : Minpq Buffchunk) :
    Option (ErrType × Download) :=
  if s.ci.type = chunktypeFile then mtkFilchunkMerge s q
  else if s.ci.type = chunktypeBuff then mtkBuffchunkMerge mem s q
  else some (.etFail, s)

/-! ### Responses -/

/-- How a response leaves the session: with the next chunk to ask for, in state FIN, or
removed from the connection. -/
inductive Progress
  | again (s : Download)
  | fin (s : Download)
  | failed (code : ErrType)

/-- What the first response sets up. -/
def openQueue (ci : DownloadInfo) (data : Cells UInt8) : Option (DownloadInfo × Minpq Buffchunk) :=
  match ci.chunkPq with
  | some q => some (ci, q)
  | none =>
      let chunknum := htons (pullWord data 1)
      let totalsize := htonl (pullDwrd data 3)
      let crc := htons (pullWord data 7)
      (Minpq.create chunknum.toNat none 0).map fun q =>
        ({ ci with crc := crc, chunknum := chunknum, totalsize := totalsize, chunkPq := some q }, q)

/-- What `chunkrecv_response` does with the chunk of a response. -/
def takeChunk (mem : Buffchunk) (s : Download) (q : Minpq Buffchunk) (chunk : Buffchunk) :
    Option Progress :=
  (q.insert chunk (Int32.ofNat s.ci.index.toNat)).bind fun r =>
    let s : Download := { s with ci := { s.ci with chunkPq := some r.2 } }
    if r.2.full then
      (mtkChunkdataMerge mem s r.2).map fun r =>
        if r.1 = .etOk then .fin r.2 else .failed r.1
    else
      some (.again { s with ci := { s.ci with index := s.ci.index + 1 } })

/-- `chunkrecv_response`. -/
def chunkrecvResponse (mem : Buffchunk) (s : Download) (m : ChunkResponse) : Option Progress :=
  if m.data 0 ≠ 0 then some (.failed .etFail)
  else
    match openQueue s.ci m.data with
    | none => some (.failed .etNomem)
    | some (ci, q) =>
        if q.full then some (.failed .etFull)
        else
          let dlen := m.len - 9
          match Buffchunk.create s.nextId dlen.toNat with
          | (none, _) => some (.failed .etNomem)
          | (some chunk, id) =>
              let w := chunk.write (Cells.slice m.data 9 dlen.toNat) false
              if w.1 = .etOk then takeChunk mem { s with ci := ci, nextId := id } q w.2
              else some (.failed w.1)

/-- How a session stands after some exchanges. -/
inductive Session
  | running (s : Download)
  | fin (s : Download)
  | failed (code : ErrType)

/-- Up to `n` exchanges of a session with a server: the requests, and how it stands then. -/
def session (mem : Buffchunk) (server : ChunkRequest → ChunkResponse) :
    Nat → Download → Option (List ChunkRequest × Session)
  | 0, s => some ([], .running s)
  | n + 1, s =>
      let request := chunkrecvRequest s.ci
      (chunkrecvResponse mem s (server request)).bind fun
        | .again s => (session mem server n s).map fun r => (request :: r.1, r.2)
        | .fin s => some ([request], .fin s)
        | .failed code => some ([request], .failed code)

end Mtk

end Awoke
