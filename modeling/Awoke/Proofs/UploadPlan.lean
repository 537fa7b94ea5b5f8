/-
The plan of an upload covers its content.

`Planned` says what a plan is for: the requests for the chunks in order carry ranges
that follow one another from the first byte to the last, none larger than the buffer
made for it, and announce the content as it is.  `upload_plan_iff` says for which
contents and chunk sizes the generators give such a plan, or rightly refuse to.

What stands in the way is that the checksum doubles as an error, that nothing keeps a
chunk size of zero from the division, that the number and the size of chunks are cut to
16 bits and the size of a file to 32, and that a plan for a buffer never says so.
-/
import Awoke.Mtk.Chunkinfo
import Mathlib.Data.List.Basic
import Mathlib.Tactic.Common

namespace Awoke.Mtk

/-! ### Ranges that follow one another -/

/-- The ranges, of a start and a length each, follow one another from `a` to `b`. -/
def Tiles : Nat → List (Nat × Nat) → Nat → Prop
  | a, [], b => a = b
  | a, (start, len) :: rs, b => start = a ∧ Tiles (a + len) rs b

theorem Tiles.le_mul {m : Nat} (rs : List (Nat × Nat)) : ∀ {a b : Nat}, Tiles a rs b →
    (∀ r ∈ rs, r.2 ≤ m) → b ≤ a + rs.length * m := by
  induction rs with
  | nil =>
      intro a b h _
      rw [Tiles] at h
      omega
  | cons r rs ih =>
      intro a b h hle
      obtain ⟨start, len⟩ := r
      have hrest := ih h.2 fun r' hr' => hle r' (List.mem_cons_of_mem _ hr')
      have hlen : len ≤ m := hle (start, len) List.mem_cons_self
      rw [List.length_cons, Nat.add_mul, Nat.one_mul]
      omega

/-- The range of the chunk `i` of `n`, each of `m` bytes but the last. -/
def chunkRange (l m n i : Nat) : Nat × Nat := (i * m, if i + 1 = n then l - i * m else m)

/-- The ranges of the chunks follow one another to the end of the content. -/
theorem tiles_chunkRange {l m n : Nat} (hlast : (n - 1) * m ≤ l) (k : Nat) : ∀ a : Nat,
    a + (k + 1) = n → Tiles (a * m) ((List.range' a (k + 1)).map (chunkRange l m n)) l := by
  induction k with
  | zero =>
      intro a hn
      have ha : a * m ≤ l := by
        rw [← hn] at hlast
        simpa using hlast
      rw [List.range'_one, List.map_singleton, chunkRange, if_pos (by omega), Tiles]
      exact ⟨rfl, by rw [Tiles]; omega⟩
  | succ k ih =>
      intro a hn
      rw [List.range'_succ, List.map_cons, chunkRange, if_neg (by omega), Tiles]
      refine ⟨rfl, ?_⟩
      have hrest := ih (a + 1) (by omega)
      rw [Nat.add_mul, Nat.one_mul] at hrest
      exact hrest

/-! ### What is uploaded -/

/-- What is uploaded: a file, or a buffer whose length is an `int`.  `type` is what the
memory of the plan for a buffer holds where its type is. -/
inductive Upload
  | file (content : List UInt8) (nonempty : content ≠ [])
  | buff (content : List UInt8) (nonempty : content ≠ []) (fits : content.length < 2 ^ 31)
      (type : UInt32)

namespace Upload

/-- The bytes to be uploaded. -/
def content : Upload → List UInt8
  | .file content _ => content
  | .buff content _ _ _ => content

/-- The generator for it. -/
def generate : Upload → Int → Option (Except ErrType MtkChunkinfo)
  | .file content _, chunksize => generateFromFile content chunksize
  | .buff content _ _ type, chunksize => generateFromBuff content chunksize type

/-- The size that is read for it, as an `int`. -/
def size : Upload → Int
  | .file content _ => mtkGetfilesize content
  | .buff content _ _ _ => content.length

/-- The size reads as positive, and the checksum of as many bytes is not 0. -/
def Readable (u : Upload) : Prop := 0 < u.size ∧ crc16 (u.content.take u.size.toNat) ≠ 0

/-- A plan for it is taken for what it is. -/
def Typed : Upload → Prop
  | .file _ _ => True
  | .buff _ _ _ type => type = chunktypeBuff

/-- How many chunks of `chunksize` bytes it takes. -/
def chunks (u : Upload) (chunksize : Int) : Nat :=
  (u.content.length + chunksize.toNat - 1) / chunksize.toNat

theorem length_pos (u : Upload) : 0 < u.content.length := by
  cases u with
  | file content nonempty => exact List.length_pos_iff.mpr nonempty
  | buff content nonempty fits type => exact List.length_pos_iff.mpr nonempty

/-! ### What is asked of a plan -/

/-- The requests of a plan, one for each chunk in order: they carry all of the content,
none more than was allocated for it, and announce it as it is. -/
structure Planned (u : Upload) (chunksize : Int) (ci : MtkChunkinfo)
    (requests : List PutRequest) : Prop where
  built : (List.range ci.chunknum.toNat).map (fun i => chunksendRequest (ci.atIndex i)) =
    requests.map fun r => some (.ok r)
  ranges : Tiles 0 (requests.map fun r => (r.start, r.dlen)) u.content.length
  fits : ∀ r ∈ requests, r.dlen ≤ ci.chunksize.toNat
  allocated : ∀ r ∈ requests, ∀ token : List UInt8, token.length = 8 →
    (r.payload token).length ≤ reqHeaderLength + putHeaderLength + ci.chunksize.toNat
  carried : ∀ r ∈ requests, r.data = (u.content.drop r.start).take r.dlen
  chunknum : ∀ r ∈ requests, r.chunknum.toNat = u.chunks chunksize
  totalsize : ∀ r ∈ requests, r.totalsize.toNat = u.content.length
  crc : ∀ r ∈ requests, r.crc = crc16 u.content

/-- What is asked of the generator: it has a result, an error only where there is no plan
with indexes of 16 bits, and else a plan whose requests carry the content. -/
structure Plans (u : Upload) (chunksize : Int) : Prop where
  returns : u.generate chunksize ≠ none
  error : ∀ e, u.generate chunksize = some (.error e) →
    chunksize ≤ 0 ∨ 65536 < u.chunks chunksize
  ok : ∀ ci, u.generate chunksize = some (.ok ci) → ∃ requests, Planned u chunksize ci requests

/-- When it does. -/
def Fits (u : Upload) (chunksize : Int) : Prop :=
  chunksize < 0 ∨ (¬u.Readable ∧ (chunksize = 0 ∨ 65536 < u.chunks chunksize)) ∨
    (u.Readable ∧ 0 < chunksize ∧ u.content.length < 2 ^ 31 ∧
      min (u.content.length : Int) chunksize ≤ 65535 ∧ u.chunks chunksize ≤ 65535 ∧ u.Typed)

/-! ### The generators -/

theorem toNat_ofNat16 {n : Nat} (h : n ≤ 65535) : (UInt16.ofNat n).toNat = n :=
  UInt16.toNat_ofNat_of_lt' (Nat.lt_succ_of_le h)

theorem toNat_ofNat32 {n : Nat} (h : n < 2 ^ 31) : (UInt32.ofNat n).toNat = n :=
  UInt32.toNat_ofNat_of_lt' (Nat.lt_trans h (by decide))

theorem toInt32_of_lt {n : Nat} (h : n < 2 ^ 31) : toInt32 n = n := by
  unfold toInt32
  simp only [Int.bmod_def, Nat.reducePow] at h ⊢
  omega

theorem toInt32_lt (n : Nat) : toInt32 n < 2 ^ 31 := by
  unfold toInt32
  simp only [Int.bmod_def, Nat.reducePow]
  omega

theorem toInt32_mod (n : Nat) : toInt32 (n % 2 ^ 32) = toInt32 n := by
  unfold toInt32
  simp only [Int.bmod_def, Nat.reducePow]
  omega

/-- A positive `int` is what is left of a number in 32 bits. -/
theorem toInt32_pos {n : Nat} (h : 0 < toInt32 n) : toInt32 n = (n % 2 ^ 32 : Nat) := by
  unfold toInt32 at h ⊢
  simp only [Int.bmod_def, Nat.reducePow] at h ⊢
  omega

theorem ofInt_toInt32 (n : Nat) : (UInt32.ofInt (toInt32 n)).toNat = n % 2 ^ 32 := by
  have hmod := @Int.bmod_emod n (2 ^ 32)
  unfold UInt32.ofInt toInt32
  rw [UInt32.toNat_ofNat']
  simp only [Nat.reducePow] at hmod ⊢
  omega

/-- Cutting `n` bytes into chunks of `m`. -/
theorem chunkPlan_pos {n m : Nat} (hn : 0 < n) (hm : 0 < m) :
    chunkPlan n m = some (UInt16.ofNat ((n + m - 1) / m), UInt16.ofNat (min n m)) := by
  have hdiv := Nat.div_add_mod n m
  have hlt := Nat.mod_lt n hm
  unfold chunkPlan
  split
  · rename_i hle
    have hone : (n + m - 1) / m = 1 :=
      Nat.div_eq_of_lt_le (by omega) (by omega)
    rw [hone, Nat.min_eq_left hle]
    rfl
  · rename_i hle
    rw [if_neg (by omega), Nat.min_eq_right (by omega)]
    have hchunks : (n + m - 1) / m = if n % m ≠ 0 then n / m + 1 else n / m := by
      split
      · refine Nat.div_eq_of_lt_le ?_ ?_
        · rw [Nat.add_mul, Nat.one_mul, Nat.mul_comm]
          omega
        · rw [Nat.add_mul, Nat.add_mul, Nat.one_mul, Nat.mul_comm]
          omega
      · refine Nat.div_eq_of_lt_le ?_ ?_
        · rw [Nat.mul_comm]
          omega
        · rw [Nat.add_mul, Nat.one_mul, Nat.mul_comm]
          omega
    rw [hchunks]

theorem chunkPlan_zero {n : Nat} (hn : 0 < n) : chunkPlan n 0 = none := by
  rw [chunkPlan, if_neg (by omega), if_pos rfl]

/-- The plan that is made of a number and a size of chunks. -/
def plan (u : Upload) (p : UInt16 × UInt16) : MtkChunkinfo :=
  { crc := crc16 (u.content.take u.size.toNat)
    hash := 6
    index := 0
    chunknum := p.1
    chunksize := p.2
    totalsize := UInt32.ofNat u.size.toNat
    filepath := match u with
      | .file content _ => some content
      | .buff _ _ _ _ => none
    buffin := match u with
      | .file _ _ => []
      | .buff content _ _ _ => content
    type := match u with
      | .file _ _ => chunktypeFile
      | .buff _ _ _ type => type }

theorem size_lt (u : Upload) : u.size < 2 ^ 31 := by
  cases u with
  | file content nonempty => exact toInt32_lt content.length
  | buff content nonempty fits type => exact Int.ofNat_lt.mpr fits

/-- The size that is read is that of the content, unless the content is too large. -/
theorem size_of_lt {u : Upload} (h : u.content.length < 2 ^ 31) : u.size = u.content.length := by
  cases u with
  | file content nonempty => exact toInt32_of_lt h
  | buff content nonempty fits type => rfl

theorem size_le {u : Upload} (h : 0 < u.size) : u.size ≤ u.content.length := by
  cases u with
  | file content nonempty =>
      have hsize := toInt32_pos h
      have hmod := Nat.mod_le content.length (2 ^ 32)
      show toInt32 content.length ≤ content.length
      omega
  | buff content nonempty fits type => exact Int.le_refl _

theorem generate_neg (u : Upload) {chunksize : Int} (h : chunksize < 0) :
    u.generate chunksize = some (.error .etParam) := by
  cases u with
  | file content nonempty => exact if_pos h
  | buff content nonempty fits type => exact if_pos h

/-- A content that cannot be read is refused. -/
theorem generate_unreadable {u : Upload} (h : ¬u.Readable) {chunksize : Int}
    (hsize : 0 ≤ chunksize) : ∃ e, u.generate chunksize = some (.error e) := by
  have hneg : ¬chunksize < 0 := by omega
  cases u with
  | file content nonempty =>
      show ∃ e, generateFromFile content chunksize = some (.error e)
      unfold generateFromFile
      rw [if_neg hneg, mtkGetfilesize]
      by_cases hzero : UInt32.ofInt (toInt32 content.length) = 0
      · exact ⟨.etFileOpen, if_pos hzero⟩
      · have hcrc : mtkGetfilecrc content (toInt32 content.length) = 0 := by
          by_cases hpos : toInt32 content.length ≤ 0
          · exact if_pos hpos
          · have hle : toInt32 content.length ≤ content.length :=
              @size_le (.file content nonempty) (Int.not_le.mp hpos)
            have hnot : ¬(content.length : Int) < toInt32 content.length := by omega
            rw [mtkGetfilecrc, if_neg hpos, if_neg hnot]
            by_contra hcrc
            exact h ⟨Int.not_le.mp hpos, hcrc⟩
        refine ⟨.etParam, ?_⟩
        rw [if_neg hzero, ofInt_toInt32, toInt32_mod, if_pos hcrc]
  | buff content nonempty fits type =>
      have hcrc : crc16 content = 0 := by
        by_contra hcrc
        refine h ⟨Int.ofNat_lt.mpr (List.length_pos_iff.mpr nonempty), ?_⟩
        show crc16 (content.take content.length) ≠ 0
        rw [List.take_length]
        exact hcrc
      refine ⟨.etParam, ?_⟩
      show generateFromBuff content chunksize type = _
      rw [generateFromBuff, if_neg hneg, if_pos hcrc]

/-- A content that can be read is planned, if there is no division by zero. -/
theorem generate_readable {u : Upload} (h : u.Readable) {chunksize : Int}
    (hsize : 0 ≤ chunksize) :
    u.generate chunksize =
      (chunkPlan u.size.toNat chunksize.toNat).map fun p => .ok (u.plan p) := by
  have hneg : ¬chunksize < 0 := by omega
  have hlt := u.size_lt
  have hle := size_le h.1
  cases u with
  | file content nonempty =>
      show generateFromFile content chunksize = _
      have hpos : 0 < toInt32 content.length := h.1
      have hread := toInt32_pos hpos
      have hcrc : crc16 (content.take (toInt32 content.length).toNat) ≠ 0 := h.2
      have htotal := ofInt_toInt32 content.length
      have hofNat : UInt32.ofInt (toInt32 content.length) =
          UInt32.ofNat (toInt32 content.length).toNat := by
        rw [← UInt32.toNat_inj, htotal, UInt32.toNat_ofNat', hread]
        simp only [Int.toNat_natCast, Nat.mod_mod]
      have hnonzero : UInt32.ofInt (toInt32 content.length) ≠ 0 := by
        intro hzero
        rw [hzero] at htotal
        rw [← htotal] at hread
        exact absurd hpos (by rw [hread]; decide)
      have hget : mtkGetfilecrc content (toInt32 content.length) =
          crc16 (content.take (toInt32 content.length).toNat) := by
        have hle' : toInt32 content.length ≤ content.length := hle
        rw [mtkGetfilecrc, if_neg (by omega), if_neg (by omega)]
      have hnat : (toInt32 content.length).toNat = content.length % 2 ^ 32 := by omega
      unfold generateFromFile
      rw [if_neg hneg, mtkGetfilesize, if_neg hnonzero, htotal, toInt32_mod, hget, if_neg hcrc,
        ← hnat, hofNat]
      rfl
  | buff content nonempty fits type =>
      have hcrc : crc16 content ≠ 0 := by
        have hcrc := h.2
        rw [show (Upload.buff content nonempty fits type).size.toNat = content.length from rfl,
          show (Upload.buff content nonempty fits type).content = content from rfl,
          List.take_length] at hcrc
        exact hcrc
      show generateFromBuff content chunksize type = _
      rw [generateFromBuff, if_neg hneg, if_neg hcrc]
      show Option.map _ (chunkPlan _ _) = Option.map _ (chunkPlan content.length _)
      congr 1
      funext p
      simp only [plan, Upload.content, Upload.size, Int.toNat_natCast, List.take_length]

/-! ### The requests -/

/-- What a request announces and carries is what the plan says. -/
theorem chunksendRequest_fields {ci : MtkChunkinfo} {r : PutRequest}
    (h : chunksendRequest ci = some (.ok r)) :
    r.chunknum = ci.chunknum ∧ r.totalsize = ci.totalsize ∧
      mtkChunkdataCopy ci r.start r.dlen = .ok r.data := by
  unfold chunksendRequest at h
  by_cases hdlen : ci.dlen < 0
  · rw [if_pos hdlen] at h
    exact nomatch h
  · rw [if_neg hdlen] at h
    cases hcopy : mtkChunkdataCopy ci ci.start.toNat ci.dlen.toNat with
    | error e =>
        rw [hcopy] at h
        exact nomatch h
    | ok data =>
        rw [hcopy] at h
        obtain rfl := Except.ok.inj (Option.some.inj h)
        exact ⟨rfl, rfl, hcopy⟩

/-- A plan that is copied from is one that is taken for what it is. -/
theorem typed_of_copy {u : Upload} {p : UInt16 × UInt16} {i start size : Nat}
    {data : List UInt8} (h : mtkChunkdataCopy ((u.plan p).atIndex i) start size = .ok data) :
    u.Typed := by
  cases u with
  | file content nonempty => exact trivial
  | buff content nonempty fits type =>
      by_cases htype : type = chunktypeBuff
      · exact htype
      · have hcopy : mtkChunkdataCopy
            (((Upload.buff content nonempty fits type).plan p).atIndex i) start size =
            if type = chunktypeFile then .error .etFileOpen
            else if type = chunktypeBuff then .ok ((content.drop start).take size)
            else .error .etFail := rfl
        rw [hcopy, if_neg htype] at h
        by_cases hfile : type = chunktypeFile
        · rw [if_pos hfile] at h
          exact nomatch h
        · rw [if_neg hfile] at h
          exact nomatch h

theorem copy_of_typed {u : Upload} (h : u.Typed) (p : UInt16 × UInt16) (i start size : Nat) :
    mtkChunkdataCopy ((u.plan p).atIndex i) start size =
      .ok ((u.content.drop start).take size) := by
  cases u with
  | file content nonempty =>
      simp only [mtkChunkdataCopy, MtkChunkinfo.atIndex, plan, if_true]
      rfl
  | buff content nonempty fits type =>
      have htype : type = chunktypeBuff := h
      simp only [mtkChunkdataCopy, MtkChunkinfo.atIndex, plan, htype]
      rw [if_neg (by decide)]
      rfl

/-! ### A plan that fits -/

/-- A plan of `n` chunks of at most `m` bytes, in fields that are wide enough. -/
structure Sized (u : Upload) (n m : Nat) : Prop where
  pos : 0 < n
  chunknum : n ≤ 65535
  chunksize : m ≤ 65535
  last : (n - 1) * m ≤ u.content.length
  rest : u.content.length - (n - 1) * m ≤ m
  size : u.content.length < 2 ^ 31

variable {u : Upload} {n m : Nat}

theorem Sized.start (h : Sized u n m) {i : Nat} (hi : i < n) :
    ((u.plan (UInt16.ofNat n, UInt16.ofNat m)).atIndex i).start.toNat = i * m := by
  have hn := h.chunknum
  have hm := h.chunksize
  have hle : i * m ≤ (n - 1) * m := Nat.mul_le_mul_right m (by omega)
  have hlast := h.last
  have hsize := h.size
  have hindex : (UInt16.ofNat i).toNat = i := toNat_ofNat16 (by omega)
  have hchunk : (UInt16.ofNat m).toNat = m := toNat_ofNat16 (by omega)
  show (if UInt16.ofNat i = 0 then 0 else
    (UInt16.ofNat i).toUInt32 * (UInt16.ofNat m).toUInt32).toNat = i * m
  split
  · rename_i hzero
    rw [hzero] at hindex
    rw [← hindex]
    exact (Nat.zero_mul m).symm
  · rw [UInt32.toNat_mul, UInt16.toNat_toUInt32, UInt16.toNat_toUInt32, hindex, hchunk]
    exact Nat.mod_eq_of_lt (by omega)

theorem Sized.dlen (h : Sized u n m) {i : Nat} (hi : i < n) :
    ((u.plan (UInt16.ofNat n, UInt16.ofNat m)).atIndex i).dlen =
      (chunkRange u.content.length m n i).2 := by
  have hn := h.chunknum
  have hm := h.chunksize
  have hle : i * m ≤ (n - 1) * m := Nat.mul_le_mul_right m (by omega)
  have hlast := h.last
  have hlt := h.size
  have hindex : (UInt16.ofNat i).toNat = i := toNat_ofNat16 (by omega)
  have hnum : (UInt16.ofNat n).toNat = n := toNat_ofNat16 (by omega)
  have hchunk : (UInt16.ofNat m).toNat = m := toNat_ofNat16 (by omega)
  have hsize : u.size.toNat = u.content.length := by rw [size_of_lt hlt, Int.toNat_natCast]
  have htotal : (UInt32.ofNat u.content.length).toNat = u.content.length :=
    toNat_ofNat32 hlt
  have hstart := h.start hi
  show (if ((UInt16.ofNat i).toNat : Int) = (UInt16.ofNat n).toNat - 1 then
    toInt32 (UInt32.ofNat u.size.toNat - MtkChunkinfo.start _).toNat
    else (UInt16.ofNat m).toNat) = ((if i + 1 = n then u.content.length - i * m else m : Nat) : Int)
  rw [hindex, hnum, hchunk, hsize]
  by_cases hend : i + 1 = n
  · have hsub : (UInt32.ofNat u.content.length -
        ((u.plan (UInt16.ofNat n, UInt16.ofNat m)).atIndex i).start).toNat =
          u.content.length - i * m := by
      rw [UInt32.toNat_sub_of_le, htotal, hstart]
      rw [UInt32.le_iff_toNat_le, htotal, hstart]
      omega
    rw [if_pos hend, if_pos (by omega), hsub]
    exact toInt32_of_lt (by omega)
  · rw [if_neg hend, if_neg (by omega)]

/-- The request for the chunk `i`. -/
def request (u : Upload) (n m i : Nat) : PutRequest :=
  { chunknum := UInt16.ofNat n
    index := UInt16.ofNat i
    totalsize := UInt32.ofNat u.size.toNat
    crc := crc16 (u.content.take u.size.toNat)
    hash := 6
    start := (chunkRange u.content.length m n i).1
    dlen := (chunkRange u.content.length m n i).2
    data := (u.content.drop (chunkRange u.content.length m n i).1).take
      (chunkRange u.content.length m n i).2 }

theorem Sized.built (h : Sized u n m) (htyped : u.Typed) {i : Nat} (hi : i < n) :
    chunksendRequest ((u.plan (UInt16.ofNat n, UInt16.ofNat m)).atIndex i) =
      some (.ok (u.request n m i)) := by
  rw [chunksendRequest, h.dlen hi, h.start hi, if_neg (by omega), copy_of_typed htyped,
    Int.toNat_natCast]
  rfl

theorem length_payload (r : PutRequest) (token : List UInt8) (h : token.length = 8) :
    (r.payload token).length = reqHeaderLength + putHeaderLength + r.data.length := by
  simp only [PutRequest.payload, pkgRequestHeader, pushHtons, pushHtonl, List.length_append,
    List.length_cons, List.length_nil, h, reqHeaderLength, putHeaderLength]
  omega

theorem chunkRange_le {l : Nat} (hrest : l - (n - 1) * m ≤ m) (i : Nat) :
    (chunkRange l m n i).2 ≤ m := by
  unfold chunkRange
  dsimp only
  split
  · rename_i hend
    rw [show n - 1 = i by omega] at hrest
    exact hrest
  · exact Nat.le_refl m

/-- A plan that fits carries the content. -/
theorem Sized.planned (h : Sized u n m) (htyped : u.Typed) {chunksize : Int}
    (hn : u.chunks chunksize = n) :
    Planned u chunksize (u.plan (UInt16.ofNat n, UInt16.ofNat m))
      ((List.range n).map (u.request n m)) := by
  have hlt := h.size
  have hnum : (UInt16.ofNat n).toNat = n := toNat_ofNat16 h.chunknum
  have hchunk : (UInt16.ofNat m).toNat = m := toNat_ofNat16 h.chunksize
  have hsize : u.size.toNat = u.content.length := by rw [size_of_lt hlt, Int.toNat_natCast]
  have hof : ∀ r ∈ (List.range n).map (u.request n m), ∃ i < n, r = u.request n m i := by
    intro r hr
    obtain ⟨i, hi, hri⟩ := List.mem_map.mp hr
    exact ⟨i, List.mem_range.mp hi, hri.symm⟩
  have hfits : ∀ r ∈ (List.range n).map (u.request n m), r.dlen ≤ m := by
    intro r hr
    obtain ⟨i, hi, rfl⟩ := hof r hr
    exact chunkRange_le h.rest i
  refine ⟨?_, ?_, ?_, ?_, ?_, ?_, ?_, ?_⟩
  · show (List.range (UInt16.ofNat n).toNat).map _ = _
    rw [hnum, List.map_map]
    exact List.map_congr_left fun i hi => h.built htyped (List.mem_range.mp hi)
  · have htiles := tiles_chunkRange h.last (n - 1) 0 (by have := h.pos; omega)
    rw [Nat.zero_mul, show n - 1 + 1 = n by have := h.pos; omega, ← List.range_eq_range'] at htiles
    rw [List.map_map]
    exact htiles
  · intro r hr
    show r.dlen ≤ (UInt16.ofNat m).toNat
    rw [hchunk]
    exact hfits r hr
  · intro r hr token htoken
    have hdlen := hfits r hr
    obtain ⟨i, hi, rfl⟩ := hof r hr
    have hdata : (u.request n m i).data.length ≤ (u.request n m i).dlen :=
      List.length_take_le ..
    show _ ≤ _ + (UInt16.ofNat m).toNat
    rw [length_payload _ _ htoken, hchunk]
    omega
  · intro r hr
    obtain ⟨i, hi, rfl⟩ := hof r hr
    rfl
  · intro r hr
    obtain ⟨i, hi, rfl⟩ := hof r hr
    exact hnum.trans hn.symm
  · intro r hr
    obtain ⟨i, hi, rfl⟩ := hof r hr
    show (UInt32.ofNat u.size.toNat).toNat = _
    rw [hsize]
    exact toNat_ofNat32 hlt
  · intro r hr
    obtain ⟨i, hi, rfl⟩ := hof r hr
    show crc16 (u.content.take u.size.toNat) = _
    rw [hsize, List.take_length]

/-- Chunks of `s` bytes, as many as it takes, in fields that are wide enough. -/
theorem sized_of_le {s : Nat} (hs : 0 < s) (hlt : u.content.length < 2 ^ 31)
    (hm : min u.content.length s ≤ 65535) (hn : (u.content.length + s - 1) / s ≤ 65535) :
    Sized u ((u.content.length + s - 1) / s) (min u.content.length s) := by
  have hpos := u.length_pos
  have hdiv := Nat.div_add_mod (u.content.length + s - 1) s
  have hmod := Nat.mod_lt (u.content.length + s - 1) hs
  have hn0 : 0 < (u.content.length + s - 1) / s := Nat.div_pos (by omega) hs
  generalize (u.content.length + s - 1) / s = n at *
  obtain ⟨k, rfl⟩ : ∃ k, n = k + 1 := ⟨n - 1, by omega⟩
  rw [Nat.mul_add, Nat.mul_one, Nat.mul_comm] at hdiv
  rcases Nat.lt_or_ge u.content.length s with hless | hmore
  · have hk : k = 0 := by
      rcases Nat.eq_zero_or_pos k with hk | hk
      · exact hk
      · have := Nat.le_mul_of_pos_left s hk
        omega
    subst hk
    rw [Nat.min_eq_left (Nat.le_of_lt hless)] at hm ⊢
    exact ⟨hn0, hn, hm, by simp, by simp, hlt⟩
  · rw [Nat.min_eq_right hmore] at hm ⊢
    exact ⟨hn0, hn, hm, by rw [Nat.add_sub_cancel]; omega, by rw [Nat.add_sub_cancel]; omega, hlt⟩

/-! ### A plan that does not -/

/-- If chunks of `s` bytes, cut to 16 bits, still hold a content, nothing was cut. -/
theorem min_le_of_fits {l s : Nat} (hs : 0 < s) (hl : 0 < l)
    (hfits : l ≤ (l + s - 1) / s * (min l s % 65536)) : min l s ≤ 65535 := by
  have hdiv := Nat.div_add_mod (l + s - 1) s
  have hmod := Nat.mod_lt (l + s - 1) hs
  have hn : 0 < (l + s - 1) / s := Nat.div_pos (by omega) hs
  generalize (l + s - 1) / s = n at *
  obtain ⟨k, rfl⟩ : ∃ k, n = k + 1 := ⟨n - 1, by omega⟩
  by_contra hbig
  have hcut : min l s % 65536 + 65536 ≤ min l s := by
    have := Nat.div_add_mod (min l s) 65536
    omega
  have hlt := Nat.mod_lt (min l s) (by decide : 0 < 65536)
  generalize min l s % 65536 = c at *
  rw [Nat.mul_add, Nat.mul_one] at hdiv
  rw [Nat.add_mul, Nat.one_mul] at hfits
  rcases Nat.eq_zero_or_pos k with rfl | hk
  · omega
  · -- all chunks but the last lose at least 65536 bytes, more than the last can make up
    have hloss : k * (c + 65536) ≤ k * s := Nat.mul_le_mul_left k (by omega)
    rw [Nat.mul_add] at hloss
    have hmul : s * k = k * s := Nat.mul_comm s k
    omega

theorem Planned.length_eq {p : UInt16 × UInt16} {chunksize : Int} {requests : List PutRequest}
    (h : Planned u chunksize (u.plan p) requests) : requests.length = p.1.toNat := by
  have hlength := congrArg List.length h.built
  rw [List.length_map, List.length_map, List.length_range] at hlength
  exact hlength.symm

/-- And there is one. -/
theorem Planned.exists_request {p : UInt16 × UInt16} {chunksize : Int}
    {requests : List PutRequest} (h : Planned u chunksize (u.plan p) requests) :
    ∃ r ∈ requests, ∃ i, chunksendRequest ((u.plan p).atIndex i) = some (.ok r) := by
  have hpos := u.length_pos
  have hnonempty : requests ≠ [] := by
    intro hnil
    have htiles := h.ranges
    rw [hnil, List.map_nil, Tiles] at htiles
    omega
  obtain ⟨r, hr⟩ := List.exists_mem_of_ne_nil requests hnonempty
  have hmem : some (Except.ok r) ∈ requests.map fun r => some (Except.ok (ε := ErrType) r) :=
    List.mem_map_of_mem hr
  rw [← h.built] at hmem
  obtain ⟨i, -, hbuilt⟩ := List.mem_map.mp hmem
  exact ⟨r, hr, i, hbuilt⟩

theorem Planned.sized {p : UInt16 × UInt16} {chunksize : Int} {requests : List PutRequest}
    (h : Planned u chunksize (u.plan p) requests) (hs : 0 < chunksize)
    (hp : p.2.toNat = min u.size.toNat chunksize.toNat % 65536)
    (hread : 0 < u.size) :
    u.content.length < 2 ^ 31 ∧ min (u.content.length : Int) chunksize ≤ 65535 ∧
      u.chunks chunksize ≤ 65535 ∧ u.Typed := by
  have hpos := u.length_pos
  obtain ⟨r, hr, i, hbuilt⟩ := h.exists_request
  obtain ⟨hnum, htotal, hcopy⟩ := chunksendRequest_fields hbuilt
  have hchunks : p.1.toNat = u.chunks chunksize := by
    rw [← h.chunknum r hr, hnum]
    rfl
  have hsize : u.size.toNat = u.content.length := by
    rw [← h.totalsize r hr, htotal]
    show u.size.toNat = (UInt32.ofNat u.size.toNat).toNat
    rw [toNat_ofNat32]
    have := u.size_lt
    omega
  have hlt := u.size_lt
  have hreach := Tiles.le_mul (m := p.2.toNat) _ h.ranges fun q hq => by
    obtain ⟨r', hr', rfl⟩ := List.mem_map.mp hq
    exact h.fits r' hr'
  rw [Nat.zero_add, List.length_map, h.length_eq, hchunks, hp, hsize] at hreach
  have hmin := min_le_of_fits (by omega) hpos hreach
  have hp1 := p.1.toNat_lt
  exact ⟨by omega, by omega, by omega, typed_of_copy hcopy⟩

/-! ### Uploads -/

variable {chunksize : Int}

theorem plans_of_error {e : ErrType} (hgen : u.generate chunksize = some (.error e)) :
    u.Plans chunksize ↔ chunksize ≤ 0 ∨ 65536 < u.chunks chunksize := by
  refine ⟨fun h => h.error e hgen, fun hallowed => ⟨?_, fun _ _ => hallowed, ?_⟩⟩
  · rw [hgen]
    exact nofun
  · intro ci hci
    rw [hgen] at hci
    exact nomatch hci

theorem plans_of_ok {ci : MtkChunkinfo} (hgen : u.generate chunksize = some (.ok ci)) :
    u.Plans chunksize ↔ ∃ requests, Planned u chunksize ci requests := by
  refine ⟨fun h => h.ok ci hgen, fun hplanned => ⟨?_, ?_, ?_⟩⟩
  · rw [hgen]
    exact nofun
  · intro e he
    rw [hgen] at he
    exact nomatch he
  · intro ci' hci
    rw [hgen] at hci
    obtain rfl := Except.ok.inj (Option.some.inj hci)
    exact hplanned

theorem plans_iff_unreadable (hread : ¬u.Readable) (hnonneg : 0 ≤ chunksize) :
    u.Plans chunksize ↔ u.Fits chunksize := by
  obtain ⟨e, hgen⟩ := generate_unreadable hread hnonneg
  rw [plans_of_error hgen]
  constructor
  · rintro (hle | hmany)
    · exact .inr (.inl ⟨hread, .inl (by omega)⟩)
    · exact .inr (.inl ⟨hread, .inr hmany⟩)
  · rintro (hneg | ⟨-, hzero | hmany⟩ | ⟨h, -⟩)
    · exact .inl (by omega)
    · exact .inl (by omega)
    · exact .inr hmany
    · exact absurd h hread

theorem plans_iff_zero (hread : u.Readable) : u.Plans 0 ↔ u.Fits 0 := by
  have hsize := hread.1
  have hgen := generate_readable hread (Int.le_refl 0)
  rw [Int.toNat_zero, chunkPlan_zero (by omega), Option.map_none] at hgen
  refine ⟨fun h => absurd hgen h.returns, ?_⟩
  rintro (hneg | ⟨h, -⟩ | ⟨-, hpos, -⟩)
  · omega
  · exact absurd hread h
  · omega

theorem plans_iff_readable (hread : u.Readable) (hpos : 0 < chunksize) :
    u.Plans chunksize ↔ u.Fits chunksize := by
  have hsize := hread.1
  have hlt := u.size_lt
  have hgen := generate_readable hread (Int.le_of_lt hpos)
  rw [chunkPlan_pos (by omega) (by omega), Option.map_some] at hgen
  rw [plans_of_ok hgen]
  constructor
  · rintro ⟨requests, hplanned⟩
    obtain ⟨hfits, hmin, hchunks, htyped⟩ :=
      hplanned.sized hpos (by rw [UInt16.toNat_ofNat']) hsize
    exact .inr (.inr ⟨hread, hpos, hfits, hmin, hchunks, htyped⟩)
  · intro h
    obtain ⟨-, -, hfits, hmin, hchunks, htyped⟩ :=
      (h.resolve_left (by omega)).resolve_left fun hn => hn.1 hread
    have hlen : u.size.toNat = u.content.length := by
      rw [size_of_lt hfits, Int.toNat_natCast]
    have hsized := sized_of_le (by omega) hfits (by omega) hchunks
    rw [hlen]
    exact ⟨_, hsized.planned htyped rfl⟩

/-- **The plan of an upload**: the generator returns one whose requests carry the
content, or refuses to where it should, for exactly the uploads that fit. -/
theorem plans_iff (u : Upload) (chunksize : Int) : u.Plans chunksize ↔ u.Fits chunksize := by
  rcases Int.lt_trichotomy chunksize 0 with hneg | rfl | hpos
  · rw [plans_of_error (u.generate_neg hneg)]
    exact iff_of_true (.inl (Int.le_of_lt hneg)) (.inl hneg)
  · by_cases hread : u.Readable
    · exact plans_iff_zero hread
    · exact plans_iff_unreadable hread (Int.le_refl 0)
  · by_cases hread : u.Readable
    · exact plans_iff_readable hread hpos
    · exact plans_iff_unreadable hread (Int.le_of_lt hpos)

/-- A file whose checksum is 0 is refused, although one chunk would do. -/
theorem upload_refused_crc_zero : ¬(Upload.file [0xff, 0xff] (by decide)).Plans 1024 := by
  intro h
  have hsize : mtkGetfilesize [0xff, 0xff] = 2 := toInt32_of_lt (by decide)
  have hread : ¬(Upload.file [0xff, 0xff] (by decide)).Readable := by
    intro hread
    refine hread.2 ?_
    show crc16 (List.take (mtkGetfilesize [0xff, 0xff]).toNat [0xff, 0xff]) = 0
    rw [hsize]
    decide +kernel
  obtain ⟨e, hgen⟩ := generate_unreadable hread (by decide : (0 : Int) ≤ 1024)
  exact absurd (h.error e hgen) (by decide)

end Upload

end Awoke.Mtk
