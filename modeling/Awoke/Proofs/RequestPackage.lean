/-
When a request is packaged right.

The text has to fit into the buffer as it was when the builder was made, with a NUL behind it:
nothing fails when it does not.  A larger buffer does not help, since the builder still has the
room of the smaller one, and points to where that was.  And the value of the `Content-Length` that
is set for a body is gone when it is printed, so that a request with a body is packaged only if
its `Content-Length` is among the extended headers.

And the log has to be quiet: the first slot is never set, so that the message about it reads a null
pointer, and what the dump prints has to fit the lines of the log.
-/
import Awoke.Http.RequestPackage
import Awoke.Proofs.BuildPtr
import Awoke.Proofs.LogLine

namespace Awoke.Http

open BuildPtr (StartsIn builds_iff builds_gone)
open LogLine (AwokeLogLevel Logs Place print_hidden print_iff)

namespace Request

/-! ### What it should be -/

/-- The value that the extended headers have for a type: that of the last slot of the type. -/
def extendValue (req : Request) (t : HeaderType) : Option CStr :=
  req.extendHeaders.bind fun extend =>
    (headerTypes.reverse.find? fun i => (extend i).1 = t).map fun i => (extend i).2

/-- The length of the body, as it is printed. -/
def lengthText (req : Request) : List UInt8 :=
  (Nat.toDigits 10 req.body.len).map fun c => c.toNat.toUInt8

/-- The value of a header, if it is set: an extended one before the ones that are always set, and
these before what was set already. -/
def value (req : Request) (t : HeaderType) : Option (List UInt8) :=
  match req.extendValue t with
  | some val => some val.bytes
  | none =>
      if t = .contentLength ∧ req.body.len ≠ 0 then some req.lengthText
      else if t = .host then some req.host.bytes
      else (req.headers t).key.bind fun _ => (req.headers t).val.map CStr.bytes

/-- The line of a header. -/
def headerLine (key value : List UInt8) : List UInt8 := key ++ ascii ": " ++ value ++ crlf

/-- The text of a request. -/
def text (req : Request) : List UInt8 :=
  req.method.bytes ++ ascii " " ++ req.path.bytes ++ ascii " " ++ req.protocol.bytes ++ crlf ++
    headerTypes.flatMap (fun t => ((findKey t).bind fun key =>
      (req.value t).map (headerLine key)).getD []) ++ crlf ++ req.body.bytes

/-- It is what is in the buffer, and its length is known. -/
structure Packaged (text : List UInt8) (req : Request) : Prop where
  length : req.buffchunk.length = text.length
  bytes : Cells.slice req.buffchunk.mem.cells 0 text.length = text

/-- What a dump of it prints, and where. -/
def dumpMessages (req : Request) : List (Place × List UInt8) :=
  [(inRequestDump 503, ascii ">>> HTTP Request dump:"), (inRequestDump 504, dumpRule),
    (inRequestDump 505, ascii "uri : " ++ req.uri.bytes),
    (inRequestDump 506, ascii "method : " ++ req.method.bytes),
    (inRequestDump 507, ascii "protocol : " ++ req.protocol.bytes)] ++
  headerTypes.filterMap (fun t => (findKey t).bind fun key =>
    (req.value t).map fun val => (inHeaderDump 493, key ++ ascii " " ++ val)) ++
  [(inRequestDump 510, dumpRule)]

/-- The log hides the messages of `log_trace`, and those of `log_info` as well unless each of them
fits a line. -/
structure Loggable (req : Request) (logs : Logs) : Prop where
  trace : logs.ctx.levelVisible .logTrace = false
  info : logs.ctx.levelVisible .logInfo = true →
    ∀ m ∈ req.dumpMessages, logs.fits .logInfo m.1 m.2 = true

/-- A request before it is packaged: headers are set by `header_set` or not at all, the builder is
as it was made from the first buffer, and the buffer was made larger for the body or not. -/
structure Ready (req : Request) : Prop where
  headers : ∀ t, (req.headers t).key = none ∨
    (req.headers t).key = findKey t ∧ ∃ val, (req.headers t).val = some val
  bp : req.bp = buildPtrMake (ReqChunk.init req.bp.block).mem bufferChunk 0
  buffchunk : ∃ place, req.buffchunk = ReqChunk.init req.bp.block ∨
    req.buffchunk =
      ((ReqChunk.init req.bp.block).resize (BitVec.ofNat 32 req.body.len).toInt place).2

/-! ### Headers -/

theorem requestSetHeader_apply (headers : ReqHeaders) {type : HeaderType} (h : type ≠ .unknown)
    (val : Option CStr) (t : HeaderType) :
    requestSetHeader headers type val t =
      if t = type then { type := type, key := findKey type, val := val } else headers t := by
  cases type with
  | unknown => exact absurd rfl h
  | _ => rfl

/-- What the extended headers leave in a slot. -/
theorem extend_apply (extend : HeaderType → HeaderType × CStr) {t : HeaderType}
    (ht : t ≠ .unknown) (types : List HeaderType) (headers : ReqHeaders) :
    types.foldr (fun i headers =>
        if (extend i).1 ≠ .unknown then requestSetHeader headers (extend i).1 (some (extend i).2)
        else headers) headers t =
      ((types.find? fun i => (extend i).1 = t).map fun i =>
        { type := t, key := findKey t, val := some (extend i).2 : ReqHeader}).getD
        (headers t) := by
  induction types with
  | nil => rfl
  | cons i types ih =>
      rw [List.foldr_cons, List.find?_cons]
      by_cases hi : (extend i).1 = t
      · rw [if_pos (hi ▸ ht), requestSetHeader_apply _ (hi ▸ ht), if_pos hi.symm]
        simp only [hi, decide_true, Option.map_some, Option.getD_some]
      · simp only [hi, decide_false]
        rw [← ih]
        split
        case isTrue hne =>
          rw [requestSetHeader_apply _ hne, if_neg (fun heq => hi heq.symm)]
        case isFalse => rfl

/-- What a slot holds before the extended headers are set. -/
def baseSlot (req : Request) (t : HeaderType) : ReqHeader :=
  if t = .contentLength ∧ req.body.len ≠ 0 then { type := t, key := findKey t, val := none }
  else if t = .host then { type := t, key := findKey t, val := some req.host }
  else req.headers t

theorem baseSlot_eq (req : Request) (t : HeaderType) :
    (if req.body.len ≠ 0 then
      requestSetHeader (requestSetHeader req.headers .host (some req.host)) .contentLength none
      else requestSetHeader req.headers .host (some req.host)) t = req.baseSlot t := by
  have hhost : requestSetHeader req.headers .host (some req.host) t =
      if t = .host then { type := t, key := findKey t, val := some req.host }
      else req.headers t := by
    rw [requestSetHeader_apply _ (by decide)]
    split
    case isTrue ht => rw [ht]
    case isFalse => rfl
  rw [baseSlot]
  by_cases hbody : req.body.len ≠ 0
  · rw [if_pos hbody, requestSetHeader_apply _ (by decide), hhost]
    by_cases ht : t = .contentLength
    · rw [if_pos ht, if_pos ⟨ht, hbody⟩, ht]
    · have hnot : ¬(t = .contentLength ∧ req.body.len ≠ 0) := fun h => ht h.1
      rw [if_neg ht, if_neg hnot]
  · have hnot : ¬(t = .contentLength ∧ req.body.len ≠ 0) := fun h => hbody h.2
    rw [if_neg hbody, if_neg hnot, hhost]

/-- What `http_request_package` leaves in a slot. -/
theorem setHeaders_apply (req : Request) {t : HeaderType} (ht : t ≠ .unknown) :
    req.setHeaders t = ((req.extendValue t).map fun val =>
      { type := t, key := findKey t, val := some val : ReqHeader }).getD (req.baseSlot t) := by
  rw [setHeaders, extendValue, ← baseSlot_eq]
  cases req.extendHeaders with
  | none => rfl
  | some extend =>
      simp only [Option.bind_some, requestSetExtendHeader]
      rw [List.foldl_eq_foldr_reverse, extend_apply extend ht, Option.map_map]
      rfl

/-- No header of no type is ever set. -/
theorem setHeaders_unknown (req : Request) : req.setHeaders .unknown = req.headers .unknown := by
  have hset : ∀ (headers : ReqHeaders) (type : HeaderType) (val : Option CStr),
      requestSetHeader headers type val .unknown = headers .unknown := by
    intro headers type val
    cases type with
    | _ => rfl
  have hextend : ∀ (extend : HeaderType → HeaderType × CStr) (types : List HeaderType)
      (headers : ReqHeaders), types.foldl (fun headers i =>
        if (extend i).1 ≠ .unknown then requestSetHeader headers (extend i).1 (some (extend i).2)
        else headers) headers .unknown = headers .unknown := by
    intro extend types
    induction types with
    | nil => exact fun _ => rfl
    | cons i types ih =>
        intro headers
        rw [List.foldl_cons, ih]
        split
        · exact hset _ _ _
        · rfl
  rw [setHeaders]
  cases req.extendHeaders with
  | none =>
      simp only
      split
      · rw [hset, hset]
      · rw [hset]
  | some extend =>
      simp only [requestSetExtendHeader]
      rw [hextend]
      split
      · rw [hset, hset]
      · rw [hset]

theorem findKey_isSome {t : HeaderType} (ht : t ≠ .unknown) : ∃ key, findKey t = some key := by
  cases t with
  | unknown => exact absurd rfl ht
  | _ => exact ⟨_, rfl⟩

/-- There is no body, or the extended headers say how long it is. -/
def LengthGiven (req : Request) : Prop :=
  req.body.len = 0 ∨ ∃ val, req.extendValue .contentLength = some val

/-- The line of a header in the text, if it is set. -/
def line (req : Request) (t : HeaderType) : Option (List UInt8) :=
  (findKey t).bind fun key => (req.value t).map (headerLine key)

/-- Every header that is set has a value that can be printed, and that is the one it should
have. -/
theorem slot_cases {req : Request} (hready : Ready req) (hgiven : LengthGiven req)
    (t : HeaderType) :
    ((req.setHeaders t).key = none ∧ (findKey t = none ∨ req.value t = none)) ∨
      ∃ key val, findKey t = some key ∧ (req.setHeaders t).key = some key ∧
        (req.setHeaders t).val = some val ∧ req.value t = some val.bytes := by
  by_cases ht : t = .unknown
  · subst ht
    rw [setHeaders_unknown]
    exact .inl ⟨(hready.headers .unknown).elim id And.left, .inl rfl⟩
  obtain ⟨key, hkey⟩ := findKey_isSome ht
  rw [setHeaders_apply req ht, value, hkey]
  cases hextend : req.extendValue t with
  | some val => exact .inr ⟨key, val, rfl, rfl, rfl, rfl⟩
  | none =>
      have hlength : ¬(t = .contentLength ∧ req.body.len ≠ 0) := by
        rintro ⟨rfl, hbody⟩
        obtain ⟨val, hval⟩ := hgiven.resolve_left hbody
        exact Option.some_ne_none val (hval.symm.trans hextend)
      simp only [Option.map_none, Option.getD_none, baseSlot, if_neg hlength]
      by_cases hhost : t = .host
      · simp only [if_pos hhost]
        exact .inr ⟨key, req.host, rfl, hkey, rfl, rfl⟩
      · simp only [if_neg hhost]
        rcases hready.headers t with hnone | ⟨hsome, val, hval⟩
        · refine .inl ⟨hnone, .inr ?_⟩
          rw [hnone]
          rfl
        · refine .inr ⟨key, val, rfl, hsome.trans hkey, hval, ?_⟩
          rw [hsome, hkey, hval]
          rfl

theorem line_none {req : Request} {t : HeaderType} (h : findKey t = none ∨ req.value t = none) :
    req.line t = none := by
  rw [line]
  rcases h with h | h
  · rw [h]
    rfl
  · rw [h]
    cases findKey t <;> rfl

theorem line_some {req : Request} {t : HeaderType} {key val : List UInt8}
    (hkey : findKey t = some key) (hval : req.value t = some val) :
    req.line t = some (headerLine key val) := by
  rw [line, hkey, hval]
  rfl

/-! ### Building -/

/-- The request when its builder has gone on. -/
def withBuilder (req : Request) (s : BuildPtr × MemBlock) : Request :=
  { req with bp := s.1, buffchunk := { req.buffchunk with mem := s.2 } }

theorem foldlM_build (texts : List (List UInt8)) : ∀ req : Request,
    texts.foldlM build req =
      (BuildPtr.builds (req.bp, req.buffchunk.mem) texts).map req.withBuilder := by
  induction texts with
  | nil => exact fun req => rfl
  | cons text texts ih =>
      intro req
      rw [List.foldlM_cons, BuildPtr.builds_cons, build]
      cases BuildPtr.build (req.bp, req.buffchunk.mem) text with
      | none => rfl
      | some s => exact ih _

/-- The header lines, when every header that is set has a value. -/
theorem foldlM_headers {req : Request} (hready : Ready req) (hgiven : LengthGiven req)
    (types : List HeaderType) : ∀ r : Request,
    types.foldlM (fun r t =>
      if (req.setHeaders t).key.isSome then r.buildHeader (req.setHeaders t) else some r) r =
      (types.filterMap req.line).foldlM build r := by
  induction types with
  | nil => exact fun r => rfl
  | cons t types ih =>
      intro r
      rw [List.foldlM_cons]
      rcases slot_cases hready hgiven t with ⟨hkey, hnone⟩ | ⟨key, val, hfind, hkey, hval, hvalue⟩
      · rw [List.filterMap_cons_none (line_none hnone), hkey]
        exact ih r
      · rw [List.filterMap_cons_some (line_some hfind hvalue), List.foldlM_cons, hkey]
        have hbuild : r.buildHeader (req.setHeaders t) = r.build (headerLine key val.bytes) := by
          rw [buildHeader, hval, hkey]
          rfl
        rw [if_pos (show (some key).isSome = true from rfl), hbuild]
        exact bind_congr ih

/-- The texts that are built. -/
def pieces (req : Request) : List (List UInt8) :=
  (req.method.bytes ++ ascii " " ++ req.path.bytes ++ ascii " " ++ req.protocol.bytes ++ crlf) ::
    headerTypes.filterMap req.line ++ [crlf] ++
    if req.body.len ≠ 0 then [req.body.bytes] else []

theorem flatten_filterMap_line (req : Request) (types : List HeaderType) :
    (types.filterMap req.line).flatten = types.flatMap fun t => (req.line t).getD [] := by
  induction types with
  | nil => rfl
  | cons t types ih =>
      rw [List.flatMap_cons, ← ih]
      cases hline : req.line t with
      | none => rw [List.filterMap_cons_none hline]; rfl
      | some line => rw [List.filterMap_cons_some hline]; rfl

theorem flatten_pieces (req : Request) : req.pieces.flatten = req.text := by
  have hbody : (if req.body.len ≠ 0 then [req.body.bytes] else []).flatten = req.body.bytes := by
    split
    case isTrue => exact List.append_nil _
    case isFalse hnot => exact (List.eq_nil_of_length_eq_zero (not_not.mp hnot)).symm
  rw [pieces, text, List.flatten_append, List.flatten_append, List.flatten_cons, hbody,
    flatten_filterMap_line, List.flatten_singleton]
  rfl

/-- The request with its headers set. -/
def withHeaders (req : Request) : Request := { req with headers := req.setHeaders }

/-- The request with the length of its text. -/
def withLength (req : Request) : Request :=
  { req with buffchunk := { req.buffchunk with length := (req.bp.len.setWidth 32).toInt } }

theorem foldlM_build_fields {texts : List (List UInt8)} {r r' : Request}
    (h : texts.foldlM build r = some r') : r'.headers = r.headers ∧ r'.body = r.body := by
  rw [foldlM_build] at h
  obtain ⟨s, -, rfl⟩ := Option.map_eq_some_iff.mp h
  exact ⟨rfl, rfl⟩

/-- A request is built, and nothing is printed. -/
def silent (req : Request) : Option Request :=
  req.withHeaders.buildStartline.bind fun a =>
    (headerTypes.foldlM (fun r t =>
      if (a.headers t).key.isSome then r.buildHeader (a.headers t) else some r) a).bind fun b =>
        (b.build crlf).bind fun c =>
          (if c.body.len ≠ 0 then c.buildBody else some c).map withLength

/-- **Packaging is building the texts one after the other.** -/
theorem silent_eq {req : Request} (hready : Ready req) (hgiven : LengthGiven req) :
    req.silent = (req.pieces.foldlM build req.withHeaders).map withLength := by
  rw [silent, pieces, List.foldlM_append, List.foldlM_append, List.foldlM_cons]
  simp only [Option.bind_eq_bind, Option.bind_assoc, Option.map_eq_bind]
  refine Option.bind_congr fun a ha => ?_
  have hone : [_].foldlM build req.withHeaders = some a := (bind_pure _).trans ha
  obtain ⟨hheaders, hbody⟩ := foldlM_build_fields hone
  rw [show a.headers = req.setHeaders from hheaders, foldlM_headers hready hgiven headerTypes a]
  refine Option.bind_congr fun b hb => ?_
  have hcrlf : [crlf].foldlM build b = b.build crlf := bind_pure _
  rw [hcrlf]
  refine Option.bind_congr fun c hc => ?_
  have hbody' : c.body = req.body := by
    rw [(foldlM_build_fields (hcrlf.trans hc)).2, (foldlM_build_fields hb).2, hbody]
    rfl
  rw [hbody']
  split
  case isTrue =>
    have hlast : [req.body.bytes].foldlM build c = c.build req.body.bytes := bind_pure _
    rw [buildBody, hbody', hlast]
  case isFalse => rfl

theorem foldlM_eq_none {σ α : Type} {f : σ → α → Option σ} {a : α} (hf : ∀ s, f s a = none) :
    ∀ {l : List α} (_ : a ∈ l) (s : σ), l.foldlM f s = none := by
  intro l
  induction l with
  | nil => exact fun hmem => absurd hmem List.not_mem_nil
  | cons b l ih =>
      intro hmem s
      rw [List.foldlM_cons]
      rcases List.mem_cons.mp hmem with rfl | hmem
      · rw [hf]
        rfl
      · cases f s b with
        | none => rfl
        | some s' => exact ih hmem s'

/-- The length of a body is printed from memory that is gone. -/
theorem silent_none {req : Request} (h : ¬LengthGiven req) : req.silent = none := by
  obtain ⟨hbody, hextend⟩ := not_or.mp h
  have hnone : req.extendValue .contentLength = none :=
    Option.eq_none_iff_forall_ne_some.mpr fun val hval => hextend ⟨val, hval⟩
  have hslot : req.setHeaders .contentLength =
      { type := .contentLength, key := findKey .contentLength, val := none } := by
    rw [setHeaders_apply req (by decide), hnone, Option.map_none, Option.getD_none, baseSlot,
      if_pos ⟨rfl, hbody⟩]
  rw [silent]
  refine Option.bind_eq_none_iff.mpr fun a ha => ?_
  have hone : [_].foldlM build req.withHeaders = some a := (bind_pure _).trans ha
  rw [show a.headers = req.setHeaders from (foldlM_build_fields hone).1]
  rw [foldlM_eq_none (a := .contentLength) (fun r => ?_) (by decide) a]
  · rfl
  · rw [hslot]
    rfl

/-! ### What is printed -/

variable {logs : Logs}

theorem bind_unit_iff {a b : Option Unit} :
    (a.bind fun _ => b) = some () ↔ a = some () ∧ b = some () := by
  cases a with
  | none => exact iff_of_false (Option.some_ne_none ()).symm fun h => nomatch h.1
  | some _ => exact (and_iff_right rfl).symm

theorem forM_unit_iff {α : Type} {f : α → Option Unit} {l : List α} :
    l.forM f = some () ↔ ∀ a ∈ l, f a = some () := by
  induction l with
  | nil => exact iff_of_true rfl fun a ha => absurd ha List.not_mem_nil
  | cons a l ih =>
      rw [List.forall_mem_cons, ← ih]
      exact bind_unit_iff

/-- With the messages of `log_trace` hidden, a request is built and dumped. -/
theorem package_hidden (h : logs.ctx.levelVisible .logTrace = false) (req : Request) :
    req.package logs = req.silent.bind fun r => (r.dump logs).map fun _ => (.etOk, r) := by
  have hturn : ∀ (r : Request) (slot : ReqHeader), headerTurn logs r slot =
      if slot.key.isSome then r.buildHeader slot else some r := by
    intro r slot
    rw [headerTurn, print_hidden h]
    rfl
  unfold package silent buildHeaders
  simp only [print_hidden h, hturn, Option.bind_eq_bind, Option.bind_some, Option.map_some,
    Option.bind_assoc]
  refine Option.bind_congr fun a _ => Option.bind_congr fun b _ => Option.bind_congr fun c _ => ?_
  split
  case isTrue =>
    rw [Option.bind_assoc, Option.map_eq_bind, Option.bind_assoc]
    exact Option.bind_congr fun d _ => Option.map_eq_bind.symm
  case isFalse => exact Option.map_eq_bind.symm

/-- Shown, the message about the first slot reads a null pointer. -/
theorem package_shown (h : logs.ctx.levelVisible .logTrace = true) {req : Request}
    (hready : Ready req) : req.package logs = none := by
  have hslot : (req.setHeaders .unknown).key = none := by
    rw [setHeaders_unknown]
    exact (hready.headers .unknown).elim id And.left
  have hbuild : ∀ a : Request, a.headers = req.setHeaders → a.buildHeaders logs = none := by
    intro a ha
    have hfirst : ∀ r : Request, headerTurn logs r (a.headers .unknown) = none := by
      intro r
      rw [headerTurn, ha, hslot, Logs.print, if_pos h]
      rfl
    have hturns := foldlM_eq_none (f := fun r t => headerTurn logs r (a.headers t)) hfirst
      (show .unknown ∈ headerTypes by decide) a
    unfold buildHeaders
    rw [hturns]
    cases logs.print .logTrace (inBuildHeaders 464) (some (ascii "request_build_headers")) with
    | none => rfl
    | some _ => rfl
  unfold package
  refine Option.bind_eq_none_iff.mpr fun a ha => ?_
  have hone : [_].foldlM build req.withHeaders = some a := (bind_pure _).trans ha
  rw [hbuild a (foldlM_build_fields hone).1]
  rfl

/-- What the header dump prints. -/
theorem headerDump_iff {req : Request} (hready : Ready req) (hgiven : LengthGiven req) :
    headerDump logs req.setHeaders = some () ↔ (logs.ctx.levelVisible .logInfo = true →
      ∀ m ∈ headerTypes.filterMap (fun t => (findKey t).bind fun key =>
        (req.value t).map fun val => (inHeaderDump 493, key ++ ascii " " ++ val)),
        logs.fits .logInfo m.1 m.2 = true) := by
  have hkeys : ∀ (t : HeaderType) (key : List UInt8), findKey t = some key → key ≠ [] := by
    have hall : ∀ entry ∈ headerKeysTable, entry.1 ≠ [] := by decide
    intro t key hkey
    obtain ⟨entry, hfind, rfl⟩ := Option.map_eq_some_iff.mp hkey
    exact hall entry (List.mem_of_find?_eq_some hfind)
  rw [headerDump, forM_unit_iff]
  simp only [List.mem_filterMap, forall_exists_index, and_imp]
  constructor
  · intro hall hvisible m t ht hm
    obtain ⟨key, hkey, hm⟩ := Option.bind_eq_some_iff.mp hm
    obtain ⟨val, hval, rfl⟩ := Option.map_eq_some_iff.mp hm
    rcases slot_cases hready hgiven t with
      ⟨-, hnone | hnone⟩ | ⟨key', val', hfind, hkey', hval', hvalue⟩
    · exact absurd (hkey.symm.trans hnone) (Option.some_ne_none _)
    · exact absurd (hval.symm.trans hnone) (Option.some_ne_none _)
    · obtain rfl := Option.some_inj.mp (hkey.symm.trans hfind)
      obtain rfl := Option.some_inj.mp (hval.symm.trans hvalue)
      have hprint := hall t ht
      rw [hkey', Option.getD_some, if_pos (hkeys t key hkey), hval'] at hprint
      exact print_iff.mp hprint hvisible
  · intro hall t ht
    rcases slot_cases hready hgiven t with ⟨hkey, -⟩ | ⟨key, val, hfind, hkey, hval, hvalue⟩
    · rw [hkey, Option.getD_none, if_neg (not_not_intro rfl)]
    · rw [hkey, Option.getD_some, if_pos (hkeys t key hfind), hval]
      refine print_iff.mpr fun hvisible =>
        hall hvisible (inHeaderDump 493, key ++ ascii " " ++ val.bytes) t ht ?_
      rw [hfind, hvalue]
      rfl

/-- **A dump goes well exactly if what it prints fits.** -/
theorem dump_iff (h : logs.ctx.levelVisible .logTrace = false) {req r : Request}
    (hready : Ready req) (hgiven : LengthGiven req) (hr : req.silent = some r) :
    r.dump logs = some () ↔ (logs.ctx.levelVisible .logInfo = true →
      ∀ m ∈ req.dumpMessages, logs.fits .logInfo m.1 m.2 = true) := by
  rw [silent_eq hready hgiven, foldlM_build, Option.map_map] at hr
  obtain ⟨s, -, rfl⟩ := Option.map_eq_some_iff.mp hr
  unfold dump
  simp only [Option.bind_eq_bind, bind_unit_iff, print_iff, print_hidden h, true_and]
  rw [show ((withLength ∘ req.withHeaders.withBuilder) s).headers = req.setHeaders from rfl,
    headerDump_iff hready hgiven, dumpMessages]
  simp only [List.forall_mem_append, List.forall_mem_cons, List.not_mem_nil, false_imp_iff,
    implies_true, and_true, imp_and, and_assoc]
  rfl

/-! ### The request -/

theorem findKey_no_nul {t : HeaderType} {key : List UInt8} (h : findKey t = some key) :
    (0 : UInt8) ∉ key := by
  have hkeys : ∀ entry ∈ headerKeysTable, (0 : UInt8) ∉ entry.1 := by decide
  obtain ⟨entry, hfind, rfl⟩ := Option.map_eq_some_iff.mp h
  exact hkeys entry (List.mem_of_find?_eq_some hfind)

/-- No text has a NUL. -/
theorem pieces_no_nul {req : Request} (hready : Ready req) (hgiven : LengthGiven req) :
    ∀ text ∈ req.pieces, (0 : UInt8) ∉ text := by
  have hspace : (0 : UInt8) ∉ ascii " " := by decide
  have hcolon : (0 : UInt8) ∉ ascii ": " := by decide
  have hcrlf : (0 : UInt8) ∉ crlf := by decide
  intro text htext
  rcases List.mem_append.mp htext with htext | htext
  · rcases List.mem_append.mp htext with htext | htext
    · rcases List.mem_cons.mp htext with rfl | htext
      · simp only [List.mem_append, not_or]
        exact ⟨⟨⟨⟨⟨req.method.no_nul, hspace⟩, req.path.no_nul⟩, hspace⟩, req.protocol.no_nul⟩,
          hcrlf⟩
      · obtain ⟨t, -, hline⟩ := List.mem_filterMap.mp htext
        rcases slot_cases hready hgiven t with ⟨-, hnone⟩ | ⟨key, val, hkey, -, -, hvalue⟩
        · exact absurd (hline.symm.trans (line_none hnone)) (Option.some_ne_none text)
        · rw [Option.some_inj.mp (hline.symm.trans (line_some hkey hvalue)), headerLine]
          simp only [List.mem_append, not_or]
          exact ⟨⟨⟨findKey_no_nul hkey, hcolon⟩, val.no_nul⟩, hcrlf⟩
    · rw [List.mem_singleton.mp htext]
      exact hcrlf
  · split at htext
    case isTrue =>
      rw [List.mem_singleton.mp htext]
      exact req.body.no_nul
    case isFalse => exact absurd htext List.not_mem_nil

/-- The builder has the buffer it was made from, or the buffer was moved for a body that needs
more than there was. -/
theorem startsIn_or_moved {req : Request} (hready : Ready req) :
    StartsIn bufferChunk (req.bp, req.buffchunk.mem) ∨
      req.bp.block ≠ req.buffchunk.mem.id ∧ bufferChunk < req.body.len := by
  have hbp := hready.bp
  have hstart : req.bp.block = req.buffchunk.mem.id → bufferChunk ≤ req.buffchunk.mem.alloc →
      StartsIn bufferChunk (req.bp, req.buffchunk.mem) := by
    intro hblock halloc
    refine ⟨hblock, ?_, ?_, ?_, halloc, by decide, by decide⟩
    all_goals rw [hbp]; rfl
  obtain ⟨place, hinit | hresize⟩ := hready.buffchunk
  · refine .inl (hstart ?_ ?_)
    · rw [hinit]
      rfl
    · rw [hinit]
      exact le_refl _
  · rw [ReqChunk.resize] at hresize
    split at hresize
    case isTrue =>
      refine .inl (hstart ?_ ?_)
      · rw [hresize]
        rfl
      · rw [hresize]
        exact le_refl _
    case isFalse hsize =>
      split at hresize
      case isTrue =>
        refine .inl (hstart ?_ ?_)
        · rw [hresize]
          rfl
        · rw [hresize]
          exact le_refl _
      case isFalse =>
        have hlt : (bufferChunk : Int) < (BitVec.ofNat 32 req.body.len).toInt := not_le.mp hsize
        by_cases hplace : req.bp.block = place
        · refine .inl (hstart ?_ ?_)
          · rw [hresize]
            exact hplace
          · rw [hresize]
            change bufferChunk ≤ ((BitVec.ofNat 32 req.body.len).toInt + 1).toNat
            omega
        · refine .inr ⟨?_, ?_⟩
          · rw [hresize]
            exact hplace
          · have hint := BitVec.toInt_eq_toNat_cond (BitVec.ofNat 32 req.body.len)
            have hmod : (BitVec.ofNat 32 req.body.len).toNat ≤ req.body.len := Nat.mod_le _ _
            split at hint
            · omega
            · omega

theorem body_le_text (req : Request) : req.body.len ≤ req.text.length := by
  rw [text, List.length_append]
  exact Nat.le_add_left _ _

theorem path_le_text (req : Request) : req.path.bytes.length ≤ req.text.length := by
  simp only [text, List.length_append]
  omega

/-- Where every value can be printed, the text has to fit. -/
theorem built_iff {req : Request} (hready : Ready req) (hgiven : LengthGiven req) :
    (∃ r, req.silent = some r ∧ Packaged req.text r) ↔ req.text.length < bufferChunk := by
  have hbuilds : (∃ r, req.silent = some r ∧ Packaged req.text r) ↔
      ∃ s, BuildPtr.builds (req.bp, req.buffchunk.mem) req.pieces = some s ∧
        BuildPtr.Built req.pieces.flatten s := by
    rw [silent_eq hready hgiven, foldlM_build, Option.map_map, flatten_pieces]
    constructor
    · rintro ⟨r, hr, hlength, hbytes⟩
      obtain ⟨s, hs, rfl⟩ := Option.map_eq_some_iff.mp hr
      exact ⟨s, hs, hlength, hbytes⟩
    · rintro ⟨s, hs, hlength, hbytes⟩
      exact ⟨_, Option.map_eq_some_iff.mpr ⟨s, hs, rfl⟩, hlength, hbytes⟩
  rw [hbuilds]
  rcases startsIn_or_moved hready with hstart | ⟨hmoved, hlong⟩
  · rw [builds_iff hstart (pieces_no_nul hready hgiven), flatten_pieces]
  · have hsize : (req.bp, req.buffchunk.mem).1.size ≠ 0 := by
      change (req.bp.max % 2 ^ 64).toNat ≠ 0
      rw [hready.bp]
      change ((bufferChunk : Int) % 2 ^ 64).toNat ≠ 0
      decide
    refine iff_of_false (fun ⟨s, hs, _⟩ => ?_) (Nat.not_lt.mpr ?_)
    · rw [pieces, List.cons_append, List.cons_append, builds_gone hmoved hsize] at hs
      exact Option.some_ne_none s hs.symm
    · exact le_trans hlong.le (body_le_text req)

/-- **A request is packaged right, or with an error, exactly when its text fits into the first
buffer, the length of its body, if it has one, is given, and the log is quiet.** -/
theorem http_request_package_iff (logs : Logs) (req : Request) (hready : Ready req) :
    (∃ err r, req.package logs = some (err, r) ∧ (err = .etOk → Packaged req.text r)) ↔
      req.text.length < bufferChunk ∧ LengthGiven req ∧ req.Loggable logs := by
  cases htrace : logs.ctx.levelVisible .logTrace with
  | true =>
      rw [package_shown htrace hready]
      refine iff_of_false (fun ⟨_, _, hr, _⟩ => nomatch hr) fun h => ?_
      exact Bool.false_ne_true (h.2.2.trace.symm.trans htrace)
  | false =>
      rw [package_hidden htrace]
      by_cases hgiven : LengthGiven req
      · have hlogs : req.Loggable logs ↔ (logs.ctx.levelVisible .logInfo = true →
            ∀ m ∈ req.dumpMessages, logs.fits .logInfo m.1 m.2 = true) :=
          ⟨fun h => h.info, fun h => ⟨htrace, h⟩⟩
        rw [← built_iff hready hgiven, and_iff_right hgiven, hlogs]
        constructor
        · rintro ⟨err, r, hr, hpackaged⟩
          obtain ⟨r', hsilent, hdump⟩ := Option.bind_eq_some_iff.mp hr
          obtain ⟨u, hu, heq⟩ := Option.map_eq_some_iff.mp hdump
          obtain ⟨rfl, rfl⟩ := Prod.mk.inj heq
          exact ⟨⟨r', hsilent, hpackaged rfl⟩, (dump_iff htrace hready hgiven hsilent).mp hu⟩
        · rintro ⟨⟨r, hsilent, hpackaged⟩, hinfo⟩
          refine ⟨.etOk, r, ?_, fun _ => hpackaged⟩
          rw [hsilent, Option.bind_some, (dump_iff htrace hready hgiven hsilent).mpr hinfo]
          rfl
      · rw [silent_none hgiven]
        exact iff_of_false (fun ⟨_, _, hr, _⟩ => nomatch hr) fun h => hgiven h.2.1

/-- `http_request` has every request ready when it packages it. -/
theorem prepare_ready (id : Nat) (uri host path method protocol body : CStr)
    (extend : Option (HeaderType → HeaderType × CStr)) (place : Nat) :
    Ready ((init id).prepare uri host path method protocol body extend place) := by
  have hheaders : ∀ t, (connectionHeader (init id).headers protocol t).key = none ∨
      (connectionHeader (init id).headers protocol t).key = findKey t ∧
        ∃ val, (connectionHeader (init id).headers protocol t).val = some val := by
    intro t
    rw [connectionHeader]
    split
    · rw [requestSetHeader_apply _ (by decide)]
      split
      case isTrue ht =>
        rw [ht]
        exact .inr ⟨rfl, _, rfl⟩
      case isFalse => exact .inl rfl
    · exact .inl rfl
  rw [prepare]
  split
  · exact ⟨hheaders, rfl, place, .inr rfl⟩
  · exact ⟨hheaders, rfl, place, .inl rfl⟩

/-- A string of the source. -/
def cstr (s : String) (h : (0 : UInt8) ∉ ascii s) : CStr := { bytes := ascii s, no_nul := h }

/-- A path as long as the buffer. -/
def longPath : CStr where
  bytes := List.replicate bufferChunk 97
  no_nul := fun h => absurd (List.eq_of_mem_replicate h) (by decide)

/-- A get of `/` from a host `h`. -/
def small : Request :=
  (init 0).prepare (cstr "http://h/" (by decide)) (cstr "h" (by decide)) (cstr "/" (by decide))
    (cstr "GET" (by decide)) (cstr "HTTP/1.0" (by decide)) .empty none 0

/-- A log of `log_info` and above. -/
def infoLogs : Logs where
  ctx := { level := 4, mmask := 0xFFFFFFFF, direction := .stdout }
  date := { tmYear := 124, tmMon := 0, tmMday := 1, tmHour := 0, tmMin := 0, tmSec := 0 }

theorem http_request_package_iff_get : ∃ err r,
    small.package infoLogs = some (err, r) ∧ (err = .etOk → Packaged small.text r) :=
  (http_request_package_iff infoLogs small (prepare_ready _ _ _ _ _ _ _ _ _)).mpr
    ⟨by decide, .inl rfl, by decide, by decide⟩

/-- A log that hides all messages. -/
def noLogs : Logs := { infoLogs with ctx := { infoLogs.ctx with level := 9 } }

/-- A path that does not fit, and a body of one byte. -/
theorem http_request_package_cut :
    (¬∃ err r, ((init 0).prepare .empty .empty longPath (cstr "GET" (by decide)) .empty .empty
        none 0).package noLogs = some (err, r) ∧
      (err = .etOk → Packaged ((init 0).prepare .empty .empty longPath (cstr "GET" (by decide))
        .empty .empty none 0).text r)) ∧
    ((init 0).prepare .empty .empty .empty (cstr "POST" (by decide)) .empty
      (cstr "x" (by decide)) none 0).package noLogs = none := by
  constructor
  · rintro ⟨err, r, hr, hpackaged⟩
    have hhidden : noLogs.ctx.levelVisible .logTrace = false := rfl
    have hready := prepare_ready 0 .empty .empty longPath (cstr "GET" (by decide)) .empty .empty
      none 0
    rw [package_hidden hhidden] at hr
    obtain ⟨r', hsilent, hdump⟩ := Option.bind_eq_some_iff.mp hr
    obtain ⟨u, -, heq⟩ := Option.map_eq_some_iff.mp hdump
    obtain ⟨rfl, rfl⟩ := Prod.mk.inj heq
    have hfits := (built_iff hready (.inl rfl)).mp ⟨r', hsilent, hpackaged rfl⟩
    refine absurd hfits (Nat.not_lt.mpr (le_trans ?_ (path_le_text _)))
    exact List.length_replicate.ge
  · rw [package_hidden rfl, silent_none (not_or.mpr ⟨by decide, ?_⟩)]
    · rfl
    · rintro ⟨val, hval⟩
      exact Option.some_ne_none val hval.symm

/-- **At the level that is the default nothing is ever packaged.** -/
theorem package_default (id : Nat) (uri host path method protocol body : CStr)
    (extend : Option (HeaderType → HeaderType × CStr)) (place : Nat) (logs : Logs)
    (hlevel : logs.ctx.level = 2) :
    ((init id).prepare uri host path method protocol body extend place).package logs = none := by
  refine package_shown ?_ (prepare_ready ..)
  rw [LogLine.AwokeLogContext.levelVisible, hlevel]
  rfl

end Request

end Awoke.Http
