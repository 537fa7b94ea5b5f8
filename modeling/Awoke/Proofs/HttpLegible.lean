/-
Responses that are received whatever their body is.

Where the name `Content-Length` stands in a head for the first time as the name of that
field, in these letters, the length is read with the first bytes, and the body is not
searched for it.  Where a space follows each colon, each line can be taken apart.  What is
left to ask of the stream is that the head comes first and the rest in eight reads.
-/
import Awoke.Proofs.HttpResponse

namespace Awoke.Http

open CString

/-- The text that is searched for. -/
def lengthName : List UInt8 := ascii "Content-Length"

/-- The length stands where its name is found first, and a space follows each colon. -/
structure Message.Legible (m : Message) : Prop where
  spelled : ∃ front f after, m.fields = front ++ f :: after ∧ f.name = lengthName ∧
    ∀ i, OccursAt m.head lengthName i →
      ((m.status.line :: front.map Field.line).flatMap (· ++ crlf)).length ≤ i
  spaced : ∀ f ∈ m.fields, f.before.head? = some 32

namespace Message

variable {m : Message}

theorem head_split {front after : List Field} {f : Field} (h : m.fields = front ++ f :: after) :
    m.head = (m.status.line :: front.map Field.line).flatMap (· ++ crlf) ++
      (f.line ++ (crlf ++ ((after.map Field.line).flatMap (· ++ crlf) ++ crlf))) := by
  simp only [head, lines, h, List.map_append, List.map_cons, List.flatMap_append,
    List.flatMap_cons, List.append_assoc]

theorem takeWhile_after (f : Field) (more : List UInt8) :
    (f.after ++ (crlf ++ more)).takeWhile isDigit = [] := by
  cases hafter : f.after with
  | nil => rfl
  | cons b bs =>
      have hb : isBlank b := f.after_ok b (by rw [hafter]; exact List.mem_cons_self)
      refine List.takeWhile_cons_of_neg fun hdigit => ?_
      rw [isBlank, Bool.or_eq_true, beq_iff_eq, beq_iff_eq] at hb
      rcases hb with rfl | rfl
      · exact absurd hdigit (by decide)
      · exact absurd hdigit (by decide)

theorem isSpace_of_isBlank {b : UInt8} (h : isBlank b) : isSpace b := by
  rw [isBlank, Bool.or_eq_true, beq_iff_eq, beq_iff_eq] at h
  rcases h with rfl | rfl
  · decide
  · decide

/-- **The length is read from the head**, whatever is behind it. -/
theorem Legible.scan (hlegible : m.Legible) (hsmall : m.body.length < 2 ^ 64) (rest : List UInt8) :
    Response.scanContentLength (text (m.head ++ rest)) = some (UInt64.ofNat m.body.length) := by
  obtain ⟨front, f, after, hfields, hname, hfirst⟩ := hlegible.spelled
  have hmem : f ∈ m.fields := by
    rw [hfields]
    exact List.mem_append_right front List.mem_cons_self
  obtain ⟨hne, hdigits, hvalue⟩ :=
    m.given f hmem (by rw [Field.IsContentLength, hname]; decide)
  generalize hpre : (m.status.line :: front.map Field.line).flatMap (· ++ crlf) = pre at hfirst
  generalize hmore : (after.map Field.line).flatMap (· ++ crlf) ++ crlf ++ text rest = more
  have htext : text (m.head ++ rest) = (pre ++ lengthName) ++
      (58 :: (f.before ++ (f.value ++ (f.after ++ (crlf ++ more))))) := by
    rw [m.text_head, head_split hfields, hpre, Field.line, hname, ← hmore]
    simp only [List.append_assoc]
    rfl
  have hstrstr : strstr (text (m.head ++ rest)) 0 lengthName = some pre.length := by
    refine (strstr_eq_some_iff (by decide)).mpr ⟨Nat.zero_le _, ?_, fun j _ hj => ?_⟩
    · rw [htext, List.append_assoc]
      exact (occursAt_add_length (i := 0) pre).mpr (List.prefix_append lengthName _)
    · rcases Nat.lt_or_ge j pre.length with hlt | hge
      · refine hfirst j ((occursAt_append_iff (by decide) ?_).mp (by rwa [m.text_head] at hj))
        rw [head_split hfields, hpre, Field.line, hname]
        simp only [List.length_append]
        omega
      · exact hge
  have hdrop : (text (m.head ++ rest)).drop (pre.length + lengthName.length) =
      58 :: (f.before ++ (f.value ++ (f.after ++ (crlf ++ more)))) := by
    rw [htext, ← List.length_append, List.drop_left]
  have hnumber := number_digits (fun b hb => isSpace_of_isBlank (f.before_ok b hb)) hne hdigits
    (takeWhile_after f more)
  rw [Response.scanContentLength, show ascii "Content-Length" = lengthName from rfl, hstrstr,
    Option.bind_some, hdrop]
  simp only
  rw [scanUlong, hnumber, hvalue, Option.map_some, if_neg (Nat.not_le_of_lt hsmall)]
  rfl

theorem lines_end (ls : List (List UInt8)) :
    ∀ l : List UInt8, ∃ front, (l :: ls).flatMap (· ++ crlf) = front ++ crlf := by
  induction ls with
  | nil => exact fun l => ⟨l, by rw [List.flatMap_cons, List.flatMap_nil, List.append_nil]⟩
  | cons k ls ih =>
      intro l
      obtain ⟨front, hfront⟩ := ih k
      exact ⟨l ++ crlf ++ front, by rw [List.flatMap_cons, hfront, List.append_assoc (l ++ crlf)]⟩

theorem crlf_before_line {front l rest : List UInt8} (hl : Plain l) {stop : Nat}
    (h : OccursAt ((front ++ crlf) ++ (l ++ rest)) crlf stop)
    (hlt : stop < front.length + 2 + l.length) : stop ≤ front.length := by
  have hfront : (front ++ crlf).length = front.length + 2 := List.length_append
  have hend : OccursAt ((front ++ crlf) ++ (l ++ rest)) crlf (front.length + 0) := by
    rw [List.append_assoc]
    exact (occursAt_add_length front).mpr (List.prefix_append crlf _)
  rcases Nat.lt_or_ge front.length stop with hgt | hle
  · have hpast := crlf_apart hend h hgt
    rw [show stop = (front ++ crlf).length + (stop - (front.length + 2)) by omega] at h
    have := le_of_crlf hl ((occursAt_add_length _).mp h)
    omega
  · exact hle

/-- **Its lines can be taken apart**, whatever is behind them. -/
theorem Legible.linesSplit (hlegible : m.Legible) (rest : List UInt8) :
    LinesSplit (text (m.head ++ rest)) := by
  intro first tail hfirst htail stop hstop hlt
  have hend := m.tail_head rest hfirst htail
  obtain ⟨g, hg, _⟩ := m.counted
  -- the last line of the head begins behind every other line end
  obtain ⟨front, f, hfields⟩ : ∃ front f, m.fields = front ++ f :: [] :=
    ⟨_, _, (List.dropLast_concat_getLast (List.ne_nil_of_mem hg)).symm⟩
  have hmem : f ∈ m.fields := by
    rw [hfields]
    exact List.mem_append_right front List.mem_cons_self
  obtain ⟨bs, hbefore⟩ := List.head?_eq_some_iff.mp (hlegible.spaced f hmem)
  obtain ⟨pre, hpre⟩ := lines_end (front.map Field.line) m.status.line
  have hhead := head_split hfields
  rw [hpre] at hhead
  have htext : text (m.head ++ rest) =
      (pre ++ crlf) ++ (f.line ++ (crlf ++ (crlf ++ text rest))) := by
    rw [m.text_head, hhead]
    simp only [List.append_assoc, List.map_nil, List.flatMap_nil, List.nil_append]
  have hlength : m.head.length = pre.length + 2 + f.line.length + 4 := by
    rw [hhead]
    simp only [List.length_append, List.map_nil, List.flatMap_nil, List.length_nil,
      show crlf.length = 2 from rfl]
    omega
  have hbehind : stop ≤ pre.length := by
    rw [htext] at hstop
    exact crlf_before_line f.line_plain hstop (by omega)
  have hcolon : text (m.head ++ rest) = (pre ++ crlf ++ f.name) ++
      (ascii ": " ++ (bs ++ f.value ++ f.after ++ (crlf ++ (crlf ++ text rest)))) := by
    rw [htext, Field.line, hbefore]
    simp only [List.append_assoc]
    rfl
  refine ⟨(pre ++ crlf ++ f.name).length + 0, ?_, ?_⟩
  · rw [List.length_append, List.length_append, show crlf.length = 2 from rfl]
    omega
  · rw [hcolon]
    exact (occursAt_add_length _).mpr (List.prefix_append (ascii ": ") _)

/-! ### Receiving one -/

section Receiving

variable {s : Socket.Stream UInt8} {part : List UInt8}

theorem headFirst_of_head (hdata : received s 1 = some (m.head ++ part))
    (hroom : (m.head ++ part).length < bufferChunk) : HeadFirst s := by
  intro data hdata'
  obtain rfl := Option.some.inj (hdata.symm.trans hdata')
  exact ⟨hroom, by rw [m.headLength_head]; rfl⟩

theorem Legible.linesRead (hlegible : m.Legible) (hdata : received s 1 = some (m.head ++ part)) :
    LinesRead s := by
  intro k data hk hdata' _
  obtain ⟨before, hbefore, more, rfl⟩ := received_mono hk.1 hdata'
  obtain rfl := Option.some.inj (hdata.symm.trans hbefore)
  rw [List.append_assoc]
  exact hlegible.linesSplit (part ++ more)

theorem Legible.length_read (hlegible : m.Legible) (hsmall : m.body.length < 2 ^ 64)
    (hdata : received s 1 = some (m.head ++ part)) :
    (lengthRead s 1).toNat = m.body.length := by
  rw [lengthRead, if_pos (show lengthRead s 0 = 0 from rfl), hdata, Option.bind_some,
    hlegible.scan hsmall, Option.getD_some]
  exact UInt64.toNat_ofNat_of_lt' hsmall

theorem Legible.timely (hlegible : m.Legible) (hsmall : m.body.length < 2 ^ 64)
    (hleft : s.left = m.bytes) (hdata : received s 1 = some (m.head ++ part))
    (hwhole : ∃ k < 8, received s (k + 1) = some m.bytes) : Timely s m := by
  have hread := hlegible.length_read hsmall hdata
  have hblen := bytes_length m
  have hlast := Nat.find_spec hwhole
  refine ⟨Nat.find hwhole, hlast.1, fun hearly => ?_, hlast.2, ?_, Or.inl hread⟩
  · cases hk : Nat.find hwhole with
    | zero =>
        rw [hk] at hearly
        have hnil : [] = m.bytes := Option.some.inj hearly
        have hlong := m.status_lt_head
        rw [← hnil, List.length_nil] at hblen
        omega
    | succ k =>
        rw [hk] at hearly hlast
        have hmin := Nat.find_min' hwhole ⟨Nat.lt_of_succ_lt hlast.1, hearly⟩
        omega
  · by_cases hzero : lengthRead s 1 = 0
    · -- there is no body, so all of the message came with the first read
      rw [hzero, UInt64.toNat_zero] at hread
      have hpart := received_part hleft hdata
      have hlen : (m.head ++ part).length = m.head.length + part.length := List.length_append
      have hall : m.head ++ part = m.bytes :=
        hpart.eq_of_length (Nat.le_antisymm hpart.length_le (by omega))
      rw [hall] at hdata
      have hmin := Nat.find_min' hwhole ⟨by decide, hdata⟩
      rw [Nat.le_zero.mp hmin, hzero, UInt64.toNat_zero]
      exact hread
    · rw [lengthRead_kept hzero (Nat.le_add_left 1 _)]
      exact hread

end Receiving

end Message

/-- **A legible response is received** when its head comes first and the rest in eight reads. -/
theorem legible_received {s : Socket.Stream UInt8} {m : Message} (hlegible : m.Legible)
    (hfits : m.bytes.length ≤ bufferLimit) (hleft : s.left = m.bytes)
    (hfirst : ∃ data, received s 1 = some data ∧ m.head.length ≤ data.length ∧
      data.length < bufferChunk)
    (hwhole : ∃ k < 8, received s (k + 1) = some m.bytes) :
    ∃ n r, responseRecv n s = some r ∧ r.Right m := by
  obtain ⟨data, hdata, hhead, hroom⟩ := hfirst
  have hsmall : m.body.length < 2 ^ 64 := by
    have hblen := bytes_length m
    have hlimit : bufferLimit < 2 ^ 64 := by decide
    omega
  obtain ⟨part, rfl⟩ : m.head <+: data :=
    List.prefix_of_prefix_length_le (List.prefix_append _ _) (received_part hleft hdata) hhead
  exact Timely.right (Message.headFirst_of_head hdata hroom) (hlegible.linesRead hdata) hfits hleft
    (hlegible.timely hsmall hleft hdata hwhole)

end Awoke.Http
