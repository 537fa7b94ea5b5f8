/-
Which names are skipped.

The loop of `skip_name_field` takes every byte that is not zero for the length of a label, and
whether there is a reference is asked before it only.  Behind a label the high byte of a
reference, which is 192 at least, leads past the end of the name, and the loop never comes back.
-/
import Awoke.Dns.Wire
import Awoke.Proofs.DnsReply
import Awoke.Proofs.Package

namespace Awoke.Dns

/-- The name is a reference, or its labels go on to the end. -/
def EncodedName.Plain (n : EncodedName) : Prop := n.tail = .root ∨ n.labels = []

instance : DecidablePred EncodedName.Plain := fun _ => inferInstanceAs (Decidable (_ ∨ _))

theorem Label.length_toNat (l : Label) : (UInt8.ofNat l.text.length).toNat = l.text.length := by
  have := l.short
  rw [UInt8.toNat_ofNat']
  omega

namespace Datagram

variable {d : Datagram} {pos next : Nat} {b : UInt8} {bytes more : List UInt8}

/-! ### What was received -/

/-- These bytes were received from `pos` on. -/
def Holds (d : Datagram) (pos : Nat) (bytes : List UInt8) : Prop :=
  pos + bytes.length ≤ d.rc ∧ Cells.slice d.buf pos bytes.length = bytes

instance : Decidable (d.Holds pos bytes) := inferInstanceAs (Decidable (_ ∧ _))

theorem holds_append :
    d.Holds pos (bytes ++ more) ↔ d.Holds pos bytes ∧ d.Holds (pos + bytes.length) more := by
  unfold Holds
  rw [List.length_append, Cells.slice_add, Int.natCast_add]
  constructor
  · rintro ⟨hin, h⟩
    obtain ⟨hbytes, hmore⟩ := List.append_inj h (Cells.slice_length ..)
    exact ⟨⟨by omega, hbytes⟩, by omega, hmore⟩
  · rintro ⟨⟨-, hbytes⟩, hin, hmore⟩
    exact ⟨by omega, by rw [hbytes, hmore]⟩

theorem holds_cons :
    d.Holds pos (b :: bytes) ↔ (pos < d.rc ∧ d.buf pos = b) ∧ d.Holds (pos + 1) bytes := by
  rw [← List.singleton_append, holds_append]
  refine and_congr_left' (and_congr_right' ?_)
  show [d.buf (pos + (0 : Nat))] = [b] ↔ _
  rw [Int.natCast_zero, Int.add_zero, List.cons.injEq, and_iff_left rfl]

/-! ### Names -/

theorem isReference_iff : b &&& dnsNameOffset = dnsNameOffset ↔ 192 ≤ b.toNat := by
  have hall : ∀ n : Fin 256, UInt8.ofNat n &&& dnsNameOffset = dnsNameOffset ↔ 192 ≤ n.val := by
    decide +kernel
  have h := hall ⟨b.toNat, b.toNat_lt⟩
  rw [UInt8.ofNat_toNat] at h
  exact h

/-- The loop goes over labels to what is behind them. -/
theorem skipLabels_labels (ls : List Label) : ∀ {pos : Nat},
    d.Holds pos (ls.flatMap Label.wire ++ more) →
    d.skipLabels pos = d.skipLabels (pos + (ls.flatMap Label.wire).length) := by
  induction ls with
  | nil => exact fun _ => rfl
  | cons l ls ih =>
      intro pos h
      rw [List.flatMap_cons, List.append_assoc, Label.wire, List.cons_append, holds_cons,
        holds_append] at h
      obtain ⟨⟨hin, hlength⟩, -, hrest⟩ := h
      have hl := Label.length_toNat l
      have hpos := l.pos
      have hne : d.buf pos ≠ 0 := by
        rw [hlength]
        intro hzero
        rw [hzero] at hl
        exact absurd hl (by simp; omega)
      rw [skipLabels, if_pos hin, if_neg hne, hlength, hl, Nat.add_right_comm, ih hrest]
      congr 1
      rw [List.flatMap_cons, List.length_append, Label.wire, List.length_cons]
      omega

theorem Labels.lt (h : d.Labels pos next) : pos < next := by
  induction h with
  | root => exact Nat.lt_succ_self _
  | label _ _ _ ih => omega

theorem reference_toNat (offset : Fin (2 ^ 14)) :
    192 ≤ (UInt8.ofNat (0xc0 + offset / 256)).toNat := by
  have := offset.isLt
  rw [UInt8.toNat_ofNat']
  omega

/-- The loop stops behind an end that is the empty label, and not behind a reference. -/
theorem skipLabels_end_iff {tail : NameEnd} (h : d.Holds pos tail.wire) :
    d.skipLabels pos = .ok (pos + tail.wire.length) ↔ tail = .root := by
  cases tail with
  | root =>
      obtain ⟨⟨hin, hzero⟩, -⟩ := holds_cons.mp h
      exact iff_of_true (skipLabels_ok_iff.mpr (.root hin hzero)) rfl
  | reference offset =>
      obtain ⟨⟨-, hhigh⟩, -⟩ := holds_cons.mp h
      have hbyte : 192 ≤ (d.buf pos).toNat := hhigh ▸ reference_toNat offset
      have hlen : (NameEnd.reference offset).wire.length = 2 := rfl
      refine iff_of_false (fun hskip => ?_) (by simp)
      rw [hlen, skipLabels_ok_iff] at hskip
      cases hskip with
      | label _ _ hrest =>
          have := hrest.lt
          omega

theorem skipNameField_reference (hin : pos < d.rc) (h : 192 ≤ (d.buf pos).toNat) :
    d.skipNameField pos = .ok (pos + 2) :=
  skipNameField_ok_iff.mpr (.reference hin (isReference_iff.mpr h))

theorem skipNameField_labels (hin : pos < d.rc) (h : (d.buf pos).toNat < 192) :
    d.skipNameField pos = d.skipLabels pos := by
  have hlook : d.look pos 1 = .ok () := look_ok_iff.mpr hin
  have hnot : ¬d.buf pos &&& dnsNameOffset = dnsNameOffset := by
    rw [isReference_iff]
    omega
  rw [skipNameField, hlook]
  exact if_neg hnot

/-- **A name is skipped** exactly if there is no reference behind labels of it. -/
theorem skipNameField_iff {name : EncodedName} (h : d.Holds pos name.wire) :
    d.skipNameField pos = .ok (pos + name.wire.length) ↔ name.Plain := by
  obtain ⟨labels, tail⟩ := name
  have hend := (holds_append.mp h).2
  cases labels with
  | nil =>
      refine iff_of_true ?_ (.inr rfl)
      cases tail with
      | root =>
          obtain ⟨⟨hin, hzero⟩, -⟩ := holds_cons.mp h
          rw [skipNameField_labels hin (by rw [hzero]; decide)]
          exact (skipLabels_end_iff h).mpr rfl
      | reference offset =>
          obtain ⟨⟨hin, hhigh⟩, -⟩ := holds_cons.mp h
          exact skipNameField_reference hin (hhigh ▸ reference_toNat offset)
  | cons l ls =>
      obtain ⟨⟨hin, hlength⟩, -⟩ := holds_cons.mp h
      have hsmall : (d.buf pos).toNat < 192 := by
        have := l.short
        rw [hlength, Label.length_toNat]
        omega
      have hplain : (EncodedName.mk (l :: ls) tail).Plain ↔ tail = .root :=
        or_iff_left (List.cons_ne_nil l ls)
      rw [skipNameField_labels hin hsmall, skipLabels_labels (l :: ls) h, hplain,
        ← skipLabels_end_iff hend, EncodedName.wire, List.length_append, ← Nat.add_assoc]

/-- Every name of these parts is skipped, and nothing but it. -/
def SkipsNames (d : Datagram) : Nat → List (EncodedName × List UInt8) → Prop
  | _, [] => True
  | pos, (name, body) :: parts =>
      d.skipNameField pos = .ok (pos + name.wire.length) ∧
        SkipsNames d (pos + name.wire.length + body.length) parts

theorem holds_parts_cons {name : EncodedName} {body : List UInt8}
    {parts : List (EncodedName × List UInt8)} :
    d.Holds pos (wireParts ((name, body) :: parts) ++ more) ↔
      d.Holds pos name.wire ∧ d.Holds (pos + name.wire.length) body ∧
        d.Holds (pos + name.wire.length + body.length) (wireParts parts ++ more) := by
  rw [wireParts, List.flatMap_cons, List.append_assoc, List.append_assoc, holds_append,
    holds_append]
  rfl

theorem skipsNames_iff (parts : List (EncodedName × List UInt8)) : ∀ {pos : Nat},
    d.Holds pos (wireParts parts ++ more) →
    (d.SkipsNames pos parts ↔ ∀ part ∈ parts, part.1.Plain) := by
  induction parts with
  | nil => exact fun _ => iff_of_true trivial (List.forall_mem_nil _)
  | cons part parts ih =>
      intro pos h
      obtain ⟨hname, -, hrest⟩ := holds_parts_cons.mp h
      rw [SkipsNames, skipNameField_iff hname, ih hrest, List.forall_mem_cons]

theorem skipsNames_append {parts rest : List (EncodedName × List UInt8)} :
    d.SkipsNames pos (parts ++ rest) ↔
      d.SkipsNames pos parts ∧ d.SkipsNames (pos + (wireParts parts).length) rest := by
  induction parts generalizing pos with
  | nil => exact (and_iff_right trivial).symm
  | cons part parts ih =>
      rw [List.cons_append, SkipsNames, SkipsNames, ih, and_assoc, wireParts, wireParts,
        List.flatMap_cons, List.length_append, List.length_append, Nat.add_assoc, Nat.add_assoc]

/-! ### Replies -/

/-- What an answer says about itself, without its data. -/
structure Reads (answer : DnsRr) (rr : Record) : Prop where
  type : answer.type = rr.type
  class_ : answer.class_ = rr.class_
  ttl : answer.ttl = rr.ttl
  rdatalen : answer.rdatalen = UInt16.ofNat rr.data.length

/-- The reply is read as it was sent: every name is skipped, and every answer is read from where
it is. -/
structure ReadsReply (d : Datagram) (req : DnsRequest) (r : Reply) : Prop where
  names : d.SkipsNames 12 r.parts
  answers : ∃ req', d.parseReply req = .ok req' ∧
    ∀ (i : Nat) (h : i < r.answers.length),
      ∃ k : Fin dnsRrNr, k.val = i ∧ Reads (req'.answer k) r.answers[i]

theorem fixed_of_holds {rr : Record} (h : d.Holds pos rr.fixed) (data : List UInt8) :
    Reads (d.fixed pos data) rr := by
  rw [Record.fixed, holds_append, holds_append, holds_append] at h
  obtain ⟨⟨⟨htype, hclass⟩, httl⟩, hlen⟩ := h
  exact ⟨htons_pullWord_iff.mpr htype.2, htons_pullWord_iff.mpr hclass.2,
    htonl_pullDwrd_iff.mpr httl.2, htons_pullWord_iff.mpr hlen.2⟩

theorem header_of_holds {r : Reply} (h : d.Holds 0 r.header) :
    d.header.questions = UInt16.ofNat r.questions.length ∧
      d.header.answersRRs = UInt16.ofNat r.answers.length := by
  rw [Reply.header, holds_append, holds_append, holds_append, holds_append, holds_append] at h
  obtain ⟨⟨⟨⟨-, hquestions⟩, hanswers⟩, -⟩, -⟩ := h
  exact ⟨htons_pullWord_iff.mpr hquestions.2, htons_pullWord_iff.mpr hanswers.2⟩

/-- The questions are gone over to what is behind them. -/
theorem questions_of_parts (qs : List Question) : ∀ {pos : Nat},
    d.SkipsNames pos (qs.map fun q => (q.name, q.fixed)) →
    d.Questions qs.length pos
      (pos + (wireParts (qs.map fun q => (q.name, q.fixed))).length) := by
  induction qs with
  | nil => exact fun _ => .nil
  | cons q qs ih =>
      rintro pos ⟨hskip, hrest⟩
      have hbehind := ih hrest
      have hlen : (wireParts ((q :: qs).map fun q => (q.name, q.fixed))).length =
          q.name.wire.length + 4 + (wireParts (qs.map fun q => (q.name, q.fixed))).length := by
        rw [List.map_cons, wireParts, List.flatMap_cons, List.length_append, List.length_append]
        rfl
      rw [hlen, ← Nat.add_assoc, ← Nat.add_assoc]
      exact .cons (skipNameField_ok_iff.mp hskip) hbehind

/-- **One answer** that lies there is read, and the place behind it reached. -/
theorem parseAnswer_record {rr : Record} (hskip : d.Name pos next)
    (h : d.Holds next (rr.fixed ++ rr.data)) (k : Fin dnsRrNr) (req : DnsRequest) :
    d.parseAnswer k req pos =
      .ok (d.recorded k req next, next + (rr.fixed ++ rr.data).length) := by
  have hfixed := fixed_of_holds (holds_append.mp h).1 []
  have hin := h.1
  have hten : rr.fixed.length = 10 := rfl
  have hlen : (d.fixed next []).rdatalen.toNat = rr.data.length := by
    rw [hfixed.rdatalen, UInt16.toNat_ofNat', Nat.mod_eq_of_lt rr.short]
  rw [List.length_append, hten] at hin ⊢
  refine parseAnswer_ok_iff.mpr ⟨k, next, rfl, hskip, ?_⟩
  by_cases haddress : IsAddress (d.fixed next [])
  · have hfour : rr.data.length = 4 := by
      rw [← hlen, haddress.2]
      rfl
    exact .inl ⟨haddress, by omega, by rw [hfour]⟩
  · exact .inr ⟨haddress, by omega, by rw [hlen, Nat.add_assoc]⟩

/-- **The loop over the answers** reads them all. -/
theorem parseAnswers_records (rs : List Record) : ∀ {i pos : Nat} {req : DnsRequest},
    i + rs.length ≤ dnsRrNr →
    d.Holds pos (wireParts (rs.map fun rr => (rr.name, rr.fixed ++ rr.data)) ++ more) →
    d.SkipsNames pos (rs.map fun rr => (rr.name, rr.fixed ++ rr.data)) →
    ∃ req', d.parseAnswers rs.length i req pos = .ok req' ∧
      (∀ k : Fin dnsRrNr, k.val < i → req'.answer k = req.answer k) ∧
      ∀ (j : Nat) (h : j < rs.length),
        ∃ k : Fin dnsRrNr, k.val = i + j ∧ Reads (req'.answer k) rs[j] := by
  induction rs with
  | nil =>
      intro i pos req _ _ _
      exact ⟨req, rfl, fun _ _ => rfl, fun j h => absurd h (Nat.not_lt_zero j)⟩
  | cons rr rs ih =>
      rintro i pos req hroom hholds ⟨hskip, hskips⟩
      rw [List.length_cons] at hroom
      obtain ⟨-, hbody, hrest⟩ := holds_parts_cons.mp hholds
      have hi : i < dnsRrNr := by omega
      have hparse := parseAnswer_record (skipNameField_ok_iff.mp hskip) hbody ⟨i, hi⟩ req
      obtain ⟨data, hdata⟩ : ∃ data,
          (d.recorded ⟨i, hi⟩ req (pos + rr.name.wire.length)).answer ⟨i, hi⟩ =
            d.fixed (pos + rr.name.wire.length) data := recorded_answer_self
      have hfirst := fixed_of_holds (holds_append.mp hbody).1 data
      obtain ⟨req', hloop, hkept, hreads⟩ := ih (i := i + 1) (by omega) hrest hskips
      refine ⟨req', ?_, fun k hk => ?_, fun j hj => ?_⟩
      · rw [List.length_cons, parseAnswers, bind_ok_iff]
        exact ⟨_, hparse, hloop⟩
      · rw [hkept k (by omega), recorded_answer_of_ne (Fin.ne_of_lt hk)]
      · cases j with
        | zero =>
            refine ⟨⟨i, hi⟩, rfl, ?_⟩
            rw [hkept ⟨i, hi⟩ (Nat.lt_succ_self i), hdata]
            exact hfirst
        | succ j =>
            obtain ⟨k, hk, hread⟩ := hreads j (by simpa using hj)
            exact ⟨k, by omega, hread⟩

/-- **A reply is read as it was sent** exactly if no name of it is labels with a reference behind
them, and there is a place for every answer. -/
theorem readsReply_iff {r : Reply} (h : d.Holds 0 r.wire) (req : DnsRequest) :
    d.ReadsReply req r ↔
      (∀ part ∈ r.parts, part.1.Plain) ∧ r.answers.length ≤ dnsRrNr := by
  rw [Reply.wire, List.append_assoc, holds_append, Nat.zero_add] at h
  obtain ⟨hheader, hparts⟩ := h
  have htwelve : r.header.length = 12 := rfl
  rw [htwelve] at hparts
  rw [← skipsNames_iff r.parts hparts]
  constructor
  · rintro ⟨hnames, req', -, hreads⟩
    refine ⟨hnames, ?_⟩
    by_contra hmany
    obtain ⟨k, hk, -⟩ := hreads dnsRrNr (by omega)
    exact absurd k.isLt (by omega)
  · rintro ⟨hnames, hfew⟩
    refine ⟨hnames, ?_⟩
    obtain ⟨hquestions, hanswers⟩ := header_of_holds hheader
    have hquestionsNr : d.header.questions.toNat = r.questions.length := by
      rw [hquestions, UInt16.toNat_ofNat', Nat.mod_eq_of_lt r.fewQuestions]
    have hanswersNr : d.header.answersRRs.toNat = r.answers.length := by
      rw [hanswers, UInt16.toNat_ofNat', Nat.mod_eq_of_lt r.fewAnswers]
    rw [Reply.parts, skipsNames_append] at hnames
    rw [Reply.parts, wireParts, List.flatMap_append, List.append_assoc, holds_append] at hparts
    have hroom : 0 + r.answers.length ≤ dnsRrNr := by omega
    obtain ⟨req', hloop, -, hreads⟩ := parseAnswers_records r.answers hroom hparts.2 hnames.2
    have hwalk := questions_of_parts r.questions hnames.1
    rw [← hquestionsNr] at hwalk
    rw [← hanswersNr] at hloop
    refine ⟨req', ?_, fun i hi => ?_⟩
    · simp only [parseReply, bind_ok_iff, parseHeader_ok_iff, skipQuestions_ok_iff]
      exact ⟨_, ⟨hheader.1, rfl⟩, _, hwalk, hloop⟩
    · obtain ⟨k, hk, hread⟩ := hreads i hi
      exact ⟨k, by omega, hread⟩

/-- **Names are skipped and replies read** exactly if there is no reference behind labels, and no
more answers than there are places for. -/
theorem dns_names_iff {d' : Datagram} {name : EncodedName} {r : Reply}
    (hname : d.Holds pos name.wire) (hreply : d'.Holds 0 r.wire) (req : DnsRequest) :
    (d.skipNameField pos = .ok (pos + name.wire.length) ↔ name.Plain) ∧
      (d'.ReadsReply req r ↔
        (∀ part ∈ r.parts, part.1.Plain) ∧ r.answers.length ≤ dnsRrNr) :=
  ⟨skipNameField_iff hname, readsReply_iff hreply req⟩

end Datagram

/-- The label `a`. -/
def labelA : Label := ⟨[97], Nat.le_refl 1, Nat.le_of_ble_eq_true rfl⟩

/-- A reply about `a`, with an address under this name. -/
def replyUnder (name : EncodedName) : Reply :=
  { transactionId := 1
    flags := 0x8180
    authorityRRs := 0
    additionalRRs := 0
    questions := [⟨⟨[labelA], .root⟩, 1, 1⟩]
    answers := [⟨name, 1, 1, 60, [1, 2, 3, 4], Nat.le_of_ble_eq_true rfl⟩]
    more := []
    fewQuestions := Nat.le_of_ble_eq_true rfl
    fewAnswers := Nat.le_of_ble_eq_true rfl }

/-- Labels to the end in the question, and a reference to them in the answer. -/
theorem dns_names_iff_plain :
    (Datagram.ofBytes (replyUnder ⟨[], .reference 12⟩).wire).skipNameField 12 = .ok 15 ∧
      (Datagram.ofBytes (replyUnder ⟨[], .reference 12⟩).wire).ReadsReply (.fresh [97])
        (replyUnder ⟨[], .reference 12⟩) := by
  have hname : (Datagram.ofBytes (replyUnder ⟨[], .reference 12⟩).wire).Holds 12
      (EncodedName.mk [labelA] .root).wire := by decide
  have hreply : (Datagram.ofBytes (replyUnder ⟨[], .reference 12⟩).wire).Holds 0
      (replyUnder ⟨[], .reference 12⟩).wire := by decide
  obtain ⟨hskip, hread⟩ := Datagram.dns_names_iff hname hreply (.fresh [97])
  exact ⟨hskip.mpr (by decide), hread.mpr (by decide)⟩

/-- The same reference behind a label. -/
theorem dns_names_astray :
    (Datagram.ofBytes (replyUnder ⟨[labelA], .reference 12⟩).wire).Holds 19
        (EncodedName.mk [labelA] (.reference 12)).wire ∧
      (Datagram.ofBytes (replyUnder ⟨[labelA], .reference 12⟩).wire).skipNameField 19 ≠ .ok 23 ∧
      ¬(Datagram.ofBytes (replyUnder ⟨[labelA], .reference 12⟩).wire).ReadsReply (.fresh [97])
        (replyUnder ⟨[labelA], .reference 12⟩) := by
  have hname : (Datagram.ofBytes (replyUnder ⟨[labelA], .reference 12⟩).wire).Holds 19
      (EncodedName.mk [labelA] (.reference 12)).wire := by decide
  have hskip := (Datagram.skipNameField_iff hname).not.mpr (by decide)
  refine ⟨hname, hskip, fun h => hskip ?_⟩
  exact h.names.2.1

end Awoke.Dns
