/-
When a reply is parsed and used safely.

The counts, the names and the lengths of a reply all come from the network, and the parser
believes them.  `Legible` describes the replies for which it may: the header is whole, every
name that is counted comes to its end among the received bytes, there are at most five answers
with their fixed parts whole, and if there are any, one of them is an address of four bytes.

`dns_reply_iff` says that these and no others go through `dns_parse_reply` and the
`dns_table_update` behind it without touching what is not theirs.  What makes the update safe is
an invariant of the loop over the answers, `Valid`: `addr_valid` is -1 as long as no answer was
an address, and then the index of one that was.
-/
import Awoke.Dns.Reply

namespace Awoke.Dns

/-! ### Legible replies -/

namespace Datagram

variable (d : Datagram)

/-- The labels of a name up to the empty one, and the position behind it. -/
inductive Labels : Nat → Nat → Prop
  | root {pos : Nat} (hin : pos < d.rc) (h : d.buf pos = 0) : Labels pos (pos + 1)
  | label {pos next : Nat} (hin : pos < d.rc) (h : d.buf pos ≠ 0)
      (rest : Labels (pos + (d.buf pos).toNat + 1) next) : Labels pos next

/-- A name: a reference to another, of two bytes, or its labels. -/
inductive Name (pos : Nat) : Nat → Prop
  | reference (hin : pos < d.rc) (h : d.buf pos &&& dnsNameOffset = dnsNameOffset) :
      Name pos (pos + 2)
  | labels {next : Nat} (h : d.buf pos &&& dnsNameOffset ≠ dnsNameOffset)
      (rest : d.Labels pos next) : Name pos next

/-- So many questions, and the position behind them. -/
inductive Questions : Nat → Nat → Nat → Prop
  | nil {pos : Nat} : Questions 0 pos pos
  | cons {n pos p next : Nat} (name : d.Name pos p) (rest : Questions n (p + 4) next) :
      Questions (n + 1) pos next

/-- What an answer with its fixed part at `p` holds before `data`. -/
def fixed (p : Nat) (data : List UInt8) : DnsRr :=
  { type := htons (pullWord d.buf p)
    class_ := htons (pullWord d.buf ↑(p + 2))
    ttl := htonl (pullDwrd d.buf ↑(p + 4))
    rdatalen := htons (pullWord d.buf ↑(p + 8))
    data := data }

/-- It is an address of four bytes. -/
def IsAddress (rr : DnsRr) : Prop := rr.type = dnsTypeIpv4 ∧ rr.rdatalen = 4

instance : DecidablePred IsAddress := fun _ => inferInstanceAs (Decidable (_ ∧ _))

/-- An answer, the position behind it, and whether it is an address. -/
inductive Answer (pos : Nat) : Nat → Bool → Prop
  | address {p : Nat} (name : d.Name pos p) (h : IsAddress (d.fixed p []))
      (hin : p + 14 ≤ d.rc) : Answer pos (p + 14) true
  | other {p : Nat} (name : d.Name pos p) (h : ¬IsAddress (d.fixed p []))
      (hin : p + 10 ≤ d.rc) : Answer pos (p + 10 + (d.fixed p []).rdatalen.toNat) false

/-- So many answers, and whether one of them is an address. -/
inductive Answers : Nat → Nat → Bool → Prop
  | nil {pos : Nat} : Answers 0 pos false
  | cons {n pos next : Nat} {one more : Bool} (first : d.Answer pos next one)
      (rest : Answers n next more) : Answers (n + 1) pos (one || more)

/-- The header. -/
def header : DnsHeader :=
  { transactionId := htons (pullWord d.buf 0)
    flags := htons (pullWord d.buf 2)
    questions := htons (pullWord d.buf 4)
    answersRRs := htons (pullWord d.buf 6)
    authorityRRs := htons (pullWord d.buf 8)
    additionalRRs := htons (pullWord d.buf 10) }

/-- A reply that is all there, as far as it is gone through. -/
structure Legible : Prop where
  header : 12 ≤ d.rc
  few : d.header.answersRRs.toNat ≤ dnsRrNr
  body : ∃ pos address, d.Questions d.header.questions.toNat 12 pos ∧
    d.Answers d.header.answersRRs.toNat pos address ∧
    (0 < d.header.answersRRs.toNat → address = true)

/-! ### Names -/

theorem bind_ok_iff {ε α β : Type} {x : Except ε α} {f : α → Except ε β} {b : β} :
    x >>= f = .ok b ↔ ∃ a, x = .ok a ∧ f a = .ok b := by
  cases x with
  | ok a => simp [bind, Except.bind]
  | error e => simp [bind, Except.bind]

variable {d}

theorem look_ok_iff {pos n : Nat} {u : Unit} : d.look pos n = .ok u ↔ pos + n ≤ d.rc := by
  unfold look
  split
  · exact iff_of_true rfl ‹_›
  · exact iff_of_false (by simp) ‹_›

theorem word_ok_iff {pos : Nat} {r : UInt16 × Nat} :
    d.word pos = .ok r ↔ pos + 2 ≤ d.rc ∧ r = (pullWord d.buf pos, pos + 2) := by
  rw [word, bind_ok_iff]
  constructor
  · rintro ⟨_, hlook, h⟩
    exact ⟨look_ok_iff.mp hlook, (Except.ok.inj h).symm⟩
  · rintro ⟨hin, rfl⟩
    exact ⟨(), look_ok_iff.mpr hin, rfl⟩

theorem dwrd_ok_iff {pos : Nat} {r : UInt32 × Nat} :
    d.dwrd pos = .ok r ↔ pos + 4 ≤ d.rc ∧ r = (pullDwrd d.buf pos, pos + 4) := by
  rw [dwrd, bind_ok_iff]
  constructor
  · rintro ⟨_, hlook, h⟩
    exact ⟨look_ok_iff.mp hlook, (Except.ok.inj h).symm⟩
  · rintro ⟨hin, rfl⟩
    exact ⟨(), look_ok_iff.mpr hin, rfl⟩

/-- The loop over the labels comes to an end where they do. -/
theorem skipLabels_ok_iff {pos next : Nat} : d.skipLabels pos = .ok next ↔ d.Labels pos next := by
  induction hrest : d.rc - pos using Nat.strong_induction_on generalizing pos with
  | _ rest ih =>
      rw [skipLabels]
      split
      · rename_i hin
        split
        · rename_i hzero
          constructor
          · intro h
            obtain rfl := Except.ok.inj h
            exact .root hin hzero
          · intro h
            cases h with
            | root => rfl
            | label _ hne => exact absurd hzero hne
        · rename_i hne
          rw [ih _ (by omega) rfl]
          constructor
          · exact fun h => .label hin hne h
          · intro h
            cases h with
            | root _ hzero => exact absurd hzero hne
            | label _ _ hmore => exact hmore
      · rename_i hout
        refine iff_of_false (by simp) fun h => ?_
        cases h with
        | root hin | label hin => exact hout hin

theorem skipNameField_ok_iff {pos next : Nat} :
    d.skipNameField pos = .ok next ↔ d.Name pos next := by
  rw [skipNameField, bind_ok_iff]
  constructor
  · rintro ⟨_, hlook, h⟩
    have hin := look_ok_iff.mp hlook
    split at h
    · obtain rfl := Except.ok.inj h
      exact .reference hin ‹_›
    · exact .labels ‹_› (skipLabels_ok_iff.mp h)
  · intro h
    cases h with
    | reference hin hoff =>
        refine ⟨(), look_ok_iff.mpr hin, ?_⟩
        rw [if_pos hoff]
        rfl
    | labels hoff hlabels =>
        refine ⟨(), look_ok_iff.mpr ?_, ?_⟩
        · cases hlabels with
          | root hin | label hin => exact hin
        · rw [if_neg hoff]
          exact skipLabels_ok_iff.mpr hlabels

theorem skipQuestions_ok_iff (n : Nat) : ∀ {pos next : Nat},
    d.skipQuestions n pos = .ok next ↔ d.Questions n pos next := by
  induction n with
  | zero =>
      intro pos next
      constructor
      · intro h
        obtain rfl := Except.ok.inj h
        exact .nil
      · intro h
        cases h
        rfl
  | succ n ih =>
      intro pos next
      rw [skipQuestions, bind_ok_iff]
      constructor
      · rintro ⟨p, hname, hrest⟩
        exact .cons (skipNameField_ok_iff.mp hname) (ih.mp hrest)
      · intro h
        cases h with
        | cons hname hrest => exact ⟨_, skipNameField_ok_iff.mpr hname, ih.mpr hrest⟩

theorem parseHeader_ok_iff {r : DnsHeader × Nat} :
    d.parseHeader = .ok r ↔ 12 ≤ d.rc ∧ r = (d.header, 12) := by
  simp only [parseHeader, bind_ok_iff, word_ok_iff]
  constructor
  · rintro ⟨_, ⟨-, rfl⟩, _, ⟨-, rfl⟩, _, ⟨-, rfl⟩, _, ⟨-, rfl⟩, _, ⟨-, rfl⟩, _, ⟨hin, rfl⟩, h⟩
    exact ⟨hin, (Except.ok.inj h).symm⟩
  · rintro ⟨hin, rfl⟩
    exact ⟨_, ⟨by omega, rfl⟩, _, ⟨by omega, rfl⟩, _, ⟨by omega, rfl⟩, _, ⟨by omega, rfl⟩,
      _, ⟨by omega, rfl⟩, _, ⟨by omega, rfl⟩, rfl⟩

/-! ### Answers -/

theorem answerSlot_ok_iff {index : Int} {k : Fin dnsRrNr} :
    answerSlot index = .ok k ↔ index = (k.val : Int) := by
  have hk := k.isLt
  unfold answerSlot
  split
  · rename_i h
    rw [Except.ok.injEq, Fin.ext_iff]
    show index.toNat = k.val ↔ _
    omega
  · rename_i h
    refine iff_of_false (by simp) fun heq => h ?_
    omega

theorem parseFixed_ok_iff {answer : DnsRr} {pos : Nat} {r : DnsRr × Nat} :
    d.parseFixed answer pos = .ok r ↔
      pos + 10 ≤ d.rc ∧ r = (d.fixed pos answer.data, pos + 10) := by
  simp only [parseFixed, bind_ok_iff, word_ok_iff, dwrd_ok_iff]
  constructor
  · rintro ⟨_, ⟨-, rfl⟩, _, ⟨-, rfl⟩, _, ⟨-, rfl⟩, _, ⟨hin, rfl⟩, h⟩
    exact ⟨hin, (Except.ok.inj h).symm⟩
  · rintro ⟨hin, rfl⟩
    exact ⟨_, ⟨by omega, rfl⟩, _, ⟨by omega, rfl⟩, _, ⟨by omega, rfl⟩, _, ⟨by omega, rfl⟩, rfl⟩

/-- What one turn of the loop over the answers does, once it has come to the fixed part. -/
def recorded (d : Datagram) (k : Fin dnsRrNr) (req : DnsRequest) (p : Nat) : DnsRequest :=
  let answer := d.fixed p (req.answer k).data
  if IsAddress answer then
    { req with
      answer := Function.update req.answer k
        { answer with data := Cells.slice d.buf ↑(p + 10) 4 }
      addrValid := if req.addrValid = -1 then k.val else req.addrValid }
  else { req with answer := Function.update req.answer k answer }

theorem isAddress_fixed {p : Nat} {data : List UInt8} :
    IsAddress (d.fixed p data) ↔ IsAddress (d.fixed p []) := Iff.rfl

theorem parseAnswer_ok_iff {i : Nat} {req : DnsRequest} {pos : Nat} {r : DnsRequest × Nat} :
    d.parseAnswer i req pos = .ok r ↔ ∃ (k : Fin dnsRrNr) (p : Nat), i = k.val ∧ d.Name pos p ∧
      (IsAddress (d.fixed p []) ∧ p + 14 ≤ d.rc ∧ r = (d.recorded k req p, p + 14) ∨
        ¬IsAddress (d.fixed p []) ∧ p + 10 ≤ d.rc ∧
          r = (d.recorded k req p, p + 10 + (d.fixed p []).rdatalen.toNat)) := by
  simp only [parseAnswer, bind_ok_iff, parseFixed_ok_iff, skipNameField_ok_iff,
    answerSlot_ok_iff]
  constructor
  · rintro ⟨p, hname, k, hk, _, ⟨hin, rfl⟩, h⟩
    refine ⟨k, p, by omega, hname, ?_⟩
    split at h
    · rename_i haddress
      obtain ⟨_, hlook, hr⟩ := bind_ok_iff.mp h
      have hdata : p + 10 + 4 ≤ d.rc := look_ok_iff.mp hlook
      refine .inl ⟨haddress, hdata, ?_⟩
      rw [← Except.ok.inj hr, recorded, if_pos (isAddress_fixed.mpr haddress), hk]
    · rename_i hother
      refine .inr ⟨hother, hin, ?_⟩
      rw [← Except.ok.inj h, recorded, if_neg (isAddress_fixed.not.mpr hother)]
      rfl
  · rintro ⟨k, p, rfl, hname, h⟩
    refine ⟨p, hname, k, rfl, _, ⟨?_, rfl⟩, ?_⟩
    · rcases h with ⟨-, hin, -⟩ | ⟨-, hin, -⟩ <;> omega
    · rcases h with ⟨haddress, hin, rfl⟩ | ⟨hother, -, rfl⟩
      · rw [recorded, if_pos (isAddress_fixed.mpr haddress)]
        refine (if_pos ?_).trans (bind_ok_iff.mpr ⟨(), look_ok_iff.mpr hin, rfl⟩)
        exact haddress
      · rw [recorded, if_neg (isAddress_fixed.not.mpr hother)]
        refine (if_neg ?_).trans rfl
        exact hother

/-- `addr_valid` before the answer `i`: -1 as long as none was an address, and else the index
of one that was. -/
def Valid (i : Nat) (found : Bool) (req : DnsRequest) : Prop :=
  if found = true then
    ∃ k : Fin dnsRrNr, k.val < i ∧ req.addrValid = k.val ∧ (req.answer k).rdatalen = 4
  else req.addrValid = -1

/-- **One answer** keeps it. -/
theorem Valid.recorded {k : Fin dnsRrNr} {found : Bool} {req : DnsRequest} (p : Nat)
    (h : Valid k found req) :
    Valid (k + 1) (found || decide (IsAddress (d.fixed p []))) (d.recorded k req p) := by
  unfold Valid at h ⊢
  unfold Datagram.recorded
  by_cases haddress : IsAddress (d.fixed p [])
  · simp only [isAddress_fixed, haddress, if_true, decide_true, Bool.or_true]
    cases found with
    | false =>
        simp only [Bool.false_eq_true, if_false] at h
        refine ⟨k, Nat.lt_succ_self _, ?_, ?_⟩
        · rw [if_pos h]
        · rw [Function.update_self]
          exact haddress.2
    | true =>
        obtain ⟨j, hj, hvalid, hlen⟩ := h
        refine ⟨j, by omega, ?_, ?_⟩
        · rw [if_neg (by omega)]
          exact hvalid
        · rw [Function.update_of_ne (Fin.ne_of_lt hj)]
          exact hlen
  · simp only [isAddress_fixed, haddress, if_false, decide_false, Bool.or_false]
    split at h
    · rename_i hfound
      obtain ⟨j, hj, hvalid, hlen⟩ := h
      rw [if_pos hfound]
      refine ⟨j, by omega, hvalid, ?_⟩
      rw [Function.update_of_ne (Fin.ne_of_lt hj)]
      exact hlen
    · rename_i hnone
      rw [if_neg hnone]
      exact h

theorem recorded_header {k : Fin dnsRrNr} {req : DnsRequest} {p : Nat} :
    (d.recorded k req p).header = req.header := by
  simp only [recorded]
  split <;> rfl

theorem recorded_answer_of_ne {req : DnsRequest} {j k : Fin dnsRrNr} {p : Nat} (hne : k ≠ j) :
    (d.recorded j req p).answer k = req.answer k := by
  simp only [recorded]
  split <;> exact Function.update_of_ne hne ..

theorem recorded_answer_self {k : Fin dnsRrNr} {req : DnsRequest} {p : Nat} :
    ∃ data, (d.recorded k req p).answer k = d.fixed p data := by
  simp only [recorded]
  split
  · exact ⟨Cells.slice d.buf ↑(p + 10) 4, Function.update_self ..⟩
  · exact ⟨(req.answer k).data, Function.update_self ..⟩

theorem answer_of_parse {i : Nat} {req : DnsRequest} {pos : Nat} {r : DnsRequest × Nat}
    (h : d.parseAnswer i req pos = .ok r) : ∃ (k : Fin dnsRrNr) (p : Nat), i = k.val ∧
      r.1 = d.recorded k req p ∧ d.Answer pos r.2 (decide (IsAddress (d.fixed p []))) := by
  obtain ⟨k, p, hk, hname, ⟨haddress, hin, rfl⟩ | ⟨hother, hin, rfl⟩⟩ := parseAnswer_ok_iff.mp h
  · refine ⟨k, p, hk, rfl, ?_⟩
    rw [decide_eq_true haddress]
    exact .address hname haddress hin
  · refine ⟨k, p, hk, rfl, ?_⟩
    rw [decide_eq_false hother]
    exact .other hname hother hin

theorem parse_of_answer {pos next : Nat} {address : Bool} (h : d.Answer pos next address) :
    ∃ p, address = decide (IsAddress (d.fixed p [])) ∧ ∀ (k : Fin dnsRrNr) (req : DnsRequest),
      d.parseAnswer k req pos = .ok (d.recorded k req p, next) := by
  cases h with
  | @address p hname haddress hin =>
      refine ⟨p, (decide_eq_true haddress).symm, fun k req => ?_⟩
      exact parseAnswer_ok_iff.mpr ⟨k, p, rfl, hname, .inl ⟨haddress, hin, rfl⟩⟩
  | @other p hname hother hin =>
      refine ⟨p, (decide_eq_false hother).symm, fun k req => ?_⟩
      exact parseAnswer_ok_iff.mpr ⟨k, p, rfl, hname, .inr ⟨hother, hin, rfl⟩⟩

/-- **The loop over the answers** that comes to its end had slots for all, and went through
answers. -/
theorem answers_of_parse (n : Nat) : ∀ {i : Nat} {found : Bool} {req req' : DnsRequest}
    {pos : Nat}, i ≤ dnsRrNr → Valid i found req → d.parseAnswers n i req pos = .ok req' →
    i + n ≤ dnsRrNr ∧ req'.header = req.header ∧
      ∃ more, d.Answers n pos more ∧ Valid (i + n) (found || more) req' := by
  induction n with
  | zero =>
      intro i found req req' pos hi hvalid h
      obtain rfl := Except.ok.inj h
      refine ⟨hi, rfl, false, .nil, ?_⟩
      rw [Bool.or_false]
      exact hvalid
  | succ n ih =>
      intro i found req req' pos hi hvalid h
      rw [parseAnswers, bind_ok_iff] at h
      obtain ⟨⟨req₁, next⟩, hparse, hrest⟩ := h
      obtain ⟨k, p, rfl, hreq, hanswer⟩ := answer_of_parse hparse
      subst hreq
      obtain ⟨hroom, hheader, more, hmore, hvalid'⟩ := ih k.isLt (hvalid.recorded p) hrest
      refine ⟨by omega, hheader.trans recorded_header, _, .cons hanswer hmore, ?_⟩
      rw [Bool.or_assoc] at hvalid'
      rw [Nat.add_comm n 1, ← Nat.add_assoc]
      exact hvalid'

/-- Where there are slots for all, and answers, the loop comes to its end. -/
theorem parse_of_answers {n pos : Nat} {more : Bool} (h : d.Answers n pos more) :
    ∀ {i : Nat} {found : Bool} {req : DnsRequest}, i + n ≤ dnsRrNr → Valid i found req →
    ∃ req', d.parseAnswers n i req pos = .ok req' ∧ req'.header = req.header ∧
      Valid (i + n) (found || more) req' := by
  induction h with
  | nil =>
      intro i found req _ hvalid
      refine ⟨req, rfl, rfl, ?_⟩
      rw [Bool.or_false]
      exact hvalid
  | @cons n pos next one more hfirst hrest ih =>
      intro i found req hroom hvalid
      obtain ⟨p, rfl, hparse⟩ := parse_of_answer hfirst
      have hi : i < dnsRrNr := by omega
      obtain ⟨req', hloop, hheader, hvalid'⟩ :=
        ih (i := i + 1) (by omega) (Valid.recorded (d := d) (k := ⟨i, hi⟩) p hvalid)
      refine ⟨req', ?_, hheader.trans recorded_header, ?_⟩
      · rw [parseAnswers, bind_ok_iff]
        exact ⟨_, hparse ⟨i, hi⟩ req, hloop⟩
      · rw [Bool.or_assoc] at hvalid'
        rw [Nat.add_comm n 1, ← Nat.add_assoc]
        exact hvalid'

end Datagram

/-! ### The table -/

/-- The update goes through where an answer was an address, and only there. -/
theorem tableUpdate_ok_iff {i : Nat} {found : Bool} {req : DnsRequest}
    (hvalid : Datagram.Valid i found req) (addr1 : List UInt8) (table : List DnsEntry) :
    (∃ r, tableUpdate req addr1 table = .ok r) ↔ found = true := by
  unfold Datagram.Valid at hvalid
  unfold tableUpdate
  simp only [Datagram.bind_ok_iff, Datagram.answerSlot_ok_iff]
  constructor
  · rintro ⟨_, k, hk, -⟩
    by_contra hnone
    rw [if_neg hnone] at hvalid
    omega
  · intro hfound
    rw [if_pos hfound] at hvalid
    obtain ⟨k, -, hk, hlen⟩ := hvalid
    have hfour : (req.answer k).rdatalen.toNat = 4 := by rw [hlen]; rfl
    cases hrenew : renewEntry req.host ((req.answer k).data.take 4 ++ addr1.drop 4) table with
    | some renewed => exact ⟨(.etOk, renewed), k, hk, by simp [hfour, hrenew, pure, Except.pure]⟩
    | none => exact ⟨_, k, hk, by simp only [hfour, hrenew, Nat.lt_irrefl, if_false]; rfl⟩

/-- **A reply is parsed and used safely** exactly when it is legible. -/
theorem dns_reply_iff (host addr1 : List UInt8) (table : List DnsEntry) (d : Datagram) :
    (∃ r, serverRequest host addr1 table d = .ok r) ↔ d.Legible := by
  have hfresh : Datagram.Valid 0 false { DnsRequest.fresh host with header := d.header } := rfl
  simp only [serverRequest, Datagram.parseReply, Datagram.bind_ok_iff,
    Datagram.parseHeader_ok_iff, Datagram.skipQuestions_ok_iff]
  constructor
  · rintro ⟨r, req, ⟨_, ⟨hheader, rfl⟩, pos, hquestions, hparse⟩, hupdate⟩
    obtain ⟨hroom, hkept, more, hanswers, hvalid⟩ :=
      Datagram.answers_of_parse _ (Nat.zero_le _) hfresh hparse
    rw [Nat.zero_add] at hroom
    refine ⟨hheader, hroom, pos, more, hquestions, hanswers, fun hpos => ?_⟩
    rw [hkept, if_pos hpos] at hupdate
    exact (tableUpdate_ok_iff hvalid addr1 table).mp ⟨r, hupdate⟩
  · rintro ⟨hheader, hfew, pos, more, hquestions, hanswers, haddress⟩
    obtain ⟨req, hparse, hkept, hvalid⟩ :=
      Datagram.parse_of_answers hanswers (i := 0) (by omega) hfresh
    have hreq : ∃ r, (if 0 < req.header.answersRRs.toNat then tableUpdate req addr1 table
        else pure (.etOk, table)) = .ok r := by
      rw [hkept]
      split
      · rename_i hpos
        exact (tableUpdate_ok_iff hvalid addr1 table).mpr (haddress hpos)
      · exact ⟨_, rfl⟩
    obtain ⟨r, hr⟩ := hreq
    exact ⟨r, req, ⟨_, ⟨hheader, rfl⟩, pos, hquestions, hparse⟩, hr⟩

/-- The datagram of these bytes, with nothing but zeros behind. -/
def Datagram.ofBytes (bytes : List UInt8) (h : bytes.length ≤ dnsRequestLen := by decide) :
    Datagram :=
  { buf := fun i => bytes.getD i.toNat 0, rc := bytes.length, fits := h }

/-- A header of `n` answers and no questions. -/
def replyHeader (n : UInt8) : List UInt8 := [0, 1, 0x81, 0x80, 0, 0, 0, n, 0, 0, 0, 0]

/-- An answer that is an alias, with nothing for its name. -/
def aliasAnswer : List UInt8 := [0xc0, 12, 0, 5, 0, 1, 0, 0, 0, 60, 0, 0]

/-- Of an empty datagram a byte is read; of six answers the sixth is written; and where the only
answer is no address, the answer -1 is used. -/
theorem reply_astray :
    serverRequest [] [] [] (.ofBytes []) = .error (.byte 0) ∧
      serverRequest [] [] [] (.ofBytes (replyHeader 6 ++ (List.replicate 6 aliasAnswer).flatten)) =
        .error (.answer 5) ∧
      serverRequest [] [] [] (.ofBytes (replyHeader 1 ++ aliasAnswer)) = .error (.answer (-1)) :=
  ⟨rfl, rfl, rfl⟩

end Awoke.Dns
