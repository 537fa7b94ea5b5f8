/-
What an update leaves of the table.

The update takes the first entry whose name the host's is the beginning of, the lookup the first
whose name it is.  Where the first such entry is another's, that one gets the address, and the
host gets none.
-/
import Awoke.Proofs.DnsReply

namespace Awoke.Dns

variable {d : Datagram} {host addr name buf : List UInt8} {table front back : List DnsEntry}
  {e e' : DnsEntry}

/-! ### Tables -/

/-- A name that has its place in an entry, with the zero behind it. -/
def IsName (name : List UInt8) : Prop := 0 ∉ name ∧ name.length < dnsNameSize

instance : DecidablePred IsName := fun _ => inferInstanceAs (Decidable (_ ∧ _))

/-- A table in which no name is there twice. -/
structure IsTable (table : List DnsEntry) : Prop where
  names : ∀ e ∈ table, IsName e.hostname
  addresses : ∀ e ∈ table, e.ipaddr.length = 4
  distinct : (table.map DnsEntry.hostname).Nodup

/-- The host has got the address, and nobody else has noticed. -/
structure Updated (host addr : List UInt8) (table table' : List DnsEntry) : Prop where
  isTable : IsTable table'
  found : ∀ buf, tableLookup host buf table' = (.etOk, addr ++ buf.drop 4)
  others : ∀ name ≠ host, ∀ buf, tableLookup name buf table' = tableLookup name buf table
  kept : ∀ e : DnsEntry, e.hostname ≠ host → (e ∈ table' ↔ e ∈ table)

/-- The first entry whose name begins like the host's. -/
def firstBegun (host : List UInt8) (table : List DnsEntry) : Option DnsEntry :=
  table.find? fun e => host <+: e.hostname

/-- This entry is the host's own, or it has the address already, and the host has it too. -/
def Meant (host addr : List UInt8) (table : List DnsEntry) : Prop :=
  ∀ e ∈ firstBegun host table,
    e.hostname = host ∨ e.ipaddr = addr ∧ { hostname := host, ipaddr := addr } ∈ table

instance : Decidable (Meant host addr table) :=
  inferInstanceAs (Decidable (∀ _ ∈ _, _ = _ ∨ _ = _ ∧ _ ∈ _))

/-! ### Lookups -/

theorem tableLookup_append (h : ∀ e ∈ front, e.hostname ≠ name) (buf : List UInt8)
    (back : List DnsEntry) :
    tableLookup name buf (front ++ back) = tableLookup name buf back := by
  induction front with
  | nil => rfl
  | cons e front ih =>
      rw [List.cons_append, tableLookup, if_neg (h e List.mem_cons_self)]
      exact ih fun e' he' => h e' (List.mem_cons_of_mem e he')

theorem tableLookup_middle (hsame : e'.hostname = e.hostname) (hname : name ≠ e.hostname) :
    tableLookup name buf (front ++ e' :: back) = tableLookup name buf (front ++ e :: back) := by
  induction front with
  | nil =>
      rw [List.nil_append, List.nil_append, tableLookup, tableLookup, hsame, if_neg hname.symm]
      rw [if_neg hname.symm]
  | cons x front ih =>
      rw [List.cons_append, List.cons_append, tableLookup, tableLookup, ih]

theorem IsTable.lookup (h : IsTable table) (he : e ∈ table) (buf : List UInt8) :
    tableLookup e.hostname buf table = (.etOk, e.ipaddr ++ buf.drop 4) := by
  obtain ⟨front, back, rfl⟩ := List.append_of_mem he
  have hdistinct := h.distinct
  rw [List.map_append, List.map_cons] at hdistinct
  have hfront : ∀ x ∈ front, x.hostname ≠ e.hostname := fun x hx heq =>
    (List.nodup_append.mp hdistinct).2.2 _ (List.mem_map_of_mem hx) _ List.mem_cons_self heq
  rw [tableLookup_append hfront, tableLookup, if_pos rfl,
    List.take_of_length_le (h.addresses e he).le]

theorem IsTable.mem_of_lookup (h : IsTable table)
    (hlookup : tableLookup name [] table = (.etOk, addr)) :
    { hostname := name, ipaddr := addr } ∈ table := by
  by_cases hmem : ∃ e ∈ table, e.hostname = name
  · obtain ⟨e, he, rfl⟩ := hmem
    rw [h.lookup he []] at hlookup
    have haddr : e.ipaddr = addr := by simpa using (Prod.mk.inj hlookup).2
    exact haddr ▸ he
  · have hnone : ∀ e ∈ table, e.hostname ≠ name := fun e he heq => hmem ⟨e, he, heq⟩
    have hmiss := tableLookup_append hnone [] []
    rw [List.append_nil, hlookup, tableLookup] at hmiss
    exact absurd (Prod.mk.inj hmiss).1 (by decide)

/-! ### Updates -/

/-- The table after an update with an address of four bytes. -/
def renewed (host addr : List UInt8) (table : List DnsEntry) : List DnsEntry :=
  (renewEntry host addr table).getD ({ hostname := host, ipaddr := addr } :: table)

theorem renewEntry_of_none (h : ∀ e ∈ table, ¬host <+: e.hostname) :
    renewEntry host addr table = none := by
  induction table with
  | nil => rfl
  | cons e table ih =>
      have hnot : ¬e.hostname.take host.length = host := fun heq =>
        h e List.mem_cons_self (List.prefix_iff_eq_take.mpr heq.symm)
      rw [renewEntry, if_neg hnot, ih fun e' he' => h e' (List.mem_cons_of_mem e he')]
      rfl

/-- And the first that does gets the address. -/
theorem renewEntry_of_first (hfront : ∀ x ∈ front, ¬host <+: x.hostname)
    (he : host <+: e.hostname) :
    renewEntry host addr (front ++ e :: back) =
      some (front ++ { e with ipaddr := addr } :: back) := by
  induction front with
  | nil =>
      rw [List.nil_append, renewEntry, if_pos (List.prefix_iff_eq_take.mp he).symm]
      split
      · rename_i heq
        rw [heq]
        rfl
      · rfl
  | cons x front ih =>
      have hnot : ¬x.hostname.take host.length = host := fun heq =>
        hfront x List.mem_cons_self (List.prefix_iff_eq_take.mpr heq.symm)
      rw [List.cons_append, renewEntry, if_neg hnot,
        ih fun y hy => hfront y (List.mem_cons_of_mem x hy)]
      rfl

/-- The first entry that begins so, and what the table is after the update. -/
theorem renewed_cases (host addr : List UInt8) (table : List DnsEntry) :
    firstBegun host table = none ∧ (∀ e ∈ table, ¬host <+: e.hostname) ∧
        renewed host addr table = { hostname := host, ipaddr := addr } :: table ∨
      ∃ front e back, firstBegun host table = some e ∧ table = front ++ e :: back ∧
        renewed host addr table = front ++ { e with ipaddr := addr } :: back := by
  cases hfirst : firstBegun host table with
  | none =>
      have hnone : ∀ e ∈ table, ¬host <+: e.hostname := by
        simpa [firstBegun] using hfirst
      refine .inl ⟨rfl, hnone, ?_⟩
      rw [renewed, renewEntry_of_none hnone]
      rfl
  | some e =>
      obtain ⟨he, front, back, rfl, hfront⟩ := List.find?_eq_some_iff_append.mp hfirst
      have hnot : ∀ x ∈ front, ¬host <+: x.hostname := by simpa using hfront
      have hbegun : host <+: e.hostname := by simpa using he
      refine .inr ⟨front, e, back, rfl, rfl, ?_⟩
      rw [renewed, renewEntry_of_first hnot hbegun]
      rfl

theorem IsTable.cons (h : IsTable table) (hname : IsName e.hostname)
    (haddr : e.ipaddr.length = 4) (hnew : ∀ x ∈ table, x.hostname ≠ e.hostname) :
    IsTable (e :: table) where
  names := List.forall_mem_cons.mpr ⟨hname, h.names⟩
  addresses := List.forall_mem_cons.mpr ⟨haddr, h.addresses⟩
  distinct := by
    rw [List.map_cons, List.nodup_cons]
    refine ⟨fun hmem => ?_, h.distinct⟩
    obtain ⟨x, hx, heq⟩ := List.mem_map.mp hmem
    exact hnew x hx heq

theorem IsTable.middle (h : IsTable (front ++ e :: back)) (haddr : addr.length = 4) :
    IsTable (front ++ { e with ipaddr := addr } :: back) where
  names := by
    have hnames := h.names
    simp only [List.forall_mem_append, List.forall_mem_cons] at hnames ⊢
    exact hnames
  addresses := by
    have haddresses := h.addresses
    simp only [List.forall_mem_append, List.forall_mem_cons] at haddresses ⊢
    exact ⟨haddresses.1, haddr, haddresses.2.2⟩
  distinct := by
    have hdistinct := h.distinct
    rw [List.map_append, List.map_cons] at hdistinct ⊢
    exact hdistinct

theorem Updated.same (htable : IsTable table)
    (hmem : { hostname := host, ipaddr := addr } ∈ table) : Updated host addr table table where
  isTable := htable
  found := htable.lookup hmem
  others _ _ _ := rfl
  kept _ _ := Iff.rfl

theorem Updated.added (htable : IsTable table) (hhost : IsName host) (haddr : addr.length = 4)
    (hnew : ∀ e ∈ table, e.hostname ≠ host) :
    Updated host addr table ({ hostname := host, ipaddr := addr } :: table) := by
  have htable' := htable.cons (e := { hostname := host, ipaddr := addr }) hhost haddr hnew
  refine ⟨htable', htable'.lookup List.mem_cons_self, fun name hname buf => ?_,
    fun e he => ?_⟩
  · rw [tableLookup, if_neg hname.symm]
  · rw [List.mem_cons, or_iff_right]
    rintro rfl
    exact he rfl

theorem Updated.middle (htable : IsTable (front ++ e :: back)) (haddr : addr.length = 4)
    (he : e.hostname = host) :
    Updated host addr (front ++ e :: back) (front ++ { e with ipaddr := addr } :: back) := by
  subst he
  have htable' := htable.middle haddr
  have hmem : { e with ipaddr := addr } ∈ front ++ { e with ipaddr := addr } :: back :=
    List.mem_append_right front List.mem_cons_self
  refine ⟨htable', htable'.lookup hmem, fun name hname buf => ?_, fun x hx => ?_⟩
  · exact tableLookup_middle rfl hname
  · have hnot : x ≠ e := fun heq => hx (heq ▸ rfl)
    have hnot' : x ≠ { e with ipaddr := addr } := fun heq => hx (heq ▸ rfl)
    simp only [List.mem_append, List.mem_cons, hnot, hnot', false_or]

/-- **The update changes the host's entry only** exactly if the first that begins so is its own,
but for an update that changes nothing. -/
theorem renewed_updated_iff (htable : IsTable table) (hhost : IsName host)
    (haddr : addr.length = 4) :
    Updated host addr table (renewed host addr table) ↔ Meant host addr table := by
  rcases renewed_cases host addr table with
    ⟨hnone, hnew, heq⟩ | ⟨front, e, back, hfirst, rfl, heq⟩
  · rw [heq]
    refine iff_of_true (.added htable hhost haddr fun x hx hsame => ?_) fun e he => ?_
    · exact hnew x hx (hsame ▸ List.prefix_refl host)
    · rw [hnone] at he
      exact absurd he (Option.not_mem_none e)
  · have he : e ∈ front ++ e :: back := List.mem_append_right front List.mem_cons_self
    rw [heq]
    constructor
    · intro h x hx
      obtain rfl := Option.mem_some_iff.mp (hfirst ▸ hx)
      by_cases hsame : e.hostname = host
      · exact .inl hsame
      · -- the lookup of the other name still finds what it found, which is now the address
        have hmem : { e with ipaddr := addr } ∈ front ++ { e with ipaddr := addr } :: back :=
          List.mem_append_right front List.mem_cons_self
        have hlookup := h.others e.hostname hsame []
        rw [htable.lookup he []] at hlookup
        have hlookup' := h.isTable.lookup hmem []
        have haddress : e.ipaddr = addr := by
          rw [hlookup] at hlookup'
          simpa using (Prod.mk.inj hlookup').2
        have hentry : { e with ipaddr := addr } = e := haddress ▸ rfl
        have hfound := h.found []
        rw [hentry] at hfound
        refine .inr ⟨haddress, ?_⟩
        exact htable.mem_of_lookup (hfound.trans (by rw [List.drop_nil, List.append_nil]))
    · intro h
      rcases h e hfirst with hsame | ⟨rfl, hhas⟩
      · exact .middle htable haddr hsame
      · exact .same htable hhas

/-! ### Replies -/

namespace Datagram

/-- So many answers, and what the first of them that is an address holds. -/
inductive FirstAddress (d : Datagram) : Nat → Nat → List UInt8 → Prop
  | here {n pos p : Nat} {more : Bool} (name : d.Name pos p) (h : IsAddress (d.fixed p []))
      (hin : p + 14 ≤ d.rc) (rest : d.Answers n (p + 14) more) :
      FirstAddress d (n + 1) pos (Cells.slice d.buf ↑(p + 10) 4)
  | later {n pos next : Nat} {addr : List UInt8} (first : d.Answer pos next false)
      (rest : FirstAddress d n next addr) : FirstAddress d (n + 1) pos addr

/-- A reply of at most five answers, with an address among them. -/
structure Resolves (d : Datagram) (addr : List UInt8) : Prop where
  header : 12 ≤ d.rc
  few : d.header.answersRRs.toNat ≤ dnsRrNr
  body : ∃ pos, d.Questions d.header.questions.toNat 12 pos ∧
    d.FirstAddress d.header.answersRRs.toNat pos addr

/-- The answer `addr_valid` points to is an address of four bytes, and this one. -/
structure Answered (req : DnsRequest) (k : Fin dnsRrNr) (addr : List UInt8) : Prop where
  addrValid : req.addrValid = k.val
  rdatalen : (req.answer k).rdatalen = 4
  data : (req.answer k).data = addr
  length : addr.length = 4

theorem recorded_addrValid {req : DnsRequest} {k : Fin dnsRrNr} {p : Nat} :
    (d.recorded k req p).addrValid =
      if IsAddress (d.fixed p []) ∧ req.addrValid = -1 then (k.val : Int) else req.addrValid := by
  simp only [Datagram.recorded, isAddress_fixed]
  by_cases haddress : IsAddress (d.fixed p [])
  · simp only [haddress, if_true, true_and]
  · simp only [haddress, if_false, false_and]

/-- A later answer does not change which it is. -/
theorem Answered.recorded {req : DnsRequest} {j k : Fin dnsRrNr} (h : Answered req k addr)
    (hlater : k < j) (p : Nat) : Answered (d.recorded j req p) k addr := by
  have hkept : (d.recorded j req p).answer k = req.answer k :=
    recorded_answer_of_ne (Fin.ne_of_lt hlater)
  have hfound : ¬req.addrValid = -1 := by
    rw [h.addrValid]
    omega
  constructor
  · rw [recorded_addrValid, if_neg fun hfirst => hfound hfirst.2]
    exact h.addrValid
  · rw [hkept]
    exact h.rdatalen
  · rw [hkept]
    exact h.data
  · exact h.length

theorem answered_first {req : DnsRequest} {k : Fin dnsRrNr} {p : Nat}
    (hnone : req.addrValid = -1) (haddress : IsAddress (d.fixed p [])) :
    Answered (d.recorded k req p) k (Cells.slice d.buf ↑(p + 10) 4) := by
  have hanswer : (d.recorded k req p).answer k =
      { d.fixed p (req.answer k).data with data := Cells.slice d.buf ↑(p + 10) 4 } := by
    simp only [Datagram.recorded, isAddress_fixed, haddress, if_true]
    exact Function.update_self ..
  constructor
  · rw [recorded_addrValid, if_pos ⟨haddress, hnone⟩]
  · rw [hanswer]
    exact haddress.2
  · rw [hanswer]
  · exact Cells.slice_length ..

theorem recorded_host {req : DnsRequest} {k : Fin dnsRrNr} {p : Nat} :
    (d.recorded k req p).host = req.host := by
  simp only [Datagram.recorded]
  split <;> rfl

/-- The loop goes on over the answers behind the address. -/
theorem Answers.keep {n pos : Nat} {more : Bool} (h : d.Answers n pos more) :
    ∀ {i : Nat} {k : Fin dnsRrNr} {req : DnsRequest}, i + n ≤ dnsRrNr → k.val < i →
    Answered req k addr → ∃ req', d.parseAnswers n i req pos = .ok req' ∧
      req'.host = req.host ∧ Answered req' k addr := by
  induction h with
  | nil => exact fun _ _ hanswered => ⟨_, rfl, rfl, hanswered⟩
  | cons hfirst hrest ih =>
      intro i k req hroom hlater hanswered
      obtain ⟨p, -, hparse⟩ := parse_of_answer hfirst
      have hi : i < dnsRrNr := by omega
      obtain ⟨req', hloop, hhost, hanswered'⟩ :=
        ih (i := i + 1) (by omega) (by omega) (hanswered.recorded (d := d) (j := ⟨i, hi⟩) hlater p)
      refine ⟨req', ?_, hhost.trans recorded_host, hanswered'⟩
      rw [parseAnswers, bind_ok_iff]
      exact ⟨_, hparse ⟨i, hi⟩ req, hloop⟩

/-- **The loop over the answers** remembers the first that is an address. -/
theorem FirstAddress.parse {n pos : Nat} (h : d.FirstAddress n pos addr) :
    ∀ {i : Nat} {req : DnsRequest}, i + n ≤ dnsRrNr → req.addrValid = -1 →
    ∃ req' k, d.parseAnswers n i req pos = .ok req' ∧
      req'.host = req.host ∧ Answered req' k addr := by
  induction h with
  | @here n pos p more hname haddress hin hrest =>
      intro i req hroom hnone
      have hi : i < dnsRrNr := by omega
      have hparse := parseAnswer_ok_iff.mpr
        ⟨⟨i, hi⟩, p, rfl, hname, .inl ⟨haddress, hin, (rfl : _ = (d.recorded _ req p, _))⟩⟩
      obtain ⟨req', hloop, hhost, hanswered⟩ :=
        hrest.keep (i := i + 1) (k := ⟨i, hi⟩) (by omega) (Nat.lt_succ_self i)
          (answered_first hnone haddress)
      refine ⟨req', _, ?_, hhost.trans recorded_host, hanswered⟩
      rw [parseAnswers, bind_ok_iff]
      exact ⟨_, hparse, hloop⟩
  | @later n pos next addr hfirst hrest ih =>
      intro i req hroom hnone
      obtain ⟨p, hother, hparse⟩ := parse_of_answer hfirst
      have hi : i < dnsRrNr := by omega
      have hstill : (d.recorded ⟨i, hi⟩ req p).addrValid = -1 := by
        rw [recorded_addrValid, if_neg fun h => of_decide_eq_false hother.symm h.1]
        exact hnone
      obtain ⟨req', k, hloop, hhost, hanswered⟩ := ih (i := i + 1) (by omega) hstill
      refine ⟨req', k, ?_, hhost.trans recorded_host, hanswered⟩
      rw [parseAnswers, bind_ok_iff]
      exact ⟨_, hparse ⟨i, hi⟩ req, hloop⟩

end Datagram

/-- What `dns_table_update` does with an address of four bytes. -/
theorem tableUpdate_answered {req : DnsRequest} {k : Fin dnsRrNr}
    (h : Datagram.Answered req k addr) (addr1 : Vector UInt8 4) :
    tableUpdate req addr1.toList table = .ok (.etOk, renewed req.host addr table) := by
  have hfour : (req.answer k).rdatalen.toNat = 4 := by
    rw [h.rdatalen]
    rfl
  have htake : addr.take 4 = addr := List.take_of_length_le h.length.le
  have hdrop : addr1.toList.drop 4 = [] := List.drop_of_length_le addr1.length_toList.le
  rw [tableUpdate, Datagram.bind_ok_iff]
  refine ⟨k, Datagram.answerSlot_ok_iff.mpr h.addrValid, ?_⟩
  simp only [hfour, h.data, htake, hdrop, List.append_nil, Nat.sub_self, List.replicate_zero,
    Nat.lt_irrefl, if_false, renewed]
  cases renewEntry req.host addr table <;> rfl

theorem Datagram.Resolves.answered (h : d.Resolves addr) (host : List UInt8) :
    ∃ req k, d.parseReply (.fresh host) = .ok req ∧ req.host = host ∧ Answered req k addr := by
  obtain ⟨hheader, hfew, pos, hquestions, hfirst⟩ := h
  have hfresh : ({ DnsRequest.fresh host with header := d.header } : DnsRequest).addrValid = -1 :=
    rfl
  obtain ⟨req, k, hparse, hhost, hanswered⟩ := hfirst.parse (i := 0) (by omega) hfresh
  refine ⟨req, k, ?_, hhost, hanswered⟩
  simp only [parseReply, bind_ok_iff, parseHeader_ok_iff, skipQuestions_ok_iff]
  exact ⟨_, ⟨hheader, rfl⟩, pos, hquestions, hparse⟩

/-- **An address for the host** changes its entry only, exactly if the first entry that begins
with its name is its own. -/
theorem table_update_iff {req : DnsRequest} {k : Fin dnsRrNr} (htable : IsTable table)
    (hhost : IsName req.host) (hreply : Datagram.Answered req k addr) (addr1 : Vector UInt8 4) :
    (∃ table', tableUpdate req addr1.toList table = .ok (.etOk, table') ∧
      Updated req.host addr table table') ↔ Meant req.host addr table := by
  rw [← renewed_updated_iff htable hhost hreply.length, tableUpdate_answered hreply]
  constructor
  · rintro ⟨table', heq, h⟩
    obtain rfl := (Prod.mk.inj (Except.ok.inj heq)).2
    exact h
  · exact fun h => ⟨_, rfl, h⟩

/-- A reply with an alias and the address 1.2.3.4. -/
def addressReply : Datagram :=
  .ofBytes (replyHeader 2 ++ aliasAnswer ++ [0xc0, 12, 0, 1, 0, 1, 0, 0, 0, 60, 0, 4, 1, 2, 3, 4])

theorem addressReply_resolves : addressReply.Resolves [1, 2, 3, 4] where
  header := by decide
  few := by decide
  body := by
    have hother : addressReply.Answer 12 24 false :=
      .other (p := 14) (.reference (by decide) (by decide)) (by decide) (by decide)
    have haddress : addressReply.FirstAddress 1 24 [1, 2, 3, 4] :=
      .here (p := 26) (.reference (by decide) (by decide)) (by decide) (by decide) .nil
    exact ⟨12, .nil, .later hother haddress⟩

/-- The entry of `a` is in front of that of `ab`. -/
theorem table_update_iff_own :
    ∃ req, addressReply.parseReply (.fresh [97]) = .ok req ∧ ∃ table',
      tableUpdate req [0, 0, 0, 0] [⟨[97], [9, 9, 9, 9]⟩, ⟨[97, 98], [8, 8, 8, 8]⟩] =
        .ok (.etOk, table') ∧
      Updated req.host [1, 2, 3, 4] [⟨[97], [9, 9, 9, 9]⟩, ⟨[97, 98], [8, 8, 8, 8]⟩] table' := by
  obtain ⟨req, k, hparse, hhost, hanswered⟩ := addressReply_resolves.answered [97]
  refine ⟨req, hparse, ?_⟩
  refine (table_update_iff ⟨by decide, by decide, by decide⟩ ?_ hanswered
    #v[0, 0, 0, 0]).mpr ?_
  · rw [hhost]
    decide
  · rw [hhost]
    decide

/-- The address of `a` goes to `ab`. -/
theorem table_update_astray :
    ∃ req, addressReply.parseReply (.fresh [97]) = .ok req ∧ ¬∃ table',
      tableUpdate req [0, 0, 0, 0] [⟨[97, 98], [8, 8, 8, 8]⟩] = .ok (.etOk, table') ∧
        Updated req.host [1, 2, 3, 4] [⟨[97, 98], [8, 8, 8, 8]⟩] table' := by
  obtain ⟨req, k, hparse, hhost, hanswered⟩ := addressReply_resolves.answered [97]
  refine ⟨req, hparse, ?_⟩
  rintro ⟨table', hrun, h⟩
  have hab : tableUpdate req [0, 0, 0, 0] [⟨[97, 98], [8, 8, 8, 8]⟩] =
      .ok (.etOk, renewed req.host [1, 2, 3, 4] [⟨[97, 98], [8, 8, 8, 8]⟩]) :=
    tableUpdate_answered hanswered #v[0, 0, 0, 0]
  obtain rfl := (Prod.mk.inj (Except.ok.inj (hab.symm.trans hrun))).2
  have hfound := h.found []
  rw [hhost] at hfound
  exact absurd hfound (by decide)

end Awoke.Dns
