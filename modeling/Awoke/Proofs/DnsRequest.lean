/-
What a query says.

Every host becomes its labels, but the number of questions is one whatever the number of hosts,
and the type and the class are pushed once, behind the last of them.  So a query is what it should
be for one host, and for no other number of them.
-/
import Awoke.Dns.Request
import Awoke.Proofs.DnsNames
import Awoke.Proofs.RyMessage

namespace Awoke.Dns

open Cells (Pen Lies lies_cons lies_append lies_write)
open Ry (pushSafe foldl_pushSafe)

/-! ### Hosts -/

/-- The labels with dots between them. -/
def dotted (labels : List Label) : List UInt8 := List.intercalate [46] (labels.map Label.text)

/-- The name of a host. -/
structure HostName where
  labels : List Label
  ne_nil : labels ≠ []
  plain : ∀ l ∈ labels, 46 ∉ l.text ∧ 0 ∉ l.text
  short : (dotted labels).length ≤ 253

/-- The name as it is written. -/
def HostName.text (host : HostName) : List UInt8 := dotted host.labels

/-- The name as it is sent. -/
def HostName.encoded (host : HostName) : EncodedName := ⟨host.labels, .root⟩

/-- The query asks for these hosts: their number is in the header, each has a question with type A
and class IN, and over the questions one comes to the end of the query. -/
structure Asks (hosts : List HostName) (req : DnsQuery) : Prop where
  count : (htons (pullWord req.originalBuf 4)).toNat = hosts.length
  body : Cells.slice req.originalBuf 12 (req.originalLen - 12).toNat =
    hosts.flatMap fun host => host.encoded.wire ++ pushHtons dnsTA ++ pushHtons dnsClass
  walk : ∃ d : Datagram, d.buf = req.originalBuf ∧ (d.rc : Int) = req.originalLen ∧
    d.skipQuestions hosts.length 12 = .ok d.rc

/-! ### Labels -/

variable {l : Label} {ls : List Label} {name rest : List UInt8}

theorem dotted_cons (hne : ls ≠ []) : dotted (l :: ls) = l.text ++ 46 :: dotted ls := by
  have hmap : ls.map Label.text ≠ [] := by simpa using hne
  rw [dotted, List.map_cons, List.intercalate_cons_of_ne_nil hmap, List.append_assoc]
  rfl

theorem dotted_singleton : dotted [l] = l.text := List.intercalate_singleton

theorem strchrDot_append (h : 46 ∉ name) (rest : List UInt8) :
    strchrDot (name ++ 46 :: rest) = some name.length := by
  have hnone : name.findIdx? (fun c => decide (c = 46)) = none := by
    rw [List.findIdx?_eq_none_iff]
    exact fun c hc => decide_eq_false fun heq => h (heq ▸ hc)
  rw [strchrDot, List.findIdx?_append, hnone, List.findIdx?_cons]
  simp

theorem strchrDot_none (h : 46 ∉ name) : strchrDot name = none :=
  List.findIdx?_eq_none_iff.mpr fun _ hc => decide_eq_false fun heq => h (heq ▸ hc)

theorem labelPieces_last (h : 46 ∉ l.text) : (labelPieces l.text).flatten = l.wire ++ [0] := by
  have hnone := strchrDot_none h
  rw [labelPieces]
  split
  · rename_i hsome
    rw [hnone] at hsome
    exact absurd hsome (by simp)
  · simp only [Label.length_toNat, List.take_length]
    rfl

theorem labelPieces_cons (h : 46 ∉ l.text) :
    (labelPieces (l.text ++ 46 :: rest)).flatten = l.wire ++ (labelPieces rest).flatten := by
  have hsome := strchrDot_append h rest
  rw [labelPieces]
  split
  · rename_i p hp
    obtain rfl := Option.some_inj.mp (hsome.symm.trans hp)
    have hdrop : (l.text ++ 46 :: rest).drop (l.text.length + 1) = rest := by
      rw [← List.drop_drop, List.drop_left]
      rfl
    simp only [Label.length_toNat, hdrop, List.take_left]
    rfl
  · rename_i hnone
    rw [hsome] at hnone
    exact absurd hnone (by simp)

/-- **The labels** of a host are pushed as they are sent. -/
theorem labelPieces_dotted : ∀ {ls : List Label}, ls ≠ [] → (∀ l ∈ ls, 46 ∉ l.text) →
    (labelPieces (dotted ls)).flatten = ls.flatMap Label.wire ++ [0]
  | [], hne, _ => absurd rfl hne
  | [l], _, h => by
      rw [dotted_singleton, labelPieces_last (h l List.mem_cons_self), List.flatMap_singleton]
  | l :: l' :: ls, _, h => by
      have ih := labelPieces_dotted (List.cons_ne_nil l' ls)
        fun x hx => h x (List.mem_cons_of_mem l hx)
      rw [dotted_cons (List.cons_ne_nil l' ls), labelPieces_cons (h l List.mem_cons_self), ih,
        List.flatMap_cons (x := l), List.append_assoc]

theorem wire_length : ∀ {ls : List Label}, ls ≠ [] →
    (ls.flatMap Label.wire).length = (dotted ls).length + 1
  | [], hne => absurd rfl hne
  | [l], _ => by
      rw [dotted_singleton, List.flatMap_singleton]
      rfl
  | l :: l' :: ls, _ => by
      have ih := wire_length (List.cons_ne_nil l' ls)
      rw [dotted_cons (List.cons_ne_nil l' ls), List.flatMap_cons (x := l), List.length_append,
        List.length_append, List.length_cons, ih, Label.wire, List.length_cons]
      omega

theorem zero_notMem_dotted : ∀ {ls : List Label}, (∀ l ∈ ls, 0 ∉ l.text) → 0 ∉ dotted ls
  | [], _ => List.not_mem_nil
  | [l], h => by
      rw [dotted_singleton]
      exact h l List.mem_cons_self
  | l :: l' :: ls, h => by
      have ih := zero_notMem_dotted fun x hx => h x (List.mem_cons_of_mem l hx)
      rw [dotted_cons (List.cons_ne_nil l' ls), List.mem_append, List.mem_cons]
      rintro (hl | hzero | hrest)
      · exact h l List.mem_cons_self hl
      · exact absurd hzero (by decide)
      · exact ih hrest

/-! ### Questions -/

/-- Hosts for which there is room are added behind one another. -/
theorem foldl_hostnameAdd (texts : List (List UInt8)) : ∀ req : DnsQuery,
    req.host.length + texts.length ≤ dnsRrNr →
    texts.foldl requestHostnameAdd req = { req with host := req.host ++ texts } := by
  induction texts with
  | nil =>
      intro req _
      rw [List.foldl_nil, List.append_nil]
  | cons text texts ih =>
      intro req hroom
      rw [List.length_cons] at hroom
      have hadd : requestHostnameAdd req text = { req with host := req.host ++ [text] } :=
        if_neg (by omega)
      have hroom' : (req.host ++ [text]).length + texts.length ≤ dnsRrNr := by
        rw [List.length_append, List.length_singleton]
        omega
      rw [List.foldl_cons, hadd, ih _ hroom', List.append_assoc, List.singleton_append]

theorem string_questionOf {text : List UInt8} (hzero : 0 ∉ text)
    (hlen : text.length < dnsNameSize) (type class_ : UInt16) :
    (questionOf text ⟨List.replicate dnsNameSize 0, type, class_⟩).string = text := by
  obtain ⟨n, hn⟩ := Nat.exists_eq_add_of_lt hlen
  have hrest : (List.replicate dnsNameSize (0 : UInt8)).drop text.length =
      0 :: List.replicate n 0 := by
    rw [List.drop_replicate, hn, ← List.replicate_succ]
    congr 1
    omega
  have htext : ∀ c ∈ text, decide (c ≠ 0) = true := fun c hc =>
    decide_eq_true fun heq => hzero (heq ▸ hc)
  rw [DnsQuestion.string, questionOf, hrest, List.takeWhile_append_of_pos htext,
    List.takeWhile_cons_of_neg (by decide), List.append_nil]

/-! ### Pushing -/

/-- All that is pushed, in its order. -/
def queryPieces (transactionId : Int) (req : DnsQuery) : List (List UInt8) :=
  headerPieces (requestPackageHeader transactionId req).2.header ++
    (((requestPackageQuestion req).question.take req.host.length).flatMap
      fun question => labelPieces question.string) ++
    [pushWord (htons dnsTypeIpv4), pushWord (htons dnsClass)]

theorem requestPackage_eq (transactionId : Int) (req : DnsQuery) :
    let pen := (queryPieces transactionId req).foldl (pushSafe dnsRequestLen) ⟨req.originalBuf, 0⟩
    (requestPackage transactionId req).2.originalBuf = pen.mem ∧
      (requestPackage transactionId req).2.originalLen = pen.pos := by
  simp only [queryPieces, List.foldl_append, List.foldl_flatMap]
  exact ⟨rfl, rfl⟩

/-- What was pushed before stays. -/
theorem foldl_pushSafe_before {stop i : Int} (pieces : List (List UInt8)) : ∀ {p : Pen UInt8},
    i < p.pos → (pieces.foldl (pushSafe stop) p).mem i = p.mem i := by
  induction pieces with
  | nil => exact fun _ => rfl
  | cons bytes pieces ih =>
      intro p hi
      have hkept : (pushSafe stop p bytes).mem i = p.mem i := by
        rw [pushSafe]
        split
        · exact Cells.write_outside _ _ _ (.inl hi)
        · rfl
      have hpos : (pushSafe stop p bytes).pos = p.pos + bytes.length := by
        rw [pushSafe]
        split <;> rfl
      rw [List.foldl_cons, ih (by omega), hkept]

/-- **The number of questions** is one in any case. -/
theorem package_count (transactionId : Int) (req : DnsQuery) :
    htons (pullWord (requestPackage transactionId req).2.originalBuf 4) = 1 := by
  have hheader := foldl_pushSafe
    (headerPieces (requestPackageHeader transactionId req).2.header) ⟨req.originalBuf, 0⟩
    (by decide : (0 : Int) + 12 ≤ dnsRequestLen)
  have hlies := lies_write req.originalBuf 0
    (headerPieces (requestPackageHeader transactionId req).2.header)
  have hcount : Cells.slice (Cells.write req.originalBuf 0
      (headerPieces (requestPackageHeader transactionId req).2.header).flatten) 4 2 =
      pushHtons 1 := hlies.2.2.1.trans (by decide : pushWord (htons dnsOneQuestion) = pushHtons 1)
  rw [htons_pullWord_iff, (requestPackage_eq transactionId req).1, queryPieces,
    List.append_assoc, List.foldl_append, hheader]
  refine (Cells.slice_congr fun k hk => ?_).trans hcount
  exact foldl_pushSafe_before _ (by omega : (4 : Int) + k < 0 + 12)

/-! ### One query -/

/-- A query with these hosts added. -/
def askFor (hosts : List HostName) : DnsQuery :=
  (hosts.map HostName.text).foldl requestHostnameAdd .fresh

theorem askFor_eq {hosts : List HostName} (hfew : hosts.length ≤ dnsRrNr) :
    askFor hosts = { DnsQuery.fresh with host := hosts.map HostName.text } := by
  have hroom : DnsQuery.fresh.host.length + (hosts.map HostName.text).length ≤ dnsRrNr := by
    rw [List.length_map]
    exact (Nat.zero_add _).symm ▸ hfew
  rw [askFor, foldl_hostnameAdd _ _ hroom]
  rfl

/-- The labels of a host are its name without the end. -/
theorem HostName.labelPieces_text (host : HostName) :
    (labelPieces host.text).flatten = host.encoded.wire :=
  labelPieces_dotted host.ne_nil fun l hl => (host.plain l hl).1

theorem HostName.wire_length (host : HostName) : host.encoded.wire.length ≤ 255 := by
  have hlabels := Dns.wire_length host.ne_nil
  have hshort := host.short
  have hwire : host.encoded.wire = host.labels.flatMap Label.wire ++ [0] := rfl
  rw [hwire, List.length_append, List.length_singleton]
  omega

/-- The strings of the questions are the hosts. -/
theorem questions_string {hosts : List HostName} (hfew : hosts.length ≤ dnsRrNr) :
    ((requestPackageQuestion (askFor hosts)).question.take (askFor hosts).host.length).map
      DnsQuestion.string = hosts.map HostName.text := by
  have hstring : ∀ host : HostName,
      (questionOf host.text ⟨List.replicate dnsNameSize 0, 0, 0⟩).string = host.text := by
    intro host
    have hshort : host.text.length < dnsNameSize := by
      have := host.short
      rw [HostName.text, dnsNameSize]
      omega
    exact string_questionOf (zero_notMem_dotted fun l hl => (host.plain l hl).2) hshort 0 0
  have hlen : hosts.length ≤ (List.replicate dnsRrNr
      (⟨List.replicate dnsNameSize 0, 0, 0⟩ : DnsQuestion)).length := by
    rw [List.length_replicate]
    exact hfew
  rw [askFor_eq hfew, requestPackageQuestion, DnsQuery.fresh]
  refine List.ext_getElem ?_ fun i hi hi' => ?_
  · simp [hfew]
  · simp only [List.length_map] at hi'
    simp only [List.getElem_map, List.getElem_take]
    rw [List.getElem_append_left (by simp; omega)]
    simp only [List.getElem_zipWith, List.getElem_map, List.getElem_replicate]
    exact hstring hosts[i]

/-- What is behind the header of a query: the names, and one type and class. -/
def queryBody (hosts : List HostName) : List UInt8 :=
  (hosts.flatMap fun host => host.encoded.wire) ++ (pushHtons dnsTA ++ pushHtons dnsClass)

/-- **What is pushed** for hosts that have questions. -/
theorem queryPieces_flatten {hosts : List HostName} (hfew : hosts.length ≤ dnsRrNr)
    (transactionId : Int) :
    (queryPieces transactionId (askFor hosts)).flatten =
      (headerPieces (requestPackageHeader transactionId (askFor hosts)).2.header).flatten ++
        queryBody hosts := by
  have hlabels : ((((requestPackageQuestion (askFor hosts)).question.take
      (askFor hosts).host.length).flatMap fun question => labelPieces question.string).flatten) =
      hosts.flatMap fun host => host.encoded.wire := by
    rw [← List.flatMap_map DnsQuestion.string, questions_string hfew, List.flatMap_map,
      ← List.flatMap_id, List.flatMap_assoc]
    refine List.flatMap_congr fun host _ => ?_
    rw [List.flatMap_id, host.labelPieces_text]
  rw [queryPieces, List.flatten_append, List.flatten_append, hlabels, List.append_assoc]
  rfl

/-- **A query that fits** is its header and this body. -/
theorem package_slice {hosts : List HostName} (hfew : hosts.length ≤ dnsRrNr)
    (hfits : 12 + (queryBody hosts).length ≤ dnsRequestLen) (transactionId : Int) :
    let req := (requestPackage transactionId (askFor hosts)).2
    req.originalLen = 12 + (queryBody hosts).length ∧
      Cells.slice req.originalBuf 12 (queryBody hosts).length = queryBody hosts := by
  intro req
  have hpieces := queryPieces_flatten hfew transactionId
  have htwelve : (headerPieces
      (requestPackageHeader transactionId (askFor hosts)).2.header).flatten.length = 12 := rfl
  have hlen := congrArg List.length hpieces
  rw [List.length_append, htwelve] at hlen
  have hin : (0 : Int) + (queryPieces transactionId (askFor hosts)).flatten.length ≤
      dnsRequestLen := by omega
  have hput := foldl_pushSafe (queryPieces transactionId (askFor hosts))
    ⟨(askFor hosts).originalBuf, 0⟩ hin
  obtain ⟨hbuf, hpos⟩ := requestPackage_eq transactionId (askFor hosts)
  rw [hput] at hbuf hpos
  refine ⟨?_, ?_⟩
  · rw [hpos, Pen.put_pos, hlen]
    exact (Int.zero_add _).trans (Int.natCast_add 12 _)
  · have hlies := lies_write (askFor hosts).originalBuf 0
      [(headerPieces (requestPackageHeader transactionId (askFor hosts)).2.header).flatten,
        queryBody hosts]
    rw [List.flatten_cons, List.flatten_singleton, ← hpieces] at hlies
    rw [hbuf]
    exact hlies.2.1

/-- The query for one host is what it should be. -/
theorem asks_one (transactionId : Int) (host : HostName) :
    Asks [host] (requestPackage transactionId (askFor [host])).2 := by
  have hbody : queryBody [host] = host.encoded.wire ++ (pushHtons dnsTA ++ pushHtons dnsClass) := by
    rw [queryBody, List.flatMap_singleton]
  have hlen : (queryBody [host]).length = host.encoded.wire.length + 4 := by
    rw [hbody, List.length_append]
    rfl
  have hfits : 12 + (queryBody [host]).length ≤ dnsRequestLen := by
    have := host.wire_length
    rw [hlen, dnsRequestLen]
    omega
  have hfew : [host].length ≤ dnsRrNr := Nat.le_of_ble_eq_true rfl
  obtain ⟨hend, hslice⟩ := package_slice hfew hfits transactionId
  refine ⟨?_, ?_, ?_⟩
  · rw [package_count]
    rfl
  · have hbehind : (12 + ((queryBody [host]).length : Int) - 12).toNat =
        (queryBody [host]).length := by omega
    rw [hend, hbehind, hslice, hbody, List.flatMap_singleton, List.append_assoc]
  · let d : Datagram :=
      { buf := (requestPackage transactionId (askFor [host])).2.originalBuf
        rc := 12 + (queryBody [host]).length
        fits := hfits }
    have hholds : d.Holds 12 (queryBody [host]) := ⟨Nat.le_refl _, hslice⟩
    rw [hbody, Datagram.holds_append] at hholds
    have hskip := (Datagram.skipNameField_iff hholds.1).mpr (.inl rfl)
    refine ⟨d, rfl, hend.symm, ?_⟩
    rw [List.length_singleton, Datagram.skipQuestions, hskip]
    show Except.ok (12 + host.encoded.wire.length + 4) = Except.ok (12 + (queryBody [host]).length)
    rw [hlen, Nat.add_assoc]

/-- **A query asks for its hosts** exactly if there is one. -/
theorem request_package_iff (transactionId : Int) (hosts : List HostName) :
    Asks hosts (requestPackage transactionId (askFor hosts)).2 ↔ hosts.length = 1 := by
  constructor
  · intro h
    have hcount := h.count
    rw [package_count] at hcount
    exact hcount.symm
  · intro hone
    obtain ⟨host, rfl⟩ := List.length_eq_one_iff.mp hone
    exact asks_one transactionId host

theorem labelA_plain : ∀ l ∈ [labelA], 46 ∉ l.text ∧ 0 ∉ l.text := by
  intro l hl
  rw [List.mem_singleton.mp hl]
  decide

/-- The host `a`. -/
def hostA : HostName :=
  { labels := [labelA]
    ne_nil := List.cons_ne_nil labelA []
    plain := labelA_plain
    short := Nat.le_of_ble_eq_true rfl }

/-- The query for two hosts says that it is for one. -/
theorem request_package_two :
    ¬Asks [hostA, hostA] (requestPackage 0 (askFor [hostA, hostA])).2 := by
  intro h
  have hcount := h.count
  rw [package_count] at hcount
  exact absurd hcount (by decide)

end Awoke.Dns
