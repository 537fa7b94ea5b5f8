/-
Which composed URIs `uri_parse` takes apart again.

A URI with a path comes back as it was.  Without one nothing ends the port but the end of the
string: a query or a fragment is read as if it were digits.
-/
import Awoke.Proofs.Uri
import Mathlib.Tactic.IntervalCases

namespace Awoke.Http

open Scan
open UriScan (Ends portDigit)

/-! ### What it should be -/

/-- The components of a URI, as texts; one that is missing is empty. -/
structure Components where
  scheme : List UInt8
  user : List UInt8
  host : List UInt8
  port : Nat
  path : List UInt8
  query : List UInt8
  fragment : List UInt8

/-- What a `mem_ptr_t` into the string points to. -/
def Span.text (s : List UInt8) (q : Option Span) : List UInt8 :=
  (q.map fun q => (s.drop q.p).take q.len).getD []

/-- What `uri_parse` gave, as texts. -/
def UriParts.read (s : List UInt8) (r : UriParts) : Components where
  scheme := Span.text s r.scheme
  user := Span.text s r.user
  host := Span.text s r.host
  port := r.port.toNat
  path := Span.text s r.path
  query := Span.text s r.query
  fragment := Span.text s r.fragment

/-- `uri_parse` returns `et_ok` with these components. -/
def Parses (s : List UInt8) (c : Components) : Prop :=
  ∃ n r, uriParse n s = some (some (.ok r)) ∧ r.read s = c

/-- A host. -/
inductive HostText
  | plain (name : List UInt8)
  | bracketed (address : List UInt8)

/-- A host as it is written. -/
def HostText.text : HostText → List UInt8
  | plain name => name
  | bracketed address => openBracket :: address ++ [closeBracket]

/-- A host has nothing in it that ends it, and no plain one looks like one in brackets. -/
def HostText.Ok : HostText → Prop
  | plain name => (∀ b ∈ name, ¬EndsName b) ∧ name.head? ≠ some openBracket
  | bracketed address => closeBracket ∉ address

/-- A component and the sign before it, if it is there. -/
def optional (sign : UInt8) (t : Option (List UInt8)) : List UInt8 := (t.map (sign :: ·)).getD []

/-- A port as it is written. -/
def portText (port : Nat) : List UInt8 := (Nat.toDigits 10 port).map fun c => c.toNat.toUInt8

/-- `scheme://[user@]host:port[/path][?query][#fragment]`, the path without its first slash.  No
component has in it what ends it, and no plain host an `'@'`. -/
structure Uri where
  scheme : List UInt8
  user : Option (List UInt8)
  host : HostText
  port : Nat
  path : Option (List UInt8)
  query : Option (List UInt8)
  fragment : Option (List UInt8)
  scheme_ok : ∀ b ∈ scheme, ¬EndsName b
  scheme_head : scheme.head? ≠ some openBracket
  user_ok : ∀ t ∈ user, ∀ b ∈ t, ¬EndsUser b
  host_ok : host.Ok
  host_at : ∀ name, host = .plain name → atSign ∉ name
  port_pos : 0 < port
  port_le : port ≤ 65535
  path_ok : ∀ t ∈ path, ∀ b ∈ t, b ≠ questionMark ∧ b ≠ numberSign
  query_ok : ∀ t ∈ query, numberSign ∉ t

namespace Uri

/-- What follows the port. -/
def tail (u : Uri) : List UInt8 :=
  optional slash u.path ++ (optional questionMark u.query ++ optional numberSign u.fragment)

/-- A URI as it is written. -/
def text (u : Uri) : List UInt8 :=
  u.scheme ++ (ascii "://" ++ ((u.user.map (· ++ [atSign])).getD [] ++
    (u.host.text ++ colon :: (portText u.port ++ u.tail))))

def components (u : Uri) : Components where
  scheme := u.scheme
  user := u.user.getD []
  host := u.host.text
  port := u.port
  path := optional slash u.path
  query := u.query.getD []
  fragment := u.fragment.getD []

end Uri

/-- `host:port`. -/
structure HostPort where
  host : HostText
  port : Nat
  host_ok : host.Ok
  port_pos : 0 < port
  port_le : port ≤ 65535

namespace HostPort

def text (a : HostPort) : List UInt8 := a.host.text ++ colon :: portText a.port

def components (a : HostPort) : Components where
  scheme := []
  user := []
  host := a.host.text
  port := a.port
  path := []
  query := []
  fragment := []

end HostPort

/-! ### Ports -/

theorem portDigit_digitChar (port : BitVec 32) {d : Nat} (hd : d < 10) :
    portDigit port (Nat.digitChar d).toNat.toUInt8 = port * 10 + BitVec.ofNat 32 d := by
  rw [portDigit]
  congr 1
  interval_cases d <;> rfl

theorem portText_of_ge {n : Nat} (h : 10 ≤ n) :
    portText n = portText (n / 10) ++ [(Nat.digitChar (n % 10)).toNat.toUInt8] := by
  rw [portText, Nat.toDigits_of_base_le (by decide) h, List.map_append]
  rfl

/-- The digits of a port say what it is. -/
theorem foldl_portText (n : Nat) : (portText n).foldl portDigit 0 = BitVec.ofNat 32 n := by
  induction n using Nat.strongRecOn with
  | _ n ih =>
    by_cases hn : n < 10
    · rw [portText, Nat.toDigits_of_lt_base hn, List.map_singleton, List.foldl_cons, List.foldl_nil,
        portDigit_digitChar 0 hn]
      exact BitVec.zero_add _
    · have hdiv : n / 10 < n := Nat.div_lt_self (by omega) (by decide)
      rw [portText_of_ge (by omega), List.foldl_append, ih _ hdiv, List.foldl_cons, List.foldl_nil,
        portDigit_digitChar _ (Nat.mod_lt n (by decide))]
      refine BitVec.eq_of_toNat_eq ?_
      rw [BitVec.toNat_add, BitVec.toNat_mul, BitVec.toNat_ofNat, BitVec.toNat_ofNat,
        BitVec.toNat_ofNat]
      have hten : (10 : BitVec 32).toNat = 10 := rfl
      rw [hten]
      omega

theorem digit_of_mem_portText {n : Nat} {b : UInt8} (h : b ∈ portText n) :
    48 ≤ b.toNat ∧ b.toNat ≤ 57 := by
  obtain ⟨c, hc, rfl⟩ := List.mem_map.mp h
  have hdigit := Nat.isDigit_of_mem_toDigits (by decide) (by decide) hc
  have hrange : 48 ≤ c.toNat ∧ c.toNat ≤ 57 := by
    simpa [Char.isDigit, UInt32.le_iff_toNat_le] using hdigit
  have htoNat : c.toNat.toUInt8.toNat = c.toNat % 256 := rfl
  omega

theorem slash_notMem_portText (n : Nat) : slash ∉ portText n :=
  fun h => absurd (digit_of_mem_portText h) (by decide)

theorem atSign_notMem_portText (n : Nat) : atSign ∉ portText n :=
  fun h => absurd (digit_of_mem_portText h) (by decide)

/-! ### Where the loop comes to -/

/-- The loop comes to this state with this behind `p`, and with these components. -/
def Comes (s : List UInt8) (m : UriScan) (state : UriState) (rest : List UInt8)
    (c : Components) : Prop :=
  ∃ m', (m'.state = state ∧ s.drop m'.p = rest ∧ m'.toUriParts.read s = c) ∧
    ∀ r, Ends s m r ↔ Ends s m' r

/-- The loop ends with `et_ok` and these components. -/
def Results (s : List UInt8) (m : UriScan) (c : Components) : Prop :=
  ∃ parts : UriParts, parts.read s = c ∧ ∀ r, Ends s m r ↔ r = some (.ok parts)

variable {s mid rest rest' : List UInt8} {m m' : UriScan} {c c' : Components}
  {state state' : UriState}

theorem Comes.trans (h : Comes s m state rest c)
    (hrest : ∀ m', m'.state = state → s.drop m'.p = rest → m'.toUriParts.read s = c →
      Comes s m' state' rest' c') : Comes s m state' rest' c' := by
  obtain ⟨m₁, ⟨hstate, hdrop, hread⟩, heq⟩ := h
  obtain ⟨m₂, h₂, heq₂⟩ := hrest m₁ hstate hdrop hread
  exact ⟨m₂, h₂, fun r => (heq r).trans (heq₂ r)⟩

theorem Comes.results (h : Comes s m state rest c)
    (hrest : ∀ m', m'.state = state → s.drop m'.p = rest → m'.toUriParts.read s = c →
      Results s m' c') : Results s m c' := by
  obtain ⟨m₁, ⟨hstate, hdrop, hread⟩, heq⟩ := h
  obtain ⟨parts, hparts, hends⟩ := hrest m₁ hstate hdrop hread
  exact ⟨parts, hparts, fun r => (heq r).trans (hends r)⟩

theorem results_over (h : s.drop m.p = []) : Results s m (m.toUriParts.read s) :=
  ⟨m.toUriParts, rfl, fun _ => UriScan.ends_over h⟩

theorem Results.parses_iff (h : Results s .init c) : Parses s c' ↔ c' = c := by
  obtain ⟨parts, hread, hends⟩ := h
  constructor
  · rintro ⟨n, r, hn, rfl⟩
    obtain rfl : r = parts := by
      have heq := (hends _).mp ⟨n, hn⟩
      simpa using heq
    exact hread
  · rintro rfl
    obtain ⟨n, hn⟩ := (hends _).mpr rfl
    exact ⟨n, parts, hn, hread⟩

theorem comes_next (h : s.drop m.p ≠ []) (hturn : UriScan.turn s m = .next m')
    (hstate : m'.state = state) (hdrop : s.drop m'.p = rest)
    (hread : m'.toUriParts.read s = c) : Comes s m state rest c :=
  ⟨m', ⟨hstate, hdrop, hread⟩, fun _ => UriScan.ends_next h hturn⟩

theorem text_between {p : Nat} (h : s.drop p = mid ++ rest) :
    Span.text s (some (.between p (p + mid.length))) = mid := by
  rw [Span.text, Option.map_some, Option.getD_some, Span.between]
  dsimp only
  rw [Nat.add_sub_cancel_left, take_drop h]

theorem text_between_self (s : List UInt8) (p : Nat) :
    Span.text s (some (.between p p)) = [] := by
  have hl : s.drop p = [] ++ s.drop p := rfl
  exact text_between hl

/-! ### Components -/

/-- Nothing. -/
def Components.empty : Components where
  scheme := []
  user := []
  host := []
  port := 0
  path := []
  query := []
  fragment := []

theorem text_front {p : Nat} (hs : s = mid ++ rest) (hp : s.drop p = rest) (hne : rest ≠ []) :
    Span.text s (some (.between 0 p)) = mid := by
  have hlen := congrArg List.length hp
  have hpos := List.length_pos_iff.mpr hne
  rw [hs, List.length_drop, List.length_append] at hlen
  have heq : p = 0 + mid.length := by omega
  rw [heq]
  exact text_between (s := s) (p := 0) hs

/-- A name at the beginning, and the colon behind it. -/
theorem comes_name (hs : s = mid ++ colon :: rest) (hmid : ∀ b ∈ mid, ¬EndsName b)
    (hhead : mid.head? ≠ some openBracket) :
    Comes s .init .schemeOrPort (colon :: rest) .empty := by
  have hl : s.drop 0 = mid ++ colon :: rest := hs
  have hne : s.drop 0 ≠ [] := by
    rw [hl]
    exact List.append_ne_nil_of_right_ne_nil _ (List.cons_ne_nil _ _)
  have hends : ∀ b ∈ (colon :: rest).head?, EndsName b :=
    fun b hb => .inl (Option.some_inj.mp hb).symm
  have hbracket : (mid ++ colon :: rest).head? ≠ some openBracket := by
    cases mid with
    | nil => exact fun h => absurd (Option.some_inj.mp h) (by decide)
    | cons b mid => exact hhead
  exact comes_next (m := .init) hne (UriScan.start_name rfl hl hmid hends hbracket) rfl
    (drop_add hl) rfl

theorem comes_scheme (hs : s = mid ++ (ascii "://" ++ rest)) (hmid : ∀ b ∈ mid, ¬EndsName b)
    (hhead : mid.head? ≠ some openBracket) :
    Comes s .init .userInfo rest { Components.empty with scheme := mid } := by
  have hname : s = mid ++ colon :: (ascii "//" ++ rest) := hs
  refine (comes_name hname hmid hhead).trans fun m hm hp hread => ?_
  have hp' : s.drop m.p = ascii "://" ++ rest := hp
  refine comes_next (hp ▸ List.cons_ne_nil _ _) (UriScan.schemeOrPort_scheme hm hp') rfl
    (drop_add hp') ?_
  rw [← text_front hs hp' (List.cons_ne_nil _ _), ← hread]
  rfl

/-- A host at the beginning, without a scheme. -/
theorem comes_host_first (hs : s = mid ++ colon :: rest) (hmid : ∀ b ∈ mid, ¬EndsName b)
    (hhead : mid.head? ≠ some openBracket) (hrest : rest.head? ≠ some slash) :
    Comes s .init .port (colon :: rest) { Components.empty with host := mid } := by
  refine (comes_name hs hmid hhead).trans fun m hm hp hread => ?_
  have hpre : ¬ascii "://" <+: s.drop m.p := by
    rw [hp]
    intro hpre
    obtain ⟨more, hmore⟩ := (List.cons_prefix_cons.mp hpre).2
    rw [← hmore] at hrest
    exact hrest rfl
  refine comes_next (hp ▸ List.cons_ne_nil _ _) (UriScan.schemeOrPort_port hm hpre) rfl hp ?_
  rw [← hread, ← text_front hs hp (List.cons_ne_nil _ _)]
  rfl

theorem comes_bracket_first (hs : s = openBracket :: rest) :
    Comes s .init .host (openBracket :: rest) .empty := by
  have hne : s.drop 0 ≠ [] := hs ▸ List.cons_ne_nil _ _
  exact comes_next (m := .init) hne (UriScan.start_bracket rfl hs) rfl hs rfl

/-- A user info, and the `'@'` behind it. -/
theorem comes_user (hm : m.state = .userInfo) (hp : s.drop m.p = mid ++ atSign :: rest)
    (hmid : ∀ b ∈ mid, ¬EndsUser b) :
    Comes s m .host (atSign :: rest) { m.toUriParts.read s with user := mid } := by
  have hne : s.drop m.p ≠ [] := by
    rw [hp]
    exact List.append_ne_nil_of_right_ne_nil _ (List.cons_ne_nil _ _)
  exact comes_next hne (UriScan.userInfo_some hm hp hmid) rfl (drop_add hp)
    (congrArg (fun t => { m.toUriParts.read s with user := t }) (text_between hp))

theorem comes_no_user (hm : m.state = .userInfo) (hp : s.drop m.p = mid ++ rest)
    (hne : mid ++ rest ≠ []) (hmid : ∀ b ∈ mid, ¬EndsUser b)
    (hrest : ∀ b ∈ rest.head?, EndsUser b ∧ b ≠ atSign) :
    Comes s m .host (mid ++ rest) { m.toUriParts.read s with user := [] } := by
  exact comes_next (hp ▸ hne) (UriScan.userInfo_none hm hp hmid hrest) rfl hp
    (congrArg (fun t => { m.toUriParts.read s with user := t }) (text_between_self s m.p))

theorem hostStart_at (hp : s.drop m.p = atSign :: rest) :
    s.drop (UriScan.hostStart s m) = rest := by
  have hhead : s[m.p]? = some atSign := by rw [getElem?_eq_head?, hp]; rfl
  rw [UriScan.hostStart, if_pos hhead, drop_succ hp]

theorem hostStart_not_at (hhead : (s.drop m.p).head? ≠ some atSign) :
    s.drop (UriScan.hostStart s m) = s.drop m.p := by
  rw [← getElem?_eq_head?] at hhead
  rw [UriScan.hostStart, if_neg hhead]

/-- A host, and the colon behind it. -/
theorem comes_host (hm : m.state = .host) (hne : s.drop m.p ≠ []) {host : HostText}
    (hhost : host.Ok) (hp : s.drop (UriScan.hostStart s m) = host.text ++ colon :: rest) :
    Comes s m .port (colon :: rest) { m.toUriParts.read s with host := host.text } := by
  cases host with
  | plain name =>
      have hends : ∀ b ∈ (colon :: rest).head?, EndsName b :=
        fun b hb => .inl (Option.some_inj.mp hb).symm
      have hbracket : (name ++ colon :: rest).head? ≠ some openBracket := by
        cases name with
        | nil => exact fun h => absurd (Option.some_inj.mp h) (by decide)
        | cons b name => exact hhost.2
      exact comes_next hne (UriScan.host_plain hm hp
        (List.append_ne_nil_of_right_ne_nil _ (List.cons_ne_nil _ _)) hhost.1 hends hbracket)
        rfl (drop_add hp)
        (congrArg (fun t => { m.toUriParts.read s with host := t }) (text_between hp))
  | bracketed address =>
      have hp' : s.drop (UriScan.hostStart s m) =
          openBracket :: address ++ closeBracket :: colon :: rest := by
        rw [hp, HostText.text, List.append_assoc]
        rfl
      have hlen : (openBracket :: address ++ [closeBracket]).length = address.length + 2 := by
        rw [List.length_append]
        rfl
      have hdrop := drop_add hp
      have htext := text_between hp
      rw [HostText.text, hlen] at hdrop htext
      exact comes_next hne (UriScan.host_bracketed hm hp' hhost) rfl hdrop
        (congrArg (fun t => { m.toUriParts.read s with host := t }) htext)

theorem comes_port (hm : m.state = .port) (hp : s.drop m.p = colon :: (mid ++ rest))
    (hmid : slash ∉ mid) (hrest : ∀ b ∈ rest.head?, b = slash) :
    Comes s m (if rest.head? = some slash then .rest else .port) rest
      { m.toUriParts.read s with port := (mid.foldl portDigit m.port).toNat } :=
  comes_next (hp ▸ List.cons_ne_nil _ _) (UriScan.port_turn hm (drop_succ hp) hmid hrest) rfl
    (drop_add (drop_succ hp)) rfl

/-! ### Behind the port -/

theorem parseUriComponent_last {p : Nat} {seps : List UInt8} (h : s.drop p = mid)
    (hmid : ∀ b ∈ mid, b ∉ seps) :
    parseUriComponent s p seps = (.between p (p + mid.length), p + mid.length) := by
  have hl : s.drop p = mid ++ [] := h.trans (List.append_nil mid).symm
  have hscan : scanTo s (fun b => b ∈ seps) p = p + mid.length := scanTo_last h hmid
  have hlt : ¬p + mid.length < s.length := fun hlt => lt_length_iff.mp hlt (drop_add hl)
  rw [parseUriComponent, hscan]
  simp only [if_neg hlt]

theorem parseUriComponent_sep {p : Nat} {seps : List UInt8} {b : UInt8}
    (h : s.drop p = mid ++ b :: rest) (hmid : ∀ b ∈ mid, b ∉ seps) (hb : b ∈ seps) :
    parseUriComponent s p seps = (.between p (p + mid.length), p + mid.length + 1) := by
  have hscan : scanTo s (fun b => b ∈ seps) p = p + mid.length :=
    scanTo_eq h hmid fun b' hb' => Option.some_inj.mp hb' ▸ hb
  have hlt : p + mid.length < s.length :=
    lt_length_iff.mpr (drop_add h ▸ List.cons_ne_nil b rest)
  rw [parseUriComponent, hscan]
  simp only [if_pos hlt]

/-- A path, and what is left for the fragment behind the query. -/
theorem results_rest (hm : m.state = .rest) (hne : s.drop m.p ≠ []) {path : Span × Nat}
    (hpath : parseUriComponent s m.p [questionMark, numberSign] = path)
    {query : Option Span × Nat} (hquery : UriScan.restQuery s m.query path.2 = query) :
    Results s m { m.toUriParts.read s with
      path := Span.text s (some path.1)
      query := Span.text s query.1
      fragment := s.drop query.2 } := by
  have hfragment : parseUriComponent s query.2 [] =
      (.between query.2 (query.2 + (s.drop query.2).length),
        query.2 + (s.drop query.2).length) :=
    parseUriComponent_last rfl fun _ _ => List.not_mem_nil
  have hl : s.drop query.2 = s.drop query.2 ++ [] := (List.append_nil _).symm
  have hturn : UriScan.turn s m = .next { m with
      path := some path.1
      query := query.1
      fragment := some (.between query.2 (query.2 + (s.drop query.2).length))
      p := query.2 + (s.drop query.2).length } := by
    rw [UriScan.turn, hm]
    simp only [UriScan.restTurn, hpath, hquery, hfragment, hm]
  have hread := congrArg (fun t => { m.toUriParts.read s with
    path := Span.text s (some path.1), query := Span.text s query.1, fragment := t })
    (text_between hl)
  exact (comes_next hne hturn rfl (drop_add hl) hread).results
    fun m' _ hover hread => hread ▸ results_over hover

theorem restQuery_of_not {p : Nat} {query : Option Span}
    (h : s[p - 1]? ≠ some questionMark ∨ s.drop p = []) :
    UriScan.restQuery s query p = (query, p) := by
  refine if_neg fun hcond => ?_
  exact h.elim (fun h => h hcond.2) fun h => lt_length_iff.mp hcond.1 h

/-- A path, and a query and a fragment if they are there. -/
theorem results_path (hm : m.state = .rest) {path : List UInt8}
    {query fragment : Option (List UInt8)}
    (hp : s.drop m.p = path ++ (optional questionMark query ++ optional numberSign fragment))
    (hne : path ≠ []) (hpath : ∀ b ∈ path, b ≠ questionMark ∧ b ≠ numberSign)
    (hquery : ∀ t ∈ query, numberSign ∉ t) (hnone : Span.text s m.query = []) :
    Results s m { m.toUriParts.read s with
      path := path, query := query.getD [], fragment := fragment.getD [] } := by
  have hseps : ∀ b ∈ path, b ∉ [questionMark, numberSign] := by
    intro b hb hmem
    rcases List.mem_cons.mp hmem with heq | hmem
    · exact (hpath b hb).1 heq
    · exact (hpath b hb).2 (List.mem_singleton.mp hmem)
  have hne' : s.drop m.p ≠ [] := by
    rw [hp]
    exact List.append_ne_nil_of_left_ne_nil hne _
  have htext := text_between hp
  cases query with
  | none =>
      cases fragment with
      | none =>
          have hlast : s.drop m.p = path := hp.trans (List.append_nil path)
          have hover : s.drop (m.p + path.length) = [] := drop_add hp
          have h := results_rest hm hne' (parseUriComponent_last hlast hseps)
            (restQuery_of_not (.inr hover))
          rwa [htext, hnone, hover] at h
      | some fragment =>
          have hsep : s.drop m.p = path ++ numberSign :: fragment := hp
          have hbehind : s.drop (m.p + path.length) = numberSign :: fragment := drop_add hp
          have hsign : s[m.p + path.length + 1 - 1]? ≠ some questionMark := by
            rw [Nat.add_sub_cancel, getElem?_eq_head?, hbehind]
            exact fun h => absurd (Option.some_inj.mp h) (by decide)
          have h := results_rest hm hne' (parseUriComponent_sep hsep hseps (by decide))
            (restQuery_of_not (.inl hsign))
          rwa [htext, hnone, drop_succ hbehind] at h
  | some query =>
      have hsep : s.drop m.p = path ++ questionMark :: (query ++ optional numberSign fragment) := hp
      have hbehind := drop_add hsep
      have hlist := drop_succ hbehind
      have hsign : s[m.p + path.length + 1 - 1]? = some questionMark := by
        rw [Nat.add_sub_cancel, getElem?_eq_head?, hbehind]
        rfl
      have hcomponent := parseUriComponent_sep hsep hseps (by decide)
      have hquery' : ∀ b ∈ query, b ∉ [numberSign] := fun b hb hmem =>
        hquery query rfl (List.mem_singleton.mp hmem ▸ hb)
      by_cases hnil : query ++ optional numberSign fragment = []
      · obtain ⟨rfl, hfragment⟩ := List.append_eq_nil_iff.mp hnil
        rw [hnil] at hlist
        have h := results_rest hm hne' hcomponent (restQuery_of_not (.inr hlist))
        cases fragment with
        | none => rwa [htext, hnone, hlist] at h
        | some fragment => exact absurd hfragment (List.cons_ne_nil _ _)
      · have hquery : UriScan.restQuery s m.query (m.p + path.length + 1) =
            (some (parseUriComponent s (m.p + path.length + 1) [numberSign]).1,
              (parseUriComponent s (m.p + path.length + 1) [numberSign]).2) :=
          if_pos ⟨lt_length_iff.mpr (hlist ▸ hnil), hsign⟩
        have htext' := text_between hlist
        cases fragment with
        | none =>
            have hlast : s.drop (m.p + path.length + 1) = query :=
              hlist.trans (List.append_nil query)
            rw [parseUriComponent_last hlast hquery'] at hquery
            have h := results_rest hm hne' hcomponent hquery
            rwa [htext, htext', drop_add hlist] at h
        | some fragment =>
            rw [parseUriComponent_sep hlist hquery' (by decide)] at hquery
            have h := results_rest hm hne' hcomponent hquery
            rwa [htext, htext', drop_succ (drop_add hlist)] at h

/-! ### The authority -/

theorem comes_authority_some (hm : m.state = .userInfo) {user tail : List UInt8} {host : HostText}
    (hp : s.drop m.p = user ++ atSign :: (host.text ++ colon :: tail))
    (huser : ∀ b ∈ user, ¬EndsUser b) (hhost : host.Ok) :
    Comes s m .port (colon :: tail)
      { m.toUriParts.read s with user := user, host := host.text } := by
  refine (comes_user hm hp huser).trans fun m' hm' hp' hread => ?_
  have h := comes_host hm' (hp' ▸ List.cons_ne_nil _ _) hhost (hostStart_at hp')
  rwa [hread] at h

/-- A host and a port without a user info, if no `'@'` comes first in what is there. -/
theorem comes_authority_none (hm : m.state = .userInfo) {tail : List UInt8} {host : HostText}
    (hp : s.drop m.p = mid ++ rest) (heq : mid ++ rest = host.text ++ colon :: tail)
    (hmid : ∀ b ∈ mid, ¬EndsUser b) (hrest : ∀ b ∈ rest.head?, EndsUser b)
    (hat : rest.head? ≠ some atSign) (hhost : host.Ok) :
    Comes s m .port (colon :: tail)
      { m.toUriParts.read s with user := [], host := host.text } := by
  have hne : mid ++ rest ≠ [] := by
    rw [heq]
    exact List.append_ne_nil_of_right_ne_nil _ (List.cons_ne_nil _ _)
  have hhead : (mid ++ rest).head? ≠ some atSign := by
    cases mid with
    | nil => exact hat
    | cons b mid =>
        exact fun h => hmid b List.mem_cons_self (.inl (Option.some_inj.mp h))
  refine (comes_no_user hm hp hne hmid fun b hb => ⟨hrest b hb, fun heq => hat (heq ▸ hb)⟩).trans
    fun m' hm' hp' hread => ?_
  have hstart : s.drop (UriScan.hostStart s m') = host.text ++ colon :: tail := by
    rw [hostStart_not_at (hp' ▸ hhead), hp', heq]
  have h := comes_host hm' (hp' ▸ hne) hhost hstart
  rwa [hread] at h

/-- A slash comes before any `'@'` that is behind it. -/
theorem head_ne_at {front tail : List UInt8} (hfront : atSign ∉ front)
    (htail : ∀ b ∈ tail.head?, b = slash) (heq : mid ++ rest = front ++ tail)
    (hmid : ∀ b ∈ mid, ¬EndsUser b) : rest.head? ≠ some atSign := by
  intro hat
  obtain ⟨rest, rfl⟩ := List.head?_eq_some_iff.mp hat
  rcases List.append_eq_append_iff.mp heq with ⟨more, rfl, hmore⟩ | ⟨more, rfl, hmore⟩
  · cases more with
    | nil =>
        rw [← (show atSign :: rest = tail from hmore)] at htail
        exact absurd (htail atSign rfl) (by decide)
    | cons b more =>
        rw [(List.cons.inj hmore).1] at hfront
        exact hfront (List.mem_append_right _ List.mem_cons_self)
  · cases more with
    | nil =>
        rw [(show tail = atSign :: rest from hmore)] at htail
        exact absurd (htail atSign rfl) (by decide)
    | cons b more =>
        rw [hmore] at htail
        exact hmid b (List.mem_append_right _ List.mem_cons_self) (.inr (.inr (htail b rfl)))

/-- A user info stays what it is. -/
theorem user_kept (hm : m.state = .host) {parts : UriParts}
    (h : Ends s m (some (.ok parts))) : parts.user = m.user := by
  have hkeep : ∀ m₁ m₂ : UriScan, m₁.p < s.length → UriScan.turn s m₁ = .next m₂ →
      (m₁.user = m.user ∧ (m₁.state = .host ∨ m₁.state = .port ∨ m₁.state = .rest)) →
      m₂.user = m.user ∧ (m₂.state = .host ∨ m₂.state = .port ∨ m₂.state = .rest) := by
    rintro m₁ m₂ - hturn ⟨huser, hstate⟩
    have hend : ∀ m' : UriScan, m'.user = m.user → m'.state = .host →
        (UriScan.hostEnd s m').user = m.user ∧ ((UriScan.hostEnd s m').state = .host ∨
          (UriScan.hostEnd s m').state = .port ∨ (UriScan.hostEnd s m').state = .rest) := by
      intro m' hm' hhost
      refine ⟨hm', ?_⟩
      simp only [UriScan.hostEnd]
      split
      · exact .inr (.inl rfl)
      · split
        · exact .inr (.inr rfl)
        · exact .inl hhost
    rcases hstate with hhost | hport | hrest
    · rw [UriScan.turn, hhost] at hturn
      simp only [UriScan.hostTurn] at hturn
      split at hturn
      · cases hturn
      · split at hturn
        · split at hturn
          · obtain rfl := WhileLoop.Turn.next.inj hturn
            exact hend _ huser hhost
          · cases hturn
        · obtain rfl := WhileLoop.Turn.next.inj hturn
          exact hend _ huser hhost
    · rw [UriScan.turn, hport] at hturn
      obtain rfl := WhileLoop.Turn.next.inj hturn
      refine ⟨huser, ?_⟩
      simp only [UriScan.portTurn]
      split
      · exact .inr (.inr rfl)
      · exact .inr (.inl hport)
    · rw [UriScan.turn, hrest] at hturn
      obtain rfl := WhileLoop.Turn.next.inj hturn
      exact ⟨huser, .inr (.inr hrest)⟩
  obtain ⟨m', ⟨huser, hstate⟩, hlast | hret⟩ := h.invariant ⟨rfl, .inl hm⟩ hkeep
  · rw [Except.ok.inj (Option.some_inj.mp hlast)]
    exact huser
  · rcases hstate with hhost | hport | hrest
    · rw [UriScan.turn, hhost] at hret
      simp only [UriScan.hostTurn] at hret
      split at hret
      · cases hret
      · split at hret
        · split at hret <;> cases hret
        · cases hret
    · rw [UriScan.turn, hport] at hret
      cases hret
    · rw [UriScan.turn, hrest] at hret
      cases hret

namespace Uri

/-- No `'@'` comes first behind the scheme of a URI without a user info. -/
def NoAt (u : Uri) : Prop :=
  ∀ mid rest, mid ++ rest = u.host.text ++ colon :: (portText u.port ++ u.tail) →
    (∀ b ∈ mid, ¬EndsUser b) → rest.head? ≠ some atSign

/-- The components up to the host. -/
def authority (u : Uri) : Components :=
  { Components.empty with scheme := u.scheme, user := u.user.getD [], host := u.host.text }

theorem noAt {u : Uri} (htail : ∀ b ∈ u.tail.head?, b = slash) : u.NoAt := by
  intro mid rest heq hmid
  have hok := u.host_at
  cases hhost : u.host with
  | plain name =>
      have hfront : atSign ∉ name ++ colon :: portText u.port := by
        rw [List.mem_append, List.mem_cons, not_or, not_or]
        exact ⟨hok name hhost, by decide, atSign_notMem_portText u.port⟩
      refine head_ne_at hfront htail ?_ hmid
      rw [heq, hhost, HostText.text, List.append_assoc, List.cons_append]
  | bracketed address =>
      rw [hhost] at heq
      cases mid with
      | nil =>
          rw [show rest = _ from heq]
          exact fun h => absurd (Option.some_inj.mp h) (by decide)
      | cons b mid =>
          exact absurd (.inr (.inl (List.cons.inj heq).1)) (hmid b List.mem_cons_self)

/-- The loop comes to the port. -/
theorem comes_authority (u : Uri) (hat : u.user = none → u.NoAt) :
    Comes u.text .init .port (colon :: (portText u.port ++ u.tail)) u.authority := by
  have hs : u.text = u.scheme ++ (ascii "://" ++ ((u.user.map (· ++ [atSign])).getD [] ++
    (u.host.text ++ colon :: (portText u.port ++ u.tail)))) := rfl
  refine (comes_scheme hs u.scheme_ok u.scheme_head).trans fun m hm hp hread => ?_
  have huser := u.user_ok
  rw [authority]
  cases hu : u.user with
  | none =>
      rw [hu] at hp
      obtain ⟨mid, rest, heq, hmid, hrest⟩ :=
        exists_scan EndsUser (u.host.text ++ colon :: (portText u.port ++ u.tail))
      have h := comes_authority_none hm (hp.trans heq) heq.symm hmid hrest
        (hat hu mid rest heq.symm hmid) u.host_ok
      rwa [hread] at h
  | some user =>
      rw [hu, Option.map_some, Option.getD_some, List.append_assoc] at hp
      have h := comes_authority_some hm hp (huser user hu) u.host_ok
      rwa [hread] at h

theorem comes_tail (u : Uri) (hat : u.user = none → u.NoAt)
    (hcut : portText u.port ++ u.tail = mid ++ rest) (hmid : slash ∉ mid)
    (hrest : ∀ b ∈ rest.head?, b = slash) :
    Comes u.text .init (if rest.head? = some slash then .rest else .port) rest
      { u.authority with port := (mid.foldl portDigit 0).toNat } := by
  refine (u.comes_authority hat).trans fun m hm hp hread => ?_
  have hport : m.port = 0 := BitVec.eq_of_toNat_eq (congrArg Components.port hread)
  have h := comes_port hm (hcut ▸ hp) hmid hrest
  rwa [hread, hport] at h

theorem toNat_foldl_portText (u : Uri) : ((portText u.port).foldl portDigit 0).toNat = u.port := by
  have hle := u.port_le
  rw [foldl_portText, BitVec.toNat_ofNat]
  omega

theorem tail_none {u : Uri} (hpath : u.path = none) :
    u.tail = optional questionMark u.query ++ optional numberSign u.fragment := by
  rw [tail, hpath]
  rfl

/-- A URI with a path is read as it was. -/
theorem results_path {u : Uri} {path : List UInt8} (hu : u.path = some path) :
    Results u.text .init u.components := by
  have htail : u.tail = (slash :: path) ++
      (optional questionMark u.query ++ optional numberSign u.fragment) := by
    rw [tail, hu]
    rfl
  have hslash : ∀ b ∈ u.tail.head?, b = slash := by
    rw [htail]
    exact fun b hb => (Option.some_inj.mp hb).symm
  refine (u.comes_tail (fun _ => noAt hslash) rfl (slash_notMem_portText u.port) hslash).results
    fun m hm hp hread => ?_
  have hstate : m.state = .rest := by
    rw [hm, htail]
    rfl
  have hok : ∀ b ∈ slash :: path, b ≠ questionMark ∧ b ≠ numberSign := by
    intro b hb
    rcases List.mem_cons.mp hb with rfl | hb
    · decide
    · exact u.path_ok path hu b hb
  have h := Http.results_path hstate (hp.trans htail) (List.cons_ne_nil _ _) hok u.query_ok
    (congrArg Components.query hread)
  rw [hread, u.toNat_foldl_portText] at h
  rw [components, hu]
  exact h

theorem results_nil {u : Uri} (hpath : u.path = none) (hquery : u.query = none)
    (hfragment : u.fragment = none) : Results u.text .init u.components := by
  have htail : u.tail = [] := by
    rw [tail_none hpath, hquery, hfragment]
    rfl
  have hslash : ∀ b ∈ u.tail.head?, b = slash := by
    rw [htail]
    exact fun b hb => absurd hb.symm (Option.some_ne_none b)
  refine (u.comes_tail (fun _ => noAt hslash) rfl (slash_notMem_portText u.port) hslash).results
    fun m hm hp hread => ?_
  have h := results_over (hp.trans htail)
  rw [hread, u.toNat_foldl_portText] at h
  rw [components, hpath, hquery, hfragment]
  exact h

/-- A user info that is read where there is none. -/
theorem not_parses_at {u : Uri} (hu : u.user = none) (hat : ¬u.NoAt) :
    ¬Parses u.text u.components := by
  simp only [NoAt, not_forall, not_not] at hat
  obtain ⟨mid, rest, heq, hmid, hhead⟩ := hat
  obtain ⟨rest, rfl⟩ := List.head?_eq_some_iff.mp hhead
  have hs : u.text = u.scheme ++ (ascii "://" ++ ((u.user.map (· ++ [atSign])).getD [] ++
    (u.host.text ++ colon :: (portText u.port ++ u.tail)))) := rfl
  rw [hu, Option.map_none, Option.getD_none, List.nil_append, ← heq] at hs
  obtain ⟨m₁, ⟨hm₁, hp₁, -⟩, hends₁⟩ := comes_scheme hs u.scheme_ok u.scheme_head
  obtain ⟨m₂, ⟨hm₂, -, hread₂⟩, hends₂⟩ := comes_user hm₁ hp₁ hmid
  rintro ⟨n, parts, hn, hparts⟩
  have hends := (hends₂ _).mp ((hends₁ _).mp ⟨n, hn⟩)
  have hmid' : mid = [] := by
    have huser : Span.text u.text m₂.user = mid := congrArg Components.user hread₂
    have hnone : Span.text u.text parts.user = u.user.getD [] := congrArg Components.user hparts
    rw [← huser, ← user_kept hm₂ hends, hnone, hu]
    rfl
  rw [hmid', List.nil_append] at heq
  cases hhost : u.host with
  | plain name =>
      rw [hhost] at heq
      cases name with
      | nil => exact absurd (List.cons.inj heq).1 (by decide)
      | cons b name => exact u.host_at _ hhost ((List.cons.inj heq).1 ▸ List.mem_cons_self)
  | bracketed address =>
      rw [hhost] at heq
      exact absurd (List.cons.inj heq).1 (by decide)

/-- A list as a path, a query and a fragment. -/
theorem exists_cut (l : List UInt8) : ∃ (path : List UInt8) (query fragment : Option (List UInt8)),
    l = path ++ (optional questionMark query ++ optional numberSign fragment) ∧
      (∀ b ∈ path, b ≠ questionMark ∧ b ≠ numberSign) ∧ ∀ t ∈ query, numberSign ∉ t := by
  obtain ⟨path, rest, rfl, hpath, hrest⟩ :=
    exists_scan (fun b => b = questionMark ∨ b = numberSign) l
  have hok : ∀ b ∈ path, b ≠ questionMark ∧ b ≠ numberSign := fun b hb => not_or.mp (hpath b hb)
  have hnone : ∀ t ∈ (none : Option (List UInt8)), numberSign ∉ t :=
    fun t ht => absurd ht.symm (Option.some_ne_none t)
  cases rest with
  | nil => exact ⟨path, none, none, rfl, hok, hnone⟩
  | cons b rest =>
      rcases hrest b rfl with rfl | rfl
      · obtain ⟨query, rest, rfl, hquery, hrest⟩ := exists_scan (fun b => b = numberSign) rest
        have hquery' : ∀ t ∈ some query, numberSign ∉ t := by
          intro t ht hmem
          obtain rfl := Option.some_inj.mp ht
          exact hquery numberSign hmem rfl
        cases rest with
        | nil => exact ⟨path, some query, none, rfl, hok, hquery'⟩
        | cons b rest =>
            obtain rfl : b = numberSign := hrest b rfl
            exact ⟨path, some query, some rest, rfl, hok, hquery'⟩
      · exact ⟨path, none, some rest, rfl, hok, hnone⟩

/-- The signs of an empty query and of an empty fragment are no digits that leave the port as it
was. -/
theorem signs_ne_port {port : Nat} (hpos : 0 < port) (hle : port ≤ 65535)
    {query fragment : Option (List UInt8)} (hquery : query.getD [] = [])
    (hfragment : fragment.getD [] = []) (hsome : query ≠ none ∨ fragment ≠ none) :
    (((optional questionMark query ++ optional numberSign fragment).foldl portDigit
      (BitVec.ofNat 32 port))).toNat ≠ port := by
  have hten : (10 : BitVec 32).toNat = 10 := rfl
  have hquestion : ∀ x : BitVec 32, x.toNat ≤ 65535 →
      (portDigit x questionMark).toNat = x.toNat * 10 + 15 := by
    intro x hx
    have hdigit : portDigit x questionMark = x * 10 + 15 := rfl
    have hfifteen : (15 : BitVec 32).toNat = 15 := rfl
    rw [hdigit, BitVec.toNat_add, BitVec.toNat_mul, hten, hfifteen]
    omega
  have hnumber : ∀ x : BitVec 32, x.toNat ≤ 655365 → 2 ≤ x.toNat →
      (portDigit x numberSign).toNat + 13 = x.toNat * 10 := by
    intro x hx hlow
    have hdigit : portDigit x numberSign = x * 10 + BitVec.ofInt 32 (-13) := rfl
    have hthirteen : (BitVec.ofInt 32 (-13)).toNat = 4294967283 := rfl
    rw [hdigit, BitVec.toNat_add, BitVec.toNat_mul, hten, hthirteen]
    omega
  have hport : (BitVec.ofNat 32 port).toNat = port := by
    rw [BitVec.toNat_ofNat]
    omega
  cases query with
  | none =>
      cases fragment with
      | none => exact absurd rfl (hsome.elim id id)
      | some fragment =>
          obtain rfl : fragment = [] := hfragment
          change (portDigit (BitVec.ofNat 32 port) numberSign).toNat ≠ port
          by_cases hone : port = 1
          · subst hone
            decide
          · have h := hnumber (BitVec.ofNat 32 port) (by omega) (by omega)
            omega
  | some query =>
      obtain rfl : query = [] := hquery
      have h := hquestion (BitVec.ofNat 32 port) (by omega)
      cases fragment with
      | none =>
          change (portDigit (BitVec.ofNat 32 port) questionMark).toNat ≠ port
          omega
      | some fragment =>
          obtain rfl : fragment = [] := hfragment
          change (portDigit (portDigit (BitVec.ofNat 32 port) questionMark) numberSign).toNat ≠ port
          have h' := hnumber (portDigit (BitVec.ofNat 32 port) questionMark) (by omega) (by omega)
          omega

/-- Nothing ends the port but a slash. -/
theorem not_parses_tail {u : Uri} (hat : u.user = none → u.NoAt) (hpath : u.path = none)
    (hsome : u.query ≠ none ∨ u.fragment ≠ none) : ¬Parses u.text u.components := by
  obtain ⟨mid, rest, hcut, hmid, hrest⟩ := exists_scan (fun b => b = slash)
    (portText u.port ++ u.tail)
  have hslash : slash ∉ mid := fun hmem => hmid slash hmem rfl
  have hcomes := u.comes_tail hat hcut hslash hrest
  cases rest with
  | nil =>
      have hresults := hcomes.results fun m _ hp hread => hread ▸ results_over hp
      rw [hresults.parses_iff]
      intro heq
      have hport : u.port = (mid.foldl portDigit 0).toNat := congrArg Components.port heq
      have hquery : u.query.getD [] = [] := congrArg Components.query heq
      have hfragment : u.fragment.getD [] = [] := congrArg Components.fragment heq
      rw [List.append_nil] at hcut
      rw [← hcut, List.foldl_append, foldl_portText, tail_none hpath] at hport
      exact signs_ne_port u.port_pos u.port_le hquery hfragment hsome hport.symm
  | cons b rest =>
      obtain rfl : b = slash := hrest b rfl
      obtain ⟨path, query, fragment, hl, hok, hquery⟩ := exists_cut (slash :: rest)
      have hne : path ≠ [] := by
        rintro rfl
        cases query with
        | some query => exact absurd (List.cons.inj hl).1 (by decide)
        | none =>
            cases fragment with
            | some fragment => exact absurd (List.cons.inj hl).1 (by decide)
            | none => exact absurd hl (List.cons_ne_nil _ _)
      have hresults : Results u.text .init { u.authority with
          port := (mid.foldl portDigit 0).toNat
          path := path
          query := query.getD []
          fragment := fragment.getD [] } := by
        refine hcomes.results fun m hm hp hread => ?_
        have h := Http.results_path hm (hp.trans hl) hne hok hquery
          (congrArg Components.query hread)
        rwa [hread] at h
      rw [hresults.parses_iff]
      intro heq
      have hnil : optional slash u.path = path := congrArg Components.path heq
      rw [hpath] at hnil
      exact hne hnil.symm

theorem parses_iff (u : Uri) : Parses u.text u.components ↔
    u.path.isSome ∨ u.query = none ∧ u.fragment = none := by
  cases hpath : u.path with
  | some path => exact iff_of_true ((results_path hpath).parses_iff.mpr rfl) (.inl rfl)
  | none =>
      by_cases hnone : u.query = none ∧ u.fragment = none
      · exact iff_of_true ((results_nil hpath hnone.1 hnone.2).parses_iff.mpr rfl) (.inr hnone)
      · have hsome : u.query ≠ none ∨ u.fragment ≠ none := not_and_or.mp hnone
        refine iff_of_false ?_ fun h => h.elim (fun h => nomatch h) hnone
        by_cases hat : u.user = none → u.NoAt
        · exact not_parses_tail hat hpath hsome
        · rw [Classical.not_imp] at hat
          exact not_parses_at hat.1 hat.2

end Uri

/-- A host and a port come back as they were. -/
theorem HostPort.parses (a : HostPort) : Parses a.text a.components := by
  have hle := a.port_le
  have hport : ((portText a.port).foldl portDigit 0).toNat = a.port := by
    rw [foldl_portText, BitVec.toNat_ofNat]
    omega
  have hhost : Comes a.text .init .port (colon :: (portText a.port ++ []))
      { Components.empty with host := a.host.text } := by
    have hs : a.text = a.host.text ++ colon :: (portText a.port ++ []) := by
      rw [text, List.append_nil]
    have hok := a.host_ok
    cases hhost : a.host with
    | plain name =>
        rw [hhost] at hs hok
        refine comes_host_first hs hok.1 hok.2 fun hhead => ?_
        rw [List.append_nil] at hhead
        exact slash_notMem_portText a.port (List.mem_of_mem_head? hhead)
    | bracketed address =>
        have hs' : a.text = openBracket :: (address ++ closeBracket :: colon ::
            (portText a.port ++ [])) := by
          rw [hs, hhost, HostText.text, List.append_assoc]
          rfl
        refine (comes_bracket_first hs').trans fun m hm hp hread => ?_
        have hstart : a.text.drop (UriScan.hostStart a.text m) =
            (HostText.bracketed address).text ++ colon :: (portText a.port ++ []) := by
          rw [hostStart_not_at (hp ▸ fun h => absurd (Option.some_inj.mp h) (by decide)), hp,
            HostText.text, List.append_assoc]
          rfl
        have h := comes_host hm (hp ▸ List.cons_ne_nil _ _) (hhost ▸ hok) hstart
        rwa [hread] at h
  have hresults : Results a.text .init a.components := by
    refine hhost.results fun m hm hp hread => ?_
    have hport' : m.port = 0 := BitVec.eq_of_toNat_eq (congrArg Components.port hread)
    have h := comes_port hm hp (slash_notMem_portText a.port)
      fun b hb => absurd hb.symm (Option.some_ne_none b)
    rw [hread, hport', hport] at h
    refine h.results fun m' _ hp' hread' => ?_
    have hover := results_over hp'
    rw [hread'] at hover
    exact hover
  exact hresults.parses_iff.mpr rfl

/-- **`uri_parse` inverts the composition of a URI** exactly if a path follows the port or nothing
does, and that of a host and a port always; it ends for every string, and reads what is inside
only, exactly if the string does not end with an `'@'` where a host is expected. -/
theorem uri_parse_iff (u : Uri) (a : HostPort) (s : List UInt8) :
    (Parses u.text u.components ↔ u.path.isSome ∨ u.query = none ∧ u.fragment = none) ∧
    Parses a.text a.components ∧
    (∃ r, uriParse (6 * s.length + 6) s = some r) ∧
    ((∀ n, uriParse n s ≠ some none) ↔ ¬UriScan.AtSignLast s) := by
  refine ⟨u.parses_iff, a.parses, uriParse_ends s, ?_⟩
  rw [← UriScan.outside_iff]
  exact not_exists.symm

/-- `s://h:80?q`. -/
def queryUri : Uri where
  scheme := ascii "s"
  user := none
  host := .plain (ascii "h")
  port := 80
  path := none
  query := some (ascii "q")
  fragment := none
  scheme_ok := fun b hb => List.mem_singleton.mp hb ▸ by decide
  scheme_head := by decide
  user_ok := by simp
  host_ok := ⟨fun b hb => List.mem_singleton.mp hb ▸ by decide, by decide⟩
  host_at := fun name h => HostText.plain.inj h ▸ by decide
  port_pos := by decide
  port_le := by decide
  path_ok := by simp
  query_ok := fun t ht => Option.some_inj.mp ht ▸ by decide

/-- A query without a path is read as digits of the port, and behind `s://u@` the end is read. -/
theorem uri_parse_query : queryUri.text = ascii "s://h:80?q" ∧
    ¬Parses queryUri.text queryUri.components ∧ uriParse 4 (ascii "s://u@") = some none := by
  refine ⟨rfl, ?_, by decide⟩
  rw [Uri.parses_iff]
  rintro (h | ⟨h, -⟩)
  · exact Bool.false_ne_true h
  · exact Option.some_ne_none _ h

end Awoke.Http
