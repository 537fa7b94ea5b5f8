/-
What `uri_parse` makes of a string.

A turn of the loop is known from what is behind `p`: one lemma for each state and each thing that
can be there.
-/
import Awoke.Http.Uri

namespace Awoke.Http

open Scan

namespace UriScan

/-- The loop ends with this result. -/
def Ends (s : List UInt8) (m : UriScan) (r : Option (Except ErrType UriParts)) : Prop :=
  WhileLoop.Ends (fun m => m.p < s.length) (turn s) (fun m => some (.ok m.toUriParts)) m r

variable {s mid rest : List UInt8} {m m' : UriScan} {r r' : Option (Except ErrType UriParts)}

/-! ### Turns -/

theorem ends_over (h : s.drop m.p = []) : Ends s m r ↔ r = some (.ok m.toUriParts) :=
  WhileLoop.ends_of_last fun hlt => lt_length_iff.mp hlt h

theorem ends_next (h : s.drop m.p ≠ []) (hturn : turn s m = .next m') :
    Ends s m r ↔ Ends s m' r :=
  WhileLoop.ends_of_next (lt_length_iff.mpr h) hturn

theorem ends_ret (h : s.drop m.p ≠ []) (hturn : turn s m = .ret r') : Ends s m r ↔ r = r' :=
  WhileLoop.ends_of_ret (lt_length_iff.mpr h) hturn

/-- `P_START` in front of a bracket. -/
theorem start_bracket (hm : m.state = .start) (h : s.drop m.p = openBracket :: rest) :
    turn s m = .next { m with state := .host } := by
  have hhead : s[m.p]? = some openBracket := by rw [getElem?_eq_head?, h]; rfl
  rw [turn, hm]
  simp only [startTurn, if_pos hhead]

/-- `P_START` in front of anything else. -/
theorem start_name (hm : m.state = .start) (h : s.drop m.p = mid ++ rest)
    (hmid : ∀ b ∈ mid, ¬EndsName b) (hrest : ∀ b ∈ rest.head?, EndsName b)
    (hbracket : (mid ++ rest).head? ≠ some openBracket) :
    turn s m = .next
      (if rest.head? = some colon then
        { m with p := m.p + mid.length, state := .schemeOrPort }
      else { m with
        p := m.p + mid.length
        state := if rest.head? = some slash then .rest else .start
        host := some (.between 0 (m.p + mid.length)) }) := by
  have hhead : s[m.p]? ≠ some openBracket := by rwa [getElem?_eq_head?, h]
  have hend : s[m.p + mid.length]? = rest.head? := by rw [getElem?_eq_head?, drop_add h]
  rw [turn, hm]
  simp only [startTurn, if_neg hhead, scanTo_eq h hmid hrest, hend]
  by_cases hcolon : rest.head? = some colon
  · simp only [if_pos hcolon, reduceCtorEq, or_self, if_false]
  · by_cases hslash : rest.head? = some slash
    · simp only [if_neg hcolon, if_pos hslash, or_true, if_true]
    · simp only [if_neg hcolon, if_neg hslash, true_or, if_true]

/-- `P_SCHEME_OR_PORT` in front of `"://"`. -/
theorem schemeOrPort_scheme (hm : m.state = .schemeOrPort)
    (h : s.drop m.p = ascii "://" ++ rest) :
    turn s m = .next
      { m with scheme := some (.between 0 m.p), state := .userInfo, p := m.p + 3 } := by
  have hpre : (ascii "://").isPrefixOf (s.drop m.p) := by
    rw [h, List.isPrefixOf_iff_prefix]
    exact List.prefix_append _ _
  rw [turn, hm]
  simp only [schemeOrPortTurn, if_pos hpre]

/-- `P_SCHEME_OR_PORT` in front of anything else. -/
theorem schemeOrPort_port (hm : m.state = .schemeOrPort) (h : ¬ascii "://" <+: s.drop m.p) :
    turn s m = .next { m with host := some (.between 0 m.p), state := .port } := by
  have hpre : ¬(ascii "://").isPrefixOf (s.drop m.p) = true :=
    fun hpre => h (List.isPrefixOf_iff_prefix.mp hpre)
  rw [turn, hm]
  simp only [schemeOrPortTurn, if_neg hpre]

/-- `P_USER_INFO` with a user info. -/
theorem userInfo_some (hm : m.state = .userInfo) (h : s.drop m.p = mid ++ atSign :: rest)
    (hmid : ∀ b ∈ mid, ¬EndsUser b) :
    turn s m = .next { m with
      user := some (.between m.p (m.p + mid.length))
      p := m.p + mid.length
      state := .host } := by
  have hscan : scanTo s EndsUser m.p = m.p + mid.length := by
    refine scanTo_eq h hmid fun b hb => ?_
    obtain rfl : atSign = b := Option.some_inj.mp hb
    exact .inl rfl
  have hhead : s[m.p + mid.length]? = some atSign := by rw [getElem?_eq_head?, drop_add h]; rfl
  have hlt : ¬s.length ≤ m.p + mid.length := by
    rw [not_le, lt_length_iff, drop_add h]
    exact List.cons_ne_nil _ _
  have hstay : ¬(s.length ≤ m.p + mid.length ∨ s[m.p + mid.length]? = some slash ∨
      s[m.p + mid.length]? = some openBracket) := by
    rw [hhead]
    rintro (hle | hslash | hbracket)
    · exact hlt hle
    · exact absurd hslash (by decide)
    · exact absurd hbracket (by decide)
  rw [turn, hm]
  simp only [userInfoTurn, hscan, if_neg hstay]

/-- `P_USER_INFO` without one. -/
theorem userInfo_none (hm : m.state = .userInfo) (h : s.drop m.p = mid ++ rest)
    (hmid : ∀ b ∈ mid, ¬EndsUser b) (hrest : ∀ b ∈ rest.head?, EndsUser b ∧ b ≠ atSign) :
    turn s m = .next { m with user := some (.between m.p m.p), state := .host } := by
  have hscan : scanTo s EndsUser m.p = m.p + mid.length :=
    scanTo_eq h hmid fun b hb => (hrest b hb).1
  have hback : s.length ≤ m.p + mid.length ∨ s[m.p + mid.length]? = some slash ∨
      s[m.p + mid.length]? = some openBracket := by
    rw [← not_lt, lt_length_iff, getElem?_eq_head?, drop_add h]
    cases rest with
    | nil => exact .inl (not_not.mpr rfl)
    | cons b rest =>
        obtain ⟨hat | hbracket | hslash, hne⟩ := hrest b rfl
        · exact absurd hat hne
        · exact .inr (.inr (hbracket ▸ rfl))
        · exact .inr (.inl (hslash ▸ rfl))
  rw [turn, hm]
  simp only [userInfoTurn, hscan, if_pos hback]

/-- `P_HOST` at the end of the string. -/
theorem host_outside (hm : m.state = .host) (h : s.drop (hostStart s m) = []) :
    turn s m = .ret none := by
  have hnone : s[hostStart s m]? = none := by rw [getElem?_eq_head?, h]; rfl
  rw [turn, hm]
  simp only [hostTurn, hnone]

/-- `P_HOST` with a host that is not in brackets. -/
theorem host_plain (hm : m.state = .host) (h : s.drop (hostStart s m) = mid ++ rest)
    (hne : mid ++ rest ≠ []) (hmid : ∀ b ∈ mid, ¬EndsName b)
    (hrest : ∀ b ∈ rest.head?, EndsName b) (hbracket : (mid ++ rest).head? ≠ some openBracket) :
    turn s m = .next { m with
      host := some (.between (hostStart s m) (hostStart s m + mid.length))
      p := hostStart s m + mid.length
      state := if rest.head? = some colon then .port
        else if rest.head? = some slash then .rest else .host } := by
  obtain ⟨b, hb⟩ : ∃ b, (mid ++ rest).head? = some b := by
    rw [← Option.isSome_iff_exists, List.isSome_head?]
    exact hne
  have hsome : s[hostStart s m]? = some b := by rw [getElem?_eq_head?, h, hb]
  have hb' : b ≠ openBracket := fun heq => hbracket (heq ▸ hb)
  have hscan := scanTo_eq h hmid hrest
  have hhead : s[hostStart s m + mid.length]? = rest.head? := by
    rw [getElem?_eq_head?, drop_add h]
  rw [turn, hm]
  simp only [hostTurn, hsome, if_neg hb', hscan, hostEnd, hhead, hm]

/-- `P_HOST` with a host in brackets. -/
theorem host_bracketed (hm : m.state = .host)
    (h : s.drop (hostStart s m) = openBracket :: mid ++ closeBracket :: rest)
    (hmid : closeBracket ∉ mid) :
    turn s m = .next { m with
      host := some (.between (hostStart s m) (hostStart s m + (mid.length + 2)))
      p := hostStart s m + (mid.length + 2)
      state := if rest.head? = some colon then .port
        else if rest.head? = some slash then .rest else .host } := by
  have hsome : s[hostStart s m]? = some openBracket := by rw [getElem?_eq_head?, h]; rfl
  have hscan : scanTo s (fun b => b = closeBracket) (hostStart s m) =
      hostStart s m + (mid.length + 1) := by
    refine scanTo_eq h (fun b hb heq => ?_) fun b hb => (Option.some_inj.mp hb).symm
    rcases List.mem_cons.mp hb with hopen | hb
    · exact absurd (hopen.symm.trans heq) (by decide)
    · exact hmid (heq ▸ hb)
  have hrest : s.drop (hostStart s m + (mid.length + 1)) = closeBracket :: rest := drop_add h
  have hlt : hostStart s m + (mid.length + 1) < s.length := by
    rw [lt_length_iff, hrest]
    exact List.cons_ne_nil _ _
  have hhead : s[hostStart s m + (mid.length + 2)]? = rest.head? := by
    rw [getElem?_eq_head?, ← drop_succ hrest]
    rfl
  rw [turn, hm]
  simp only [hostTurn, hsome, if_true, hscan, if_pos hlt, hostEnd, Nat.add_assoc, hhead, hm]

/-- `P_HOST` with a bracket that is not closed. -/
theorem host_open (hm : m.state = .host) (h : s.drop (hostStart s m) = openBracket :: rest)
    (hrest : closeBracket ∉ rest) : turn s m = .ret (some (.error .etParam)) := by
  have hsome : s[hostStart s m]? = some openBracket := by rw [getElem?_eq_head?, h]; rfl
  have hscan : scanTo s (fun b => b = closeBracket) (hostStart s m) =
      hostStart s m + (rest.length + 1) := by
    refine scanTo_last h fun b hb heq => ?_
    rcases List.mem_cons.mp hb with hopen | hb
    · exact absurd (hopen.symm.trans heq) (by decide)
    · exact hrest (heq ▸ hb)
  have hlt : ¬hostStart s m + (rest.length + 1) < s.length := by
    have hlen := congrArg List.length h
    rw [List.length_drop, List.length_cons] at hlen
    omega
  rw [turn, hm]
  simp only [hostTurn, hsome, if_true, hscan, if_neg hlt]

/-- `P_PORT`. -/
theorem port_turn (hm : m.state = .port) (h : s.drop (m.p + 1) = mid ++ rest)
    (hmid : slash ∉ mid) (hrest : ∀ b ∈ rest.head?, b = slash) :
    turn s m = .next { m with
      port := mid.foldl portDigit m.port
      state := if rest.head? = some slash then .rest else .port
      p := m.p + 1 + mid.length } := by
  have hscan : scanTo s (fun b => b = slash) (m.p + 1) = m.p + 1 + mid.length :=
    scanTo_eq h (fun b hb heq => hmid (heq ▸ hb)) hrest
  have hhead : s[m.p + 1 + mid.length]? = rest.head? := by rw [getElem?_eq_head?, drop_add h]
  rw [turn, hm]
  simp only [portTurn, hscan, hhead, Nat.add_sub_cancel_left, take_drop h, hm]

/-! ### It ends -/

/-- How many turns there are at most without a move. -/
def rank : UriState → Nat
  | .start => 5
  | .schemeOrPort => 4
  | .userInfo => 3
  | .host => 2
  | .port => 1
  | .rest => 0

/-- What every turn lowers. -/
def measure (s : List UInt8) (m : UriScan) : Nat := 6 * (s.length - m.p) + rank m.state

theorem measure_lt_of_rank {a b : UriState} (hp : m.p ≤ m'.p) (hm : m.state = a)
    (hm' : m'.state = b) (h : rank b < rank a) : measure s m' < measure s m := by
  rw [measure, measure, hm, hm']
  omega

theorem measure_lt_of_lt (hlt : m.p < s.length) (hp : m.p < m'.p) :
    measure s m' < measure s m := by
  have hrank : rank m'.state ≤ 5 := by cases m'.state <;> decide
  rw [measure, measure]
  omega

theorem lt_scanTo_name {p : Nat} (hp : p < s.length)
    (hcolon : ¬s[scanTo s EndsName p]? = some colon)
    (hslash : ¬s[scanTo s EndsName p]? = some slash) : p < scanTo s EndsName p := by
  have hsome := List.getElem?_eq_getElem hp
  refine lt_scanTo hsome fun hends => ?_
  rw [scanTo_self hsome hends, hsome] at hcolon hslash
  exact hends.elim (fun h => hcolon (congrArg some h)) fun h => hslash (congrArg some h)

theorem startTurn_lt (hm : m.state = .start) (hlt : m.p < s.length) :
    measure s (startTurn s m) < measure s m := by
  rw [startTurn]
  split
  case isTrue => exact measure_lt_of_rank (b := .host) le_rfl hm rfl (by decide)
  case isFalse =>
    dsimp only
    by_cases hcolon : s[scanTo s EndsName m.p]? = some colon
    · simp only [if_pos hcolon, reduceCtorEq, or_self, if_false]
      exact measure_lt_of_rank (b := .schemeOrPort) le_scanTo hm rfl (by decide)
    · by_cases hslash : s[scanTo s EndsName m.p]? = some slash
      · simp only [if_neg hcolon, if_pos hslash, or_true, if_true]
        exact measure_lt_of_rank (b := .rest) le_scanTo hm rfl (by decide)
      · simp only [if_neg hcolon, if_neg hslash, true_or, if_true]
        exact measure_lt_of_lt hlt (lt_scanTo_name hlt hcolon hslash)

theorem schemeOrPortTurn_lt (hm : m.state = .schemeOrPort) :
    measure s (schemeOrPortTurn s m) < measure s m := by
  rw [schemeOrPortTurn]
  split
  · exact measure_lt_of_rank (b := .userInfo) (Nat.le_add_right _ _) hm rfl (by decide)
  · exact measure_lt_of_rank (b := .port) le_rfl hm rfl (by decide)

theorem userInfoTurn_lt (hm : m.state = .userInfo) :
    measure s (userInfoTurn s m) < measure s m := by
  refine measure_lt_of_rank (b := .host) ?_ hm rfl (by decide)
  rw [userInfoTurn]
  dsimp only
  split
  · exact le_rfl
  · exact le_scanTo

theorem le_hostStart (s : List UInt8) (m : UriScan) : m.p ≤ hostStart s m := by
  rw [hostStart]
  split
  · exact Nat.le_succ _
  · exact le_rfl

theorem hostTurn_lt (hm : m.state = .host) (hlt : m.p < s.length)
    (hturn : hostTurn s m = .next m') : measure s m' < measure s m := by
  have hle := le_hostStart s m
  rw [hostTurn] at hturn
  cases hb : s[hostStart s m]? with
  | none =>
      rw [hb] at hturn
      exact absurd hturn (fun h => by cases h)
  | some b =>
      rw [hb] at hturn
      dsimp only at hturn
      split at hturn
      case isTrue =>
        split at hturn
        case isTrue =>
          obtain rfl := WhileLoop.Turn.next.inj hturn
          have hscan : hostStart s m ≤ scanTo s (fun b => b = closeBracket) (hostStart s m) :=
            le_scanTo
          exact measure_lt_of_lt hlt (Nat.lt_succ_of_le (le_trans hle hscan))
        case isFalse => exact absurd hturn (fun h => by cases h)
      case isFalse =>
        obtain rfl := WhileLoop.Turn.next.inj hturn
        have hscan : hostStart s m ≤ scanTo s EndsName (hostStart s m) := le_scanTo
        by_cases hcolon : s[scanTo s EndsName (hostStart s m)]? = some colon
        · exact measure_lt_of_rank (b := .port) (le_trans hle hscan) hm (if_pos hcolon) (by decide)
        · by_cases hslash : s[scanTo s EndsName (hostStart s m)]? = some slash
          · exact measure_lt_of_rank (b := .rest) (le_trans hle hscan) hm
              ((if_neg hcolon).trans (if_pos hslash)) (by decide)
          · have hstart : hostStart s m < s.length := (List.getElem?_eq_some_iff.mp hb).1
            exact measure_lt_of_lt hlt
              (Nat.lt_of_le_of_lt hle (lt_scanTo_name hstart hcolon hslash))

theorem portTurn_lt (hlt : m.p < s.length) : measure s (portTurn s m) < measure s m :=
  measure_lt_of_lt hlt (Nat.lt_of_succ_le le_scanTo)

theorem le_parseUriComponent (p : Nat) (seps : List UInt8) :
    p ≤ (parseUriComponent s p seps).2 := by
  have hscan : p ≤ scanTo s (fun b => b ∈ seps) p := le_scanTo
  rw [parseUriComponent]
  dsimp only
  split <;> omega

theorem lt_parseUriComponent {p : Nat} (hp : p < s.length) (seps : List UInt8) :
    p < (parseUriComponent s p seps).2 := by
  have hscan : p ≤ scanTo s (fun b => b ∈ seps) p := le_scanTo
  rw [parseUriComponent]
  dsimp only
  split <;> omega

theorem restTurn_lt (hlt : m.p < s.length) : measure s (restTurn s m) < measure s m := by
  refine measure_lt_of_lt hlt (lt_of_lt_of_le
    (lt_parseUriComponent hlt [questionMark, numberSign]) ?_)
  refine le_trans ?_ (le_parseUriComponent _ [])
  rw [restQuery]
  split
  · exact le_parseUriComponent _ _
  · exact le_rfl

theorem turn_lt (hlt : m.p < s.length) (hturn : turn s m = .next m') :
    measure s m' < measure s m := by
  rw [turn] at hturn
  split at hturn
  case h_1 hm => exact WhileLoop.Turn.next.inj hturn ▸ startTurn_lt hm hlt
  case h_2 hm => exact WhileLoop.Turn.next.inj hturn ▸ schemeOrPortTurn_lt hm
  case h_3 hm => exact WhileLoop.Turn.next.inj hturn ▸ userInfoTurn_lt hm
  case h_4 hm => exact hostTurn_lt hm hlt hturn
  case h_5 => exact WhileLoop.Turn.next.inj hturn ▸ portTurn_lt hlt
  case h_6 => exact WhileLoop.Turn.next.inj hturn ▸ restTurn_lt hlt

/-! ### What is read -/

/-- A host is expected, and all there is of it is an `'@'` at the end of the string.  In front of it
there may be hosts in brackets with neither a port nor a path. -/
inductive HostMissing : List UInt8 → Prop
  | here : HostMissing [atSign]
  | behind {address rest : List UInt8} (haddress : closeBracket ∉ address)
      (hrest : HostMissing rest) :
      HostMissing (openBracket :: address ++ closeBracket :: rest)
  | behindAt {address rest : List UInt8} (haddress : closeBracket ∉ address)
      (hrest : HostMissing rest) :
      HostMissing (atSign :: (openBracket :: address ++ closeBracket :: rest))

theorem HostMissing.head {l : List UInt8} (h : HostMissing l) :
    l.head? = some atSign ∨ l.head? = some openBracket := by
  cases h with
  | here => exact .inl rfl
  | behind => exact .inr rfl
  | behindAt => exact .inl rfl

theorem hostMissing_bracketed (hmid : closeBracket ∉ mid) :
    HostMissing (openBracket :: mid ++ closeBracket :: rest) ↔ HostMissing rest := by
  refine ⟨fun h => ?_, .behind hmid⟩
  generalize hl : openBracket :: mid ++ closeBracket :: rest = l at h
  cases h with
  | here => exact absurd (List.cons.inj hl).1 (by decide)
  | behind haddress hrest =>
      have hends : ∀ {l : List UInt8} (b), b ∈ (closeBracket :: l).head? → b = closeBracket :=
        fun b hb => (Option.some_inj.mp hb).symm
      obtain ⟨-, heq⟩ := scan_unique (fun b => b = closeBracket) (List.cons.inj hl).2
        (fun b hb heq => hmid (heq ▸ hb)) hends (fun b hb heq => haddress (heq ▸ hb)) hends
      rw [(List.cons.inj heq).2]
      exact hrest
  | behindAt => exact absurd (List.cons.inj hl).1 (by decide)

/-- So does what follows an `'@'`. -/
theorem hostMissing_at {l : List UInt8} (hne : l ≠ []) :
    HostMissing (atSign :: l) ↔ l.head? = some openBracket ∧ HostMissing l := by
  constructor
  · intro h
    cases h with
    | here => exact absurd rfl hne
    | behindAt haddress hrest => exact ⟨rfl, .behind haddress hrest⟩
  · rintro ⟨hhead, h⟩
    cases h with
    | here => exact absurd hhead (by decide)
    | behind haddress hrest => exact .behindAt haddress hrest
    | behindAt => exact absurd (Option.some_inj.mp hhead) (by decide)

theorem rest_not_outside (hm : m.state = .rest) : ¬Ends s m none := by
  by_cases h : s.drop m.p = []
  · rw [ends_over h]
    exact fun h => by cases h
  have hturn : turn s m = .next (restTurn s m) := by rw [turn, hm]
  have hover : s.drop (restTurn s m).p = [] := by
    have hscan : ∀ p, s.length ≤ (parseUriComponent s p []).2 := by
      intro p
      have heq : scanTo s (fun b => b ∈ []) p = p + (s.drop p).length :=
        scanTo_last rfl fun _ _ => List.not_mem_nil
      rw [parseUriComponent, heq, List.length_drop]
      dsimp only
      split <;> omega
    exact List.drop_eq_nil_of_le (hscan _)
  rw [ends_next h hturn, ends_over hover]
  exact fun h => by cases h

theorem port_not_outside (hm : m.state = .port) : ¬Ends s m none := by
  by_cases h : s.drop m.p = []
  · rw [ends_over h]
    exact fun h => by cases h
  obtain ⟨mid, rest, hcut, hmid, hrest⟩ := exists_scan (fun b => b = slash) (s.drop (m.p + 1))
  rw [ends_next h (port_turn hm hcut (fun hmem => hmid slash hmem rfl) hrest)]
  by_cases hslash : rest.head? = some slash
  · exact rest_not_outside (if_pos hslash)
  · have hnil : rest = [] := by
      cases rest with
      | nil => rfl
      | cons b rest => exact absurd (congrArg some (hrest b rfl)) hslash
    rw [ends_over (by rw [drop_add hcut, hnil])]
    exact fun h => by cases h

/-- Behind a host there is nothing more to read wrongly, unless another one is expected. -/
theorem hostEnd_outside (hst : m.state =
      if rest.head? = some colon then .port else if rest.head? = some slash then .rest else .host)
    (hp : s.drop m.p = rest)
    (hhost : m.state = .host → s.drop m.p = rest → (Ends s m none ↔ HostMissing rest)) :
    Ends s m none ↔ HostMissing rest := by
  by_cases hcolon : rest.head? = some colon
  · rw [if_pos hcolon] at hst
    refine iff_of_false (port_not_outside hst) fun h => ?_
    rcases h.head with hat | hbracket
    · exact absurd (hcolon.symm.trans hat) (by decide)
    · exact absurd (hcolon.symm.trans hbracket) (by decide)
  · rw [if_neg hcolon] at hst
    by_cases hslash : rest.head? = some slash
    · rw [if_pos hslash] at hst
      refine iff_of_false (rest_not_outside hst) fun h => ?_
      rcases h.head with hat | hbracket
      · exact absurd (hslash.symm.trans hat) (by decide)
      · exact absurd (hslash.symm.trans hbracket) (by decide)
    · rw [if_neg hslash] at hst
      exact hhost hst hp

/-- Behind a host that is not in brackets there is a port, or a path, or nothing. -/
theorem host_plain_not_outside (hm : m.state = .host) (hp : s.drop m.p ≠ [])
    (hl : s.drop (hostStart s m) = rest) (hne : rest ≠ [])
    (hbracket : rest.head? ≠ some openBracket) : ¬Ends s m none := by
  obtain ⟨mid, rest, rfl, hmid, hrest⟩ := exists_scan EndsName rest
  rw [ends_next hp (host_plain hm hl hne hmid hrest hbracket)]
  by_cases hcolon : rest.head? = some colon
  · exact port_not_outside (if_pos hcolon)
  · by_cases hslash : rest.head? = some slash
    · exact rest_not_outside ((if_neg hcolon).trans (if_pos hslash))
    · have hnil : rest = [] := by
        cases rest with
        | nil => rfl
        | cons b rest =>
            exact (hrest b rfl).elim (fun hb => absurd (congrArg some hb) hcolon)
              fun hb => absurd (congrArg some hb) hslash
      rw [ends_over (by rw [drop_add hl, hnil])]
      exact fun h => by cases h

/-- Behind the `'@'` there is a host in brackets, or nothing goes wrong. -/
theorem hostStart_outside_iff {l : List UInt8} (hm : m.state = .host) (hp : s.drop m.p ≠ [])
    (hl : s.drop (hostStart s m) = l) (hne : l ≠ [])
    (ih : ∀ m' : UriScan, m'.state = .host → (s.drop m'.p).length < l.length →
      (Ends s m' none ↔ HostMissing (s.drop m'.p))) :
    Ends s m none ↔ l.head? = some openBracket ∧ HostMissing l := by
  by_cases hbracket : l.head? = some openBracket
  · rw [and_iff_right hbracket]
    obtain ⟨l, rfl⟩ := List.head?_eq_some_iff.mp hbracket
    by_cases hclose : closeBracket ∈ l
    · obtain ⟨mid, rest, rfl, hmid⟩ := List.eq_append_cons_of_mem hclose
      rw [ends_next hp (host_bracketed hm hl hmid), ← List.cons_append, hostMissing_bracketed hmid]
      refine hostEnd_outside rfl ?_ fun hm' hp' => ?_
      · have hl' : s.drop (hostStart s m) = (openBracket :: mid ++ [closeBracket]) ++ rest := by
          simpa using hl
        have hdrop := drop_add hl'
        rw [List.length_append] at hdrop
        exact hdrop
      · refine (ih _ hm' ?_).trans (by rw [hp'])
        rw [hp', List.length_cons, List.length_append, List.length_cons]
        omega
    · rw [ends_ret hp (host_open hm hl hclose)]
      refine iff_of_false (fun h => by cases h) fun h => ?_
      cases h
      exact hclose (List.mem_append_right _ List.mem_cons_self)
  · exact iff_of_false (host_plain_not_outside hm hp hl hne hbracket) fun h => hbracket h.1

/-- A host that is expected. -/
theorem host_outside_iff (hm : m.state = .host) :
    Ends s m none ↔ HostMissing (s.drop m.p) := by
  induction hn : (s.drop m.p).length using Nat.strongRecOn generalizing m with
  | _ n ih =>
    have ih' : ∀ {l : List UInt8}, l.length ≤ n → ∀ m' : UriScan, m'.state = .host →
        (s.drop m'.p).length < l.length → (Ends s m' none ↔ HostMissing (s.drop m'.p)) :=
      fun hle m' hm' hlt => ih _ (lt_of_lt_of_le hlt hle) hm' rfl
    cases hl : s.drop m.p with
    | nil =>
        rw [ends_over hl]
        exact iff_of_false (fun h => by cases h) fun h => by cases h
    | cons b l =>
        have hp : s.drop m.p ≠ [] := hl ▸ List.cons_ne_nil b l
        have hlen : (b :: l).length = n := hl ▸ hn
        by_cases hb : b = atSign
        · subst hb
          have hstart : hostStart s m = m.p + 1 := by
            rw [hostStart, getElem?_eq_head?, hl]
            exact if_pos rfl
          have hdrop : s.drop (hostStart s m) = l := by rw [hstart, drop_succ hl]
          by_cases hne : l = []
          · rw [ends_ret hp (host_outside hm (hdrop.trans hne)), hne]
            exact iff_of_true rfl .here
          · rw [hostMissing_at hne]
            exact hostStart_outside_iff hm hp hdrop hne (ih' (hlen ▸ Nat.le_succ _))
        · have hstart : hostStart s m = m.p := by
            rw [hostStart, getElem?_eq_head?, hl]
            exact if_neg fun h => hb (Option.some_inj.mp h)
          rw [hostStart_outside_iff hm hp (by rw [hstart, hl]) (List.cons_ne_nil b l)
            (ih' hlen.le)]
          refine and_iff_right_of_imp fun h => h.head.resolve_left fun hat => ?_
          exact hb (Option.some_inj.mp hat)

/-- A user info or none, and then no host. -/
def NoHost (l : List UInt8) : Prop :=
  ∃ user rest, l = user ++ rest ∧ (∀ b ∈ user, ¬EndsUser b) ∧
    (user ≠ [] → rest.head? = some atSign) ∧ HostMissing rest

theorem HostMissing.ends {l : List UInt8} (h : HostMissing l) : ∀ b ∈ l.head?, EndsUser b := by
  intro b hb
  rcases h.head with hat | hbracket
  · exact .inl (Option.some_inj.mp (hb.symm.trans hat))
  · exact .inr (.inl (Option.some_inj.mp (hb.symm.trans hbracket)))

theorem userInfo_outside_iff (hm : m.state = .userInfo) :
    Ends s m none ↔ NoHost (s.drop m.p) := by
  obtain ⟨mid, rest, hl, hmid, hrest⟩ := exists_scan EndsUser (s.drop m.p)
  have hunique : ∀ user rest', mid ++ rest = user ++ rest' → (∀ b ∈ user, ¬EndsUser b) →
      HostMissing rest' → mid = user ∧ rest = rest' := fun user rest' heq huser h =>
    scan_unique EndsUser heq hmid hrest huser h.ends
  by_cases hnil : s.drop m.p = []
  · rw [ends_over hnil, hnil]
    refine iff_of_false (fun h => by cases h) ?_
    rintro ⟨user, rest, heq, -, -, h⟩
    rw [(List.append_eq_nil_iff.mp heq.symm).2] at h
    cases h
  by_cases hat : rest.head? = some atSign
  · obtain ⟨rest, rfl⟩ := List.head?_eq_some_iff.mp hat
    rw [ends_next hnil (userInfo_some hm hl hmid), host_outside_iff rfl, hl]
    change HostMissing (s.drop (m.p + mid.length)) ↔ _
    rw [drop_add hl]
    constructor
    · exact fun h => ⟨mid, _, rfl, hmid, fun _ => rfl, h⟩
    · rintro ⟨user, rest', heq, huser, -, h⟩
      rw [(hunique user rest' heq huser h).2]
      exact h
  · have hne : ∀ b ∈ rest.head?, EndsUser b ∧ b ≠ atSign :=
      fun b hb => ⟨hrest b hb, fun heq => hat (heq ▸ hb)⟩
    rw [ends_next hnil (userInfo_none hm hl hmid hne), host_outside_iff rfl]
    change HostMissing (s.drop m.p) ↔ _
    constructor
    · exact fun h => ⟨[], _, rfl, fun b hb => absurd hb List.not_mem_nil, fun h => absurd rfl h, h⟩
    · rw [hl]
      rintro ⟨user, rest', heq, huser, huat, h⟩
      obtain ⟨rfl, rfl⟩ := hunique user rest' heq huser h
      have hmid' : mid = [] := by
        by_contra hmid'
        exact hat (huat hmid')
      rw [hmid']
      exact h

/-- No host is there where one is expected, and the string ends with an `'@'`. -/
def AtSignLast (s : List UInt8) : Prop :=
  (s.head? = some openBracket ∧ HostMissing s) ∨
    ∃ scheme rest, s = scheme ++ (ascii "://" ++ rest) ∧ (∀ b ∈ scheme, ¬EndsName b) ∧
      scheme.head? ≠ some openBracket ∧ NoHost rest

/-- What is behind a name decides, if the string is cut there. -/
theorem name_outside_iff (hs : s = mid ++ rest) (hmid : ∀ b ∈ mid, ¬EndsName b)
    (hrest : ∀ b ∈ rest.head?, EndsName b) (hbracket : s.head? ≠ some openBracket) (hne : s ≠ []) :
    Ends s .init none ↔ ∃ rest', rest = ascii "://" ++ rest' ∧ NoHost rest' := by
  have hl : s.drop 0 = mid ++ rest := hs
  have hscheme : ∀ {P : Prop}, rest.head? ≠ some colon →
      ¬P → (P ↔ ∃ rest', rest = ascii "://" ++ rest' ∧ NoHost rest') := by
    intro P hcolon hP
    refine iff_of_false hP ?_
    rintro ⟨rest', rfl, -⟩
    exact hcolon rfl
  rw [ends_next (m := .init) hne (start_name rfl hl hmid hrest (hs ▸ hbracket))]
  by_cases hcolon : rest.head? = some colon
  · rw [if_pos hcolon]
    have hnil : rest ≠ [] := by
      rintro rfl
      cases hcolon
    by_cases hpre : ascii "://" <+: rest
    · obtain ⟨rest', rfl⟩ := hpre
      rw [ends_next (drop_add hl ▸ hnil) (schemeOrPort_scheme rfl (drop_add hl)),
        userInfo_outside_iff rfl]
      change NoHost (s.drop (0 + mid.length + 3)) ↔ _
      rw [← List.drop_drop, drop_add hl]
      refine ⟨fun h => ⟨rest', rfl, h⟩, ?_⟩
      rintro ⟨rest'', heq, h⟩
      rw [List.append_cancel_left heq]
      exact h
    · have hpre' : ¬ascii "://" <+: s.drop (0 + mid.length) := by rwa [drop_add hl]
      rw [ends_next (drop_add hl ▸ hnil) (schemeOrPort_port rfl hpre')]
      refine iff_of_false (port_not_outside rfl) ?_
      rintro ⟨rest', rfl, -⟩
      exact hpre (List.prefix_append _ _)
  · rw [if_neg hcolon]
    refine hscheme hcolon ?_
    by_cases hslash : rest.head? = some slash
    · exact rest_not_outside (if_pos hslash)
    · have hnil : rest = [] := by
        cases rest with
        | nil => rfl
        | cons b rest =>
            exact (hrest b rfl).elim (fun hb => absurd (congrArg some hb) hcolon)
              fun hb => absurd (congrArg some hb) hslash
      rw [ends_over ((drop_add hl).trans hnil)]
      exact fun h => by cases h

/-- **What is read is not inside** exactly where a host is missing. -/
theorem outside_iff (s : List UInt8) : Ends s .init none ↔ AtSignLast s := by
  by_cases hnil : s = []
  · subst hnil
    rw [ends_over rfl]
    refine iff_of_false (fun h => by cases h) ?_
    rintro (⟨h, -⟩ | ⟨scheme, rest, h, -⟩)
    · cases h
    · exact absurd (List.append_eq_nil_iff.mp h.symm).2 (List.cons_ne_nil _ _)
  by_cases hbracket : s.head? = some openBracket
  · obtain ⟨l, rfl⟩ := List.head?_eq_some_iff.mp hbracket
    rw [ends_next (m := .init) hnil (start_bracket rfl rfl), host_outside_iff rfl]
    refine ⟨fun h => .inl ⟨rfl, h⟩, ?_⟩
    rintro (⟨-, h⟩ | ⟨scheme, rest, h, -, hhead, -⟩)
    · exact h
    · cases scheme with
      | nil => exact absurd (List.cons.inj h).1 (by decide)
      | cons b scheme => exact absurd (congrArg some (List.cons.inj h).1.symm) hhead
  · obtain ⟨mid, rest, hs, hmid, hrest⟩ := exists_scan EndsName s
    rw [name_outside_iff hs hmid hrest hbracket hnil]
    constructor
    · rintro ⟨rest', rfl, h⟩
      refine .inr ⟨mid, rest', hs, hmid, fun hhead => hbracket ?_, h⟩
      rw [hs, List.head?_append, hhead]
      rfl
    · rintro (⟨h, -⟩ | ⟨scheme, rest', heq, hscheme, -, h⟩)
      · exact absurd h hbracket
      · have hends : ∀ b ∈ (ascii "://" ++ rest').head?, EndsName b :=
          fun b hb => .inl (Option.some_inj.mp hb).symm
        obtain ⟨-, rfl⟩ := scan_unique EndsName (hs.symm.trans heq) hmid hrest hscheme hends
        exact ⟨rest', rfl, h⟩

end UriScan

/-- **`uri_parse` ends.** -/
theorem uriParse_ends (s : List UInt8) : ∃ r, uriParse (6 * s.length + 6) s = some r :=
  WhileLoop.exists_run (UriScan.measure s) (fun _ _ hlt hturn => UriScan.turn_lt hlt hturn) .init

end Awoke.Http
