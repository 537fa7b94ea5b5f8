/-
When a poll comes to its end.

Every jump back to `poll_repeat` takes bytes out of the buffer, and every turn after one adds `c`
to its length once more, though the bytes were added before.  A jump is progress when it took out
more than `c`.  A frame does so when it was not received with this read alone; so does a scan that
skips all there is, unless nothing was there before the read: then the next turn finds as many bytes
as this one.

Without bytes received, `c` is not added and every jump is progress, for any of the protocols.

A poll that hands a message to a `read` without a result, or with another code than `et_ok`, does
not come to its end: of the protocols registered here, litetalk returns one for a frame of a
category it does not know.
-/
import Awoke.Cmder.Ecmd
import Awoke.Lib.DoWhile
import Awoke.Proofs.LitetalkMatch
import Awoke.Proofs.RxPoll

namespace Awoke.Cmder

variable {σ : Type} {protos : List (Protocol σ)} {s s' : Polling σ} {t : Tcvr σ}

/-! ### Turns -/

/-- One turn of a poll under way; there is none after a crash. -/
def turn (protos : List (Protocol σ)) : Tcvr σ → Option (Tcvr σ)
  | .idle buffer env => some (.idle buffer env)
  | .polling s =>
      match (pass protos s).1 with
      | .crashed _ _ => none
      | t => some t
  | .crashed _ _ => none

/-- The poll is at `poll_repeat`. -/
def AtRepeat : Tcvr σ → Prop
  | .idle _ _ | .crashed _ _ => False
  | .polling _ => True

/-- A turn that jumps back leaves fewer bytes in the buffer than it found. -/
def Sheds (protos : List (Protocol σ)) : Tcvr σ → Prop
  | .idle _ _ | .crashed _ _ => True
  | .polling s => ∀ s', (pass protos s).1 = .polling s' → s'.buffer.length < s.buffer.length

/-- The bytes of the last read do not stand for those a jump takes out: a message that leaves some
behind is longer than what was read, and when all is skipped, there was some before. -/
def Spent (protos : List (Protocol σ)) : Tcvr σ → Prop
  | .idle _ _ | .crashed _ _ => True
  | .polling s => 0 < s.c →
      match s.verdict protos with
      | .matched n => s.poller = .tcp → s.entered.length ≠ n → s.c < n
      | .scanned n => s.entered.length = n → 0 < s.buffer.length
      | _ => True

/-- A message the turn matches is read with `et_ok`. -/
def ReadOk (protos : List (Protocol σ)) : Tcvr σ → Prop
  | .idle _ _ => True
  | .polling s => s.c > 0 ∨ s.buffer.length ≠ 0 → ∀ n, s.verdict protos ≠ .failed n
  | .crashed _ _ => False

/-- A turn leads to what its `pass` does, unless that crashes. -/
theorem turn_some {t' : Tcvr σ} (h : turn protos (.polling s) = some t') :
    (pass protos s).1 = t' := by
  rw [turn] at h
  split at h
  · cases h
  · exact Option.some.inj h

/-- **A poll that comes to its end returns**, with turns enough. -/
theorem finishes_finish {P : Tcvr σ → Prop} (h : DoWhile.Finishes (turn protos) AtRepeat P t) :
    ∃ fuel, (finish protos fuel t).isSome := by
  induction h with
  | @last t t' _ hbody hdone =>
      cases t with
      | idle buffer env => exact ⟨0, by rw [finish]; rfl⟩
      | polling s =>
          have hpass := turn_some hbody
          cases t' with
          | idle buffer env =>
              refine ⟨1, ?_⟩
              rw [finish, hpass, finish]
              rfl
          | polling s' => exact absurd trivial hdone
          | crashed buffer env =>
              rw [turn, hpass] at hbody
              cases hbody
      | crashed buffer env => cases hbody
  | @turn t t' _ hbody _ _ ih =>
      obtain ⟨fuel, hfuel⟩ := ih
      cases t with
      | idle buffer env => exact ⟨0, by rw [finish]; rfl⟩
      | polling s =>
          refine ⟨fuel + 1, ?_⟩
          rw [finish, Option.isSome_map, turn_some hbody]
          exact hfuel
      | crashed buffer env => cases hbody

/-! ### What a jump takes out -/

/-- The turn takes out `n` bytes and jumps back. -/
def Jumps (protos : List (Protocol σ)) (s : Polling σ) (n : Int) : Prop :=
  (s.c > 0 ∨ s.buffer.length ≠ 0) ∧
    (s.verdict protos = .matched n ∧ s.poller = .tcp ∧ s.entered.length ≠ n ∨
      s.verdict protos = .scanned n ∧ s.entered.length = n)

theorem ReadOk.of_verdict {v : Verdict} (hv : s.verdict protos = v) (hne : ∀ n, v ≠ .failed n) :
    ReadOk protos (.polling s) :=
  fun _ n h => hne n (hv.symm.trans h)

/-- **Where a turn leads**: back, with some bytes taken out, to a return, or to a crash. -/
theorem pass_cases (protos : List (Protocol σ)) (s : Polling σ) :
    (ReadOk protos (.polling s) ∧ ∃ n env rlen, Jumps protos s n ∧
        (pass protos s).1 = s.goto (s.entered.backoff n) env rlen) ∨
      (ReadOk protos (.polling s) ∧ (∀ n, ¬Jumps protos s n) ∧
        ∃ buffer env, (pass protos s).1 = .idle buffer env) ∨
      ¬ReadOk protos (.polling s) ∧ (∀ n, ¬Jumps protos s n) ∧
        ∃ buffer env, (pass protos s).1 = .crashed buffer env := by
  have hlen : ∀ n, (s.entered.backoff n).length = s.entered.length - n := fun _ => rfl
  by_cases hguard : s.c > 0 ∨ s.buffer.length ≠ 0
  · simp only [pass, hguard, if_true, Jumps, true_and, ReadOk, true_implies, Polling.verdict]
    rcases examine protos s.entered.p s.entered.length s.env s.rlen with ⟨v, env, rlen⟩
    cases v with
    | matched n =>
        simp only [hlen, Int.sub_eq_zero]
        have hok : ∀ m, Verdict.matched n ≠ .failed m := fun m => by simp
        by_cases hrest : s.entered.length = n
        · rw [if_pos hrest]
          refine .inr (.inl ⟨hok, ?_, _, _, rfl⟩)
          rintro m (⟨hv, -, hne⟩ | ⟨hv, -⟩)
          · cases hv
            exact hne hrest
          · cases hv
        by_cases htcp : s.poller = .tcp
        · rw [if_neg hrest, if_pos htcp]
          exact .inl ⟨hok, n, env, rlen, .inl ⟨rfl, htcp, hrest⟩, rfl⟩
        · rw [if_neg hrest, if_neg htcp]
          refine .inr (.inl ⟨hok, ?_, _, _, rfl⟩)
          rintro m (⟨-, hm, -⟩ | ⟨hv, -⟩)
          · exact htcp hm
          · cases hv
    | failed n => exact .inr (.inr ⟨fun h => h n rfl, fun m hm => by simp at hm, _, _, rfl⟩)
    | incomplete =>
        exact .inr (.inl ⟨fun m => by simp, fun m hm => by simp at hm, _, _, rfl⟩)
    | paramError n =>
        exact .inr (.inl ⟨fun m => by simp, fun m hm => by simp at hm, _, _, rfl⟩)
    | scanned n =>
        simp only [hlen, Int.sub_eq_zero]
        have hok : ∀ m, Verdict.scanned n ≠ .failed m := fun m => by simp
        by_cases hrest : s.entered.length = n
        · rw [if_pos hrest]
          exact .inl ⟨hok, n, env, rlen, .inr ⟨rfl, hrest⟩, rfl⟩
        · rw [if_neg hrest]
          refine .inr (.inl ⟨hok, ?_, _, _, rfl⟩)
          rintro m (⟨hv, -⟩ | ⟨hv, hm⟩)
          · cases hv
          · cases hv
            exact hrest hm
    | none => exact .inr (.inl ⟨fun m => by simp, fun m hm => by simp at hm, _, _, rfl⟩)
  · rw [pass, if_neg hguard]
    exact .inr (.inl ⟨fun h => absurd h hguard, fun n hn => hguard hn.1, _, _, rfl⟩)

theorem turn_isSome_iff :
    (∃ t', turn protos (.polling s) = some t') ↔ ReadOk protos (.polling s) := by
  rcases pass_cases protos s with ⟨hok, n, env, rlen, -, hpass⟩ | ⟨hok, -, buffer, env, hpass⟩ |
    ⟨hbad, -, buffer, env, hpass⟩
  · exact iff_of_true ⟨s.goto (s.entered.backoff n) env rlen, by rw [turn, hpass]; rfl⟩ hok
  · exact iff_of_true ⟨.idle buffer env, by rw [turn, hpass]⟩ hok
  · refine iff_of_false ?_ hbad
    rintro ⟨t', ht'⟩
    rw [turn, hpass] at ht'
    cases ht'

theorem entered_length (s : Polling σ) :
    s.entered.length = if 0 < s.c then s.buffer.length + s.c else s.buffer.length := by
  rw [Polling.entered]
  split
  · rfl
  · rfl

/-! ### Protocols that match what is there -/

/-- What the protocol matches is at the front of the buffer. -/
def Fits (proto : Protocol σ) : Prop :=
  ∀ env p length rlen, 0 ≤ length → (proto.match_ env p length rlen).1 = .etOk →
    0 ≤ (proto.match_ env p length rlen).2.1 ∧ (proto.match_ env p length rlen).2.1 ≤ length

theorem matchLoop_matched {p : Cells UInt8} {length n : Int} (hlength : 0 ≤ length) :
    ∀ {protos : List (Protocol σ)}, (∀ proto ∈ protos, Fits proto) → ∀ {env : σ} {rlen : Int},
      (matchLoop p length protos env rlen).1 = some (.matched n) → 0 < n ∧ n ≤ length := by
  intro protos
  induction protos with
  | nil =>
      intro _ env rlen h
      cases h
  | cons proto protos ih =>
      intro hfits env rlen h
      rw [List.forall_mem_cons] at hfits
      rw [matchLoop] at h
      by_cases hok : (proto.match_ env p length rlen).1 = .etOk ∧
          (proto.match_ env p length rlen).2.1 ≠ 0
      · rw [if_pos hok] at h
        obtain ⟨hlow, hhigh⟩ := hfits.1 env p length rlen hlength hok.1
        have hne := hok.2
        split at h
        · cases h
          exact ⟨by omega, hhigh⟩
        · cases h
      rw [if_neg hok] at h
      split at h
      · cases h
      split at h
      · cases h
      · exact ih hfits.2 h

theorem scanLoop_not_matched {p : Cells UInt8} {length n : Int} :
    ∀ {protos : List (Protocol σ)} {env : σ} {rlen : Int},
      (scanLoop p length protos env rlen).1 ≠ .matched n := by
  intro protos
  induction protos with
  | nil =>
      intro env rlen h
      cases h
  | cons proto protos ih =>
      intro env rlen h
      rw [scanLoop] at h
      split at h
      · exact ih h
      split at h
      · cases h
      · exact ih h

/-- **A message has bytes, and no more than there are.** -/
theorem verdict_matched (hfits : ∀ proto ∈ protos, Fits proto) (hlength : 0 ≤ s.entered.length)
    {n : Int} (h : s.verdict protos = .matched n) : 0 < n ∧ n ≤ s.entered.length := by
  rw [Polling.verdict, examine] at h
  rcases hmatch : matchLoop s.entered.p s.entered.length protos s.env s.rlen with ⟨v, env, rlen⟩
  rw [hmatch] at h
  cases v with
  | none => exact absurd h scanLoop_not_matched
  | some v =>
      have hsome : (matchLoop s.entered.p s.entered.length protos s.env s.rlen).1 =
          some (.matched n) := by
        rw [hmatch]
        exact congrArg some h
      exact matchLoop_matched hlength hfits hsome

theorem Jumps.fits (hfits : ∀ proto ∈ protos, Fits proto) (hlow : 0 ≤ s.buffer.length) {n : Int}
    (h : Jumps protos s n) : 0 < n ∧ n ≤ s.entered.length := by
  have hentered := entered_length s
  obtain ⟨hguard, hverdict⟩ := h
  rcases hverdict with ⟨hmatched, -⟩ | ⟨-, hall⟩
  · exact verdict_matched hfits (by omega) hmatched
  · omega

theorem Jumps.unique {m n : Int} (hm : Jumps protos s m) (hn : Jumps protos s n) : m = n := by
  rcases hm.2 with ⟨hv, -⟩ | ⟨hv, -⟩
  · rcases hn.2 with ⟨hv', -⟩ | ⟨hv', -⟩
    · exact Verdict.matched.inj (hv.symm.trans hv')
    · cases hv.symm.trans hv'
  · rcases hn.2 with ⟨hv', -⟩ | ⟨hv', -⟩
    · cases hv.symm.trans hv'
    · exact Verdict.scanned.inj (hv.symm.trans hv')

theorem sheds_jumps :
    Sheds protos (.polling s) ↔
      ∀ n, Jumps protos s n → s.entered.length - n < s.buffer.length := by
  rcases pass_cases protos s with ⟨-, n, env, rlen, hn, hpass⟩ | ⟨-, hnone, buffer, env, hpass⟩ |
    ⟨-, hnone, buffer, env, hpass⟩
  · rw [Sheds, hpass]
    constructor
    · intro h m hm
      rw [← hn.unique hm]
      exact h _ rfl
    · intro h s' hs'
      cases hs'
      exact h n hn
  · rw [Sheds, hpass]
    exact iff_of_true (fun s' hs' => by cases hs') fun n hn => absurd hn (hnone n)
  · rw [Sheds, hpass]
    exact iff_of_true (fun s' hs' => by cases hs') fun n hn => absurd hn (hnone n)

theorem spent_jumps :
    Spent protos (.polling s) ↔ (0 < s.c → ∀ n, Jumps protos s n → s.c < n) := by
  have hentered := entered_length s
  rw [Spent]
  refine imp_congr_right fun hc => ?_
  rw [if_pos hc] at hentered
  cases hv : s.verdict protos with
  | matched m =>
      constructor
      · rintro h n ⟨-, ⟨hn, htcp, hne⟩ | ⟨hn, -⟩⟩
        · rw [hv] at hn
          cases hn
          exact h htcp hne
        · cases hv.symm.trans hn
      · intro h htcp hne
        exact h m ⟨.inl hc, .inl ⟨hv, htcp, hne⟩⟩
  | scanned m =>
      constructor
      · rintro h n ⟨-, ⟨hn, -⟩ | ⟨hn, hall⟩⟩
        · cases hv.symm.trans hn
        · rw [hv] at hn
          cases hn
          have := h hall
          omega
      · intro h hall
        have := h m ⟨.inl hc, .inr ⟨hv, hall⟩⟩
        omega
  | failed | incomplete | paramError | none =>
      refine iff_of_true trivial ?_
      rintro n ⟨-, ⟨hn, -⟩ | ⟨hn, -⟩⟩
      · cases hv.symm.trans hn
      · cases hv.symm.trans hn

/-- **A turn sheds bytes exactly when those of the last read are spent.** -/
theorem sheds_iff (hfits : ∀ proto ∈ protos, Fits proto) (hlow : 0 ≤ s.buffer.length) :
    Sheds protos (.polling s) ↔ Spent protos (.polling s) := by
  have hentered := entered_length s
  rw [sheds_jumps, spent_jumps]
  by_cases hc : 0 < s.c
  · rw [if_pos hc] at hentered
    rw [imp_iff_right hc]
    refine forall_congr' fun n => imp_congr_right fun _ => ?_
    rw [hentered]
    omega
  · rw [if_neg hc] at hentered
    refine iff_of_true (fun n hn => ?_) fun h => absurd h hc
    have hpos := (hn.fits hfits hlow).1
    omega

/-! ### Polls -/

/-- The bytes in the buffer at `poll_repeat`. -/
def Tcvr.bytes : Tcvr σ → Int
  | .idle _ _ | .crashed _ _ => 0
  | .polling s => s.buffer.length

/-- A turn that sheds bytes and jumps back leaves some of them, or none. -/
theorem turn_bytes (hfits : ∀ proto ∈ protos, Fits proto) (hlow : 0 ≤ s.buffer.length)
    (hsheds : Sheds protos (.polling s)) (hbody : turn protos (.polling s) = some t)
    (hagain : AtRepeat t) : 0 ≤ t.bytes ∧ t.bytes.toNat < (Tcvr.polling s).bytes.toNat := by
  rw [← turn_some hbody] at hagain ⊢
  rcases pass_cases protos s with ⟨-, n, env, rlen, hn, hpass⟩ | ⟨-, -, buffer, env, hpass⟩ |
    ⟨-, -, buffer, env, hpass⟩
  · have hless := sheds_jumps.mp hsheds n hn
    have hthere := (hn.fits hfits hlow).2
    have hbytes : (pass protos s).1.bytes = s.entered.length - n := by
      rw [hpass]
      rfl
    have hold : (Tcvr.polling s).bytes = s.buffer.length := rfl
    rw [hbytes, hold]
    omega
  · rw [hpass] at hagain
    exact absurd hagain id
  · rw [hpass] at hagain
    exact absurd hagain id

/-- **When a poll comes to its end, shedding bytes at every jump**: when in every turn those of
the last read are spent, and the message, if there is one, is read. -/
theorem poll_finishes_iff (hfits : ∀ proto ∈ protos, Fits proto) (hlow : 0 ≤ s.buffer.length) :
    DoWhile.Finishes (turn protos) AtRepeat (Sheds protos) (.polling s) ↔
      ∀ u, DoWhile.Turns (turn protos) AtRepeat (.polling s) u →
        Spent protos u ∧ ReadOk protos u := by
  refine DoWhile.finishes_iff (J := fun t => 0 ≤ t.bytes) (fun t => t.bytes.toNat) ?_ ?_ hlow
  · intro t hJ
    cases t with
    | idle buffer env => exact iff_of_true ⟨trivial, _, rfl⟩ ⟨trivial, trivial⟩
    | polling s => exact and_congr (sheds_iff hfits hJ) turn_isSome_iff
    | crashed buffer env => exact iff_of_false (fun h => nomatch h.2) fun h => h.2
  · intro t t' hJ hC hbody hagain
    cases t with
    | idle buffer env =>
        cases hbody
        exact absurd hagain id
    | polling s => exact turn_bytes hfits hJ ((sheds_iff hfits hJ).mpr hC.1) hbody hagain
    | crashed buffer env => cases hbody

/-! ### The protocols that are registered -/

/-- The protocols a poller is registered with. -/
inductive Kind
  | xfer
  | litetalk
  | ecmd
  | ecmd2
  deriving DecidableEq

/-- The protocol, whatever each does with a message: `read` has no result where that crashes. -/
def Kind.protocol (read : Kind → σ → Cells UInt8 → Int → Option σ) (kind : Kind) : Protocol σ :=
  let proto : Protocol σ :=
    match kind with
    | .xfer => xferProtocol fun env _ _ => env
    | .litetalk => litetalkProtocol fun env _ _ => env
    | .ecmd => ecmdProtocol fun env _ _ => env
    | .ecmd2 => ecmd2Protocol fun env _ _ => env
  { proto with
    read := fun env buf len => (read kind env buf len).bind fun env' => proto.read env' buf len }

theorem xfer_fits (read : σ → Cells UInt8 → Int → σ) : Fits (xferProtocol read) := by
  intro env p length rlen hlength hok
  simp only [xferProtocol, xferMatch] at hok ⊢
  by_cases hshort : 0 ≤ length ∧ length < 8 + 2
  · rw [if_pos hshort] at hok
    cases hok
  by_cases hmark : p 0 = xferPrefix
  · by_cases hwait : length < (xferLength (p 1) (p 2) (p 3) : Int)
    · rw [if_neg hshort, if_neg (not_not.mpr hmark), if_pos hwait] at hok
      cases hok
    · rw [if_neg hshort, if_neg (not_not.mpr hmark), if_neg hwait] at hok ⊢
      split at hok
      · cases hok
      · rename_i hposfix
        rw [if_neg hposfix]
        exact ⟨Int.natCast_nonneg _, Int.not_lt.mp hwait⟩
  · rw [if_neg hshort, if_pos hmark] at hok
    cases hok

theorem litetalk_fits (read : σ → Cells UInt8 → Int → σ) : Fits (litetalkProtocol read) := by
  intro env p length rlen _ hok
  simp only [litetalkProtocol] at hok ⊢
  rw [litetalkMatch_ok hok]
  exact ⟨Int.natCast_nonneg _, (litetalkMatch_ok_iff.mp hok).2.2⟩

/-- A frame of six bytes is there when it is matched. -/
theorem matchWord_ok {word : UInt16} {unended : ErrType × Int} {p : Cells UInt8}
    {length rlen : Int} (hunended : unended.1 ≠ .etOk)
    (hok : (matchWord word unended p length rlen).1 = .etOk) :
    0 ≤ (matchWord word unended p length rlen).2 ∧
      (matchWord word unended p length rlen).2 ≤ length := by
  rw [matchWord] at hok ⊢
  split at hok
  · cases hok
  split at hok
  · cases hok
  split at hok
  · cases hok
  split at hok
  · exact absurd hok hunended
  · rename_i hlong hword hlength hlast
    rw [if_neg hlong, if_neg hword, if_neg hlength, if_neg hlast]
    exact ⟨by decide, Int.not_lt.mp hlength⟩

theorem ecmd_fits (read : σ → Cells UInt8 → Int → σ) : Fits (ecmdProtocol read) :=
  fun _ _ _ _ _ hok => matchWord_ok (fun h => by cases h) hok

theorem ecmd2_fits (read : σ → Cells UInt8 → Int → σ) : Fits (ecmd2Protocol read) :=
  fun _ _ _ _ _ hok => matchWord_ok (fun h => by cases h) hok

/-- **Each of them matches what is there.** -/
theorem Kind.fits (read : Kind → σ → Cells UInt8 → Int → Option σ) (kinds : List Kind) :
    ∀ proto ∈ kinds.map (Kind.protocol read), Fits proto := by
  intro proto hproto
  obtain ⟨kind, -, rfl⟩ := List.mem_map.mp hproto
  cases kind with
  | xfer => exact xfer_fits fun env _ _ => env
  | litetalk => exact litetalk_fits fun env _ _ => env
  | ecmd => exact ecmd_fits fun env _ _ => env
  | ecmd2 => exact ecmd2_fits fun env _ _ => env

/-- **When a message is read**: what is done with it has a result, and litetalk knows its
category. -/
theorem Kind.read_ok_iff (read : Kind → σ → Cells UInt8 → Int → Option σ) (kind : Kind)
    {env env' : σ} {buf : Cells UInt8} {len : Int} :
    (kind.protocol read).read env buf len = some (.etOk, env') ↔
      read kind env buf len = some env' ∧
        (kind = .litetalk → buf 4 = categoryCOMMAND ∨ buf 4 = categorySTREAM) := by
  have hcode : (litetalkRead true buf 0).1 = .etOk ↔
      buf 4 = categoryCOMMAND ∨ buf 4 = categorySTREAM := by
    have hcategory : (readHeader buf).category = buf 4 := rfl
    simp only [litetalkRead, hcategory]
    split
    · rename_i hcommand
      exact iff_of_true rfl (.inl hcommand)
    split
    · rename_i hstream
      exact iff_of_true rfl (.inr hstream)
    · rename_i hcommand hstream
      exact iff_of_false (fun h => nomatch h) (not_or.mpr ⟨hcommand, hstream⟩)
  cases hread : read kind env buf len with
  | none => exact iff_of_false (by simp [Kind.protocol, hread]) fun h => nomatch h.1
  | some env₁ =>
      cases kind with
      | litetalk =>
          simp only [Kind.protocol, hread, Option.bind_some, litetalkProtocol, Option.some.injEq,
            Prod.mk.injEq, true_implies, hcode]
          exact and_comm
      | xfer => simp [Kind.protocol, hread, xferProtocol]
      | ecmd => simp [Kind.protocol, hread, ecmdProtocol]
      | ecmd2 => simp [Kind.protocol, hread, ecmd2Protocol]

/-- **The loop of either poller**, over any of the protocols, any buffer and any count read. -/
theorem poll_repeat_iff (read : Kind → σ → Cells UInt8 → Int → Option σ) (kinds : List Kind)
    (s : Polling σ) (hlow : 0 ≤ s.buffer.length) :
    DoWhile.Finishes (turn (kinds.map (Kind.protocol read))) AtRepeat
        (Sheds (kinds.map (Kind.protocol read))) (.polling s) ↔
      ∀ u, DoWhile.Turns (turn (kinds.map (Kind.protocol read))) AtRepeat (.polling s) u →
        Spent (kinds.map (Kind.protocol read)) u ∧
          ReadOk (kinds.map (Kind.protocol read)) u :=
  poll_finishes_iff (Kind.fits read kinds) hlow

/-- A frame of the xfer protocol that was received in an empty buffer. -/
def oneFrame : Polling Unit :=
  { poller := .tcp
    buffer := { rxbuffer with p := Cells.write rxbuffer.p 0 readFrame }
    env := ()
    c := 10
    rlen := 0 }

/-- Nothing is left behind it. -/
theorem poll_repeat_iff_oneFrame :
    DoWhile.Finishes
      (turn ([.ecmd, .litetalk, .xfer].map (Kind.protocol fun _ env _ _ => some env))) AtRepeat
      (Sheds ([.ecmd, .litetalk, .xfer].map (Kind.protocol fun _ env _ _ => some env)))
      (.polling oneFrame) := by
  refine (poll_repeat_iff (fun _ env _ _ => some env) [.ecmd, .litetalk, .xfer] oneFrame
    (show 0 ≤ (0 : Int) by decide)).mpr fun u hu => ?_
  cases hu with
  | here => exact ⟨fun _ _ hne => absurd rfl hne, fun _ n h => nomatch h⟩
  | next hbody hagain _ =>
      cases hbody
      exact absurd hagain id

/-- A buffer of zeros in which nothing is left over, and four more received. -/
def zeros (poller : Poller) : Polling Unit :=
  { poller := poller
    buffer := { id := 0, p := fun _ => 0, size := 2048, length := 0 }
    env := ()
    c := 4
    rlen := 4 }

/-- Litetalk alone, with messages that are read. -/
def onlyLitetalk : List (Protocol Unit) := [.litetalk].map (Kind.protocol fun _ env _ _ => some env)

theorem pass_zeros (poller : Poller) :
    (pass onlyLitetalk (zeros poller)).1 = .polling (zeros poller) := by
  have hmatch : litetalkMatch (fun _ => 0) 4 4 = (.errMatch, 4) := by decide
  have hscan : litetalkScan (fun _ => 0) 4 = (.etOk, 4) := by decide
  have hexamine : examine onlyLitetalk (fun _ => 0) 4 () 4 = (.scanned 4, (), 4) := by
    simp [examine, matchLoop, scanLoop, onlyLitetalk, Kind.protocol, litetalkProtocol, hmatch,
      hscan]
  have hmove : Cells.move (fun _ => (0 : UInt8)) 0 4 2048 = fun _ => 0 := funext fun i => ite_self _
  simp [pass, Polling.entered, zeros, hexamine, Buffchunk.backoff, hmove, Polling.goto]

theorem zeros_forever (poller : Poller) :
    (∀ fuel, finish onlyLitetalk fuel (.polling (zeros poller)) = none) ∧
      ¬Sheds onlyLitetalk (.polling (zeros poller)) := by
  constructor
  · intro fuel
    induction fuel with
    | zero => rfl
    | succ fuel ih => rw [finish, pass_zeros, ih, Option.map_none]
  · intro hsheds
    exact absurd (hsheds _ (pass_zeros poller)) (Int.lt_irrefl _)

/-- A litetalk frame of one byte, of a category there is none of. -/
def unknownFrame (poller : Poller) : Polling Unit :=
  { poller := poller
    buffer := { rxbuffer with
      p := Cells.write rxbuffer.p 0 [0x13, 0x35, 0x67, 0x89, 9, 0, 0, 0, 0, 1, 0] }
    env := ()
    c := 11
    rlen := 0 }

/-- **Four bytes of garbage** keep a poll of litetalk going for ever, and an unknown category ends
the program. -/
theorem poll_repeat_hangs :
    (∀ fuel, finish onlyLitetalk fuel (.polling (zeros .tcp)) = none) ∧
      ¬DoWhile.Finishes (turn onlyLitetalk) AtRepeat (Sheds onlyLitetalk) (.polling (zeros .tcp)) ∧
      ¬DoWhile.Finishes (turn onlyLitetalk) AtRepeat (Sheds onlyLitetalk)
        (.polling (zeros .uart)) ∧
      turn onlyLitetalk (.polling (unknownFrame .tcp)) = none :=
  ⟨(zeros_forever .tcp).1, fun h => (zeros_forever .tcp).2 (h.holds (.here _)),
    fun h => (zeros_forever .uart).2 (h.holds (.here _)), rfl⟩

end Awoke.Cmder
