/-
The loops of the serial command parser.

An external command is found by its last byte, so it lies in what is left, with every byte
its handler looks at (`ecmdProcess_agree`), and a scan goes forward and not past the end.
An internal command is found by its first two bytes.  With fewer than six bytes left it is
dropped as six, and with one byte left the second is no longer one of them.

`eots_safe_iff` says that nothing else goes wrong in `bk_eots_hd_syscon`: it is safe as long
as no turn finds the header of an internal command in a rest that is too short for it.  The
loop of `bk_eots_hd_ecmd_process` is safe for every length but zero.
-/
import Awoke.Benchmark.EotsHd
import Awoke.Lib.DoWhile

namespace Awoke.EotsHd

/-! ### What is read of the buffer -/

/-- The first `n` bytes are the same. -/
def Agree (n : Nat) (b b' : Cells UInt8) : Prop := ∀ i : Nat, i < n → b i = b' i

variable {b b' : Cells UInt8}

theorem findPostfix_lt : ∀ {n pos q : Nat}, findPostfix b pos n = some q → q < pos + n := by
  intro n
  induction n with
  | zero => intro pos q h; exact nomatch h
  | succ n ih =>
      intro pos q h
      rw [findPostfix] at h
      split at h
      · rw [Option.some.injEq] at h
        omega
      · have := ih h
        omega

theorem findPostfix_agree : ∀ {n pos : Nat}, Agree (pos + n) b b' →
    findPostfix b pos n = findPostfix b' pos n := by
  intro n
  induction n with
  | zero => intro pos _; rfl
  | succ n ih =>
      intro pos h
      rw [findPostfix, findPostfix, h pos (by omega), ih fun i hi => h i (by omega)]

theorem six_le_cmdlen : ∀ e ∈ ecmdTable, 6 ≤ e.cmdlen := by decide

theorem oneOf_congr {values : List UInt8} (h0 : b 0 = b' 0) (h1 : b 1 = b' 1) :
    oneOf values b = oneOf values b' := by
  rw [oneOf, oneOf, h0, h1]

theorem upTo_congr {bound : UInt8} (h0 : b 0 = b' 0) (h1 : b 1 = b' 1) :
    upTo bound b = upTo bound b' := by
  rw [upTo, upTo, h0, h1]

/-- A handler looks at no byte from the end of its command on. -/
theorem handler_agree :
    ∀ e ∈ ecmdTable, Agree (e.cmdlen - 4) b b' → e.handler b = e.handler b' := by
  intro e he h
  have h6 := six_le_cmdlen e he
  have h0 : b 0 = b' 0 := h 0 (by omega)
  have h1 : b 1 = b' 1 := h 1 (by omega)
  simp only [ecmdTable, List.mem_cons, List.not_mem_nil, or_false] at he
  rcases he with rfl | rfl | rfl | rfl | rfl | rfl | rfl | rfl | rfl | rfl | rfl | rfl | rfl | rfl |
    rfl | rfl | rfl | rfl | rfl | rfl | rfl | rfl | rfl | rfl | rfl | rfl
  all_goals first
    | exact oneOf_congr h0 h1
    | exact upTo_congr h0 h1
    | rfl
    | skip
  · show handlerDfg b = handlerDfg b'
    rw [handlerDfg, handlerDfg, h0, h1]
  · show handlerAdjopt b = handlerAdjopt b'
    rw [handlerAdjopt, handlerAdjopt, h0, h1]
  · show handlerExpotime b = handlerExpotime b'
    have h2 : b 2 = b' 2 := h 2 (by decide)
    rw [handlerExpotime, handlerExpotime, h0, h1, h2]
  · show handlerGain b = handlerGain b'
    rw [handlerGain, handlerGain, h0, h1]
  · show handlerCrossMove b = handlerCrossMove b'
    have h2 : b 2 = b' 2 := h 2 (by decide)
    have h3 : b 3 = b' 3 := h 3 (by decide)
    rw [handlerCrossMove, handlerCrossMove, h0, h1, h2, h3]
  · show handlerOptView b = handlerOptView b'
    rw [handlerOptView, handlerOptView, h0]

theorem ecmdGetCommand_some {code : UInt8} {length : Nat} {e : EcmdEntry}
    (h : ecmdGetCommand code length = some e) : e ∈ ecmdTable ∧ e.cmdlen = length := by
  have hfound := List.find?_some h
  rw [decide_eq_true_eq] at hfound
  exact ⟨List.mem_of_find?_eq_some h, hfound.2.symm⟩

theorem ecmdGetCommand_short {code : UInt8} {length : Nat} (h : length < 6) :
    ecmdGetCommand code length = none := by
  cases hfound : ecmdGetCommand code length with
  | none => rfl
  | some e =>
      obtain ⟨hmem, hlen⟩ := ecmdGetCommand_some hfound
      have := six_le_cmdlen e hmem
      omega

/-- **An external command lies in what is left**, and nothing behind it counts. -/
theorem ecmdProcess_agree {length : Nat} (h : Agree length b b') :
    ecmdProcess b length = ecmdProcess b' length := by
  have hfind : findPostfix b 0 length = findPostfix b' 0 length :=
    findPostfix_agree (by rwa [Nat.zero_add])
  rw [ecmdProcess, ecmdProcess, ← hfind]
  cases hpos : findPostfix b 0 length with
  | none => rfl
  | some pos =>
      have hlt : pos < length := by simpa using findPostfix_lt hpos
      rw [Option.bind_some, Option.bind_some]
      by_cases hshort : pos + 1 < 6
      · rw [ecmdGetCommand_short hshort, ecmdGetCommand_short hshort]
        rfl
      · have h2 : b 2 = b' 2 := h 2 (by omega)
        rw [h2]
        cases hcmd : ecmdGetCommand (b' 2) (pos + 1) with
        | none => rfl
        | some e =>
            obtain ⟨hmem, hlen⟩ := ecmdGetCommand_some hcmd
            have hargs : Agree (e.cmdlen - 4) (fun i => b (3 + i)) (fun i => b' (3 + i)) :=
              fun i hi => by
                show b (3 + i) = b' (3 + i)
                rw [show (3 + i : Int) = (3 + i : Nat) by omega]
                exact h (3 + i) (by omega)
            have hslice : Cells.slice (fun i => b (3 + i)) 0 (e.cmdlen - 4) =
                Cells.slice (fun i => b' (3 + i)) 0 (e.cmdlen - 4) :=
              Cells.slice_congr fun k hk => by
                show b (3 + (0 + k)) = b' (3 + (0 + k))
                rw [Int.zero_add]
                exact hargs k hk
            simp only [Option.map_some, hslice, handler_agree e hmem hargs]

theorem ecmdProcess_len {length len : Nat} {cmd : Command}
    (h : ecmdProcess b length = some (cmd, len)) : 6 ≤ len ∧ len ≤ length := by
  unfold ecmdProcess at h
  obtain ⟨pos, hpos, h⟩ := Option.bind_eq_some_iff.mp h
  obtain ⟨e, hcmd, h⟩ := Option.map_eq_some_iff.mp h
  obtain ⟨hmem, hlen⟩ := ecmdGetCommand_some hcmd
  have hlt := findPostfix_lt hpos
  have h6 := six_le_cmdlen e hmem
  rw [Prod.mk.injEq] at h
  omega

theorem scanFrom_bounds {icmd ecmd : Nat} : ∀ {n pos q : Nat},
    scanFrom b icmd ecmd pos n = some q → pos ≤ q ∧ q < pos + n := by
  intro n
  induction n with
  | zero => intro pos q h; exact nomatch h
  | succ n ih =>
      intro pos q h
      rw [scanFrom] at h
      split at h
      · rw [Option.some.injEq] at h
        omega
      · have := ih h
        omega

theorem scanNext_bounds {max icmd ecmd : Nat} (hpos : 0 < max) :
    0 < scanNext b max icmd ecmd ∧ scanNext b max icmd ecmd ≤ max := by
  unfold scanNext
  split
  · exact ⟨hpos, Nat.le_refl _⟩
  · cases hscan : scanFrom b icmd ecmd 1 (max - 2) with
    | none => exact ⟨hpos, Nat.le_refl _⟩
    | some q =>
        have := scanFrom_bounds hscan
        show 0 < q ∧ q ≤ max
        omega

/-! ### A turn -/

/-- What is asked of a turn: it drops something, and no more than is left, and what it runs
does not depend on the bytes behind. -/
structure Safe (turn : Rest → Option Command × Nat) (s : Rest) : Prop where
  pos : 0 < (turn s).2
  le : (turn s).2 ≤ s.remain
  blind : ∀ buf, Agree s.remain s.buf buf → (turn { s with buf := buf }).1 = (turn s).1

/-- The rest does not begin like an internal command that it is too short for. -/
def IcmdFits (s : Rest) : Prop :=
  s.remain < 6 → s.buf 0 = icmdSig1 → s.remain ≠ 1 ∧ s.buf 1 ≠ icmdSig2

variable {s : Rest}

theorem Safe.rollback {turn : Rest → Option Command × Nat} (h : Safe turn s) :
    ∃ s', rollback s (turn s).2 = some s' ∧ (s'.More → s'.More ∧ s'.remain < s.remain) := by
  have hpos := h.pos
  rw [EotsHd.rollback, if_neg (by omega), memRollback, if_pos h.le]
  refine ⟨_, rfl, fun hmore => ⟨hmore, ?_⟩⟩
  have hle := h.le
  show s.remain - (turn s).2 < s.remain
  omega

theorem ecmdTurn_safe (hmore : s.More) : Safe ecmdTurn s := by
  have hlen : 0 < (ecmdTurn s).2 ∧ (ecmdTurn s).2 ≤ s.remain := by
    unfold ecmdTurn
    cases hcmd : ecmdProcess s.buf s.remain with
    | none => exact scanNext_bounds hmore
    | some r =>
        obtain ⟨h6, hle⟩ := ecmdProcess_len hcmd
        exact ⟨Nat.lt_of_lt_of_le (by decide) h6, hle⟩
  refine ⟨hlen.1, hlen.2, fun buf h => ?_⟩
  unfold ecmdTurn
  simp only [← ecmdProcess_agree h]
  cases ecmdProcess s.buf s.remain <;> rfl

/-- What a turn of `syscon_one` runs where no internal command begins. -/
theorem sysconTurn_ecmd (h : icmdProcess s.buf = none) :
    (sysconTurn s).1 = (ecmdProcess s.buf s.remain).map Prod.fst ∧
      (s.More → 0 < (sysconTurn s).2 ∧ (sysconTurn s).2 ≤ s.remain) := by
  unfold sysconTurn
  simp only [h]
  cases hcmd : ecmdProcess s.buf s.remain with
  | none => exact ⟨rfl, scanNext_bounds⟩
  | some r =>
      obtain ⟨h6, hle⟩ := ecmdProcess_len hcmd
      exact ⟨rfl, fun _ => ⟨Nat.lt_of_lt_of_le (by decide) h6, hle⟩⟩

theorem sysconTurn_icmd {r : Command × Nat} (h : icmdProcess s.buf = some r) :
    sysconTurn s = (some .icmd, 6) := by
  unfold icmdProcess at h
  split at h
  · rename_i hsig
    unfold sysconTurn icmdProcess
    rw [if_pos hsig]
  · exact nomatch h

/-- A rest that is long enough for what it begins like shows whether that is an internal
command. -/
theorem icmdProcess_agree {buf : Cells UInt8} (hmore : s.More) (hfits : IcmdFits s)
    (h : Agree s.remain s.buf buf) : icmdProcess buf = icmdProcess s.buf := by
  have hfirst : s.buf 0 = buf 0 := h 0 hmore
  unfold icmdProcess
  rw [← hfirst]
  by_cases h0 : s.buf 0 = icmdSig1
  · have hone : 1 < s.remain := by
      by_cases hshort : s.remain < 6
      · have := (hfits hshort h0).1
        have : 0 < s.remain := hmore
        omega
      · omega
    have hsecond : s.buf 1 = buf 1 := h 1 hone
    rw [← hsecond]
  · rw [if_neg fun h => h0 h.1, if_neg fun h => h0 h.1]

/-- **A turn of `syscon_one` is safe** exactly if the rest does not begin like an internal
command that it is too short for. -/
theorem sysconTurn_safe_iff (hmore : s.More) : Safe sysconTurn s ↔ IcmdFits s := by
  constructor
  · intro h hshort h0
    have h1 : s.buf 1 ≠ icmdSig2 := by
      intro h1
      have hle := h.le
      rw [sysconTurn_icmd (r := (.icmd, 6)) (if_pos ⟨h0, h1⟩)] at hle
      omega
    refine ⟨fun hone => ?_, h1⟩
    -- the second byte is behind the only one that is left, and would decide
    have hagree : Agree s.remain s.buf (Function.update s.buf 1 icmdSig2) := by
      intro i hi
      rw [Function.update_of_ne (by omega)]
    have hsig : icmdProcess (Function.update s.buf 1 icmdSig2) = some (.icmd, 6) :=
      if_pos ⟨by rw [Function.update_of_ne (by decide), h0], Function.update_self ..⟩
    have hturn : sysconTurn { s with buf := Function.update s.buf 1 icmdSig2 } =
        (some .icmd, 6) := sysconTurn_icmd hsig
    have hblind := h.blind _ hagree
    rw [hturn, (sysconTurn_ecmd (if_neg fun h => h1 h.2)).1] at hblind
    cases hcmd : ecmdProcess s.buf s.remain with
    | none =>
        rw [hcmd] at hblind
        exact nomatch hblind
    | some r =>
        have := ecmdProcess_len hcmd
        omega
  · intro hfits
    cases hicmd : icmdProcess s.buf with
    | none =>
        obtain ⟨hrun, hlen⟩ := sysconTurn_ecmd hicmd
        refine ⟨(hlen hmore).1, (hlen hmore).2, fun buf h => ?_⟩
        have hicmd' : icmdProcess buf = none := (icmdProcess_agree hmore hfits h).trans hicmd
        rw [(sysconTurn_ecmd (s := { s with buf := buf }) hicmd').1, hrun, ← ecmdProcess_agree h]
    | some r =>
        have hturn := sysconTurn_icmd hicmd
        have hlong : 6 ≤ s.remain := by
          unfold icmdProcess at hicmd
          split at hicmd
          · rename_i hsig
            exact Nat.le_of_not_lt fun hshort => (hfits hshort hsig.1).2 hsig.2
          · exact nomatch hicmd
        rw [show (6 : Nat) = (sysconTurn s).2 by rw [hturn]] at hlong
        refine ⟨by rw [hturn]; decide, hlong, fun buf h => ?_⟩
        have hicmd' : icmdProcess buf = some r := (icmdProcess_agree hmore hfits h).trans hicmd
        rw [hturn, sysconTurn_icmd (s := { s with buf := buf }) hicmd']

/-! ### The loops -/

theorem loop_safe_iff (turn : Rest → Option Command × Nat) {C : Rest → Prop}
    (hturn : ∀ s, s.More → (Safe turn s ↔ C s)) (hmore : s.More) :
    DoWhile.Finishes (fun s => rollback s (turn s).2) Rest.More (Safe turn) s ↔
      ∀ u, DoWhile.Turns (fun s => rollback s (turn s).2) Rest.More s u → C u :=
  DoWhile.finishes_iff Rest.remain
    (fun s hmore => (and_iff_left_of_imp fun hsafe => hsafe.rollback.imp fun _ h => h.1).trans
      (hturn s hmore))
    (fun s s' hmore hC hbody hagain => by
      obtain ⟨s'', hbody', hnext⟩ := ((hturn s hmore).mpr hC).rollback
      rw [hbody, Option.some.injEq] at hbody'
      subst hbody'
      exact hnext hagain) hmore

/-- **Both loops end, and every turn is safe**: the one of `bk_eots_hd_syscon`, which is
entered with six bytes or more, exactly if no turn begins with a rest that begins like an
internal command and is too short for one; the one of `bk_eots_hd_ecmd_process` exactly if
there is a byte. -/
theorem eots_safe_iff (buf : Cells UInt8) (length : Nat) :
    ((sysconCommandReady length = true →
        DoWhile.Finishes sysconOne Rest.More (Safe sysconTurn) ⟨buf, length⟩) ↔
      (sysconCommandReady length = true →
        ∀ u, DoWhile.Turns sysconOne Rest.More ⟨buf, length⟩ u → IcmdFits u)) ∧
    (DoWhile.Finishes ecmdOne Rest.More (Safe ecmdTurn) ⟨buf, length⟩ ↔ 0 < length) := by
  constructor
  · refine imp_congr_right fun hready => ?_
    have hlong : 6 ≤ length := by simpa [sysconCommandReady] using hready
    exact loop_safe_iff sysconTurn (fun _ => sysconTurn_safe_iff) (show 0 < length by omega)
  · constructor
    · intro h
      refine Nat.pos_of_ne_zero fun hzero => ?_
      subst hzero
      exact Nat.lt_irrefl 0 (h.holds (.here _)).pos
    · intro hmore
      have hloop := loop_safe_iff ecmdTurn (C := fun _ => True) (s := ⟨buf, length⟩)
        (fun s hmore => iff_of_true (ecmdTurn_safe hmore) trivial) hmore
      exact hloop.mpr fun _ _ => trivial

/-- Six bytes of which the last two are the header of an internal command. -/
def tail : Cells UInt8 := fun i => if i = 4 then icmdSig1 else if i = 5 then icmdSig2 else 0

/-- The first turn skips to the header, and the second drops six bytes of two. -/
theorem syscon_drops_too_much :
    ¬DoWhile.Finishes sysconOne Rest.More (Safe sysconTurn) ⟨tail, 6⟩ := by
  intro h
  let short : Rest := ⟨Cells.move tail 0 4 2, 2⟩
  have hshort : DoWhile.Turns sysconOne Rest.More ⟨tail, 6⟩ short :=
    .next rfl (show 0 < short.remain by decide) (.here short)
  exact absurd (h.holds hshort).le (by decide)

end Awoke.EotsHd
