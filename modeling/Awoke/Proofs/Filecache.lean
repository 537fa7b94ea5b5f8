/-
What a log keeps when its file is full, and when the program starts again.

The cache files, the list of their ids and the counter say the same as long as a start
finds no log together with a cache file, and the log gets full only while the last cache
file is free (`log_rotation_iff`).  Otherwise the start moves the log over the oldest cache
file, and a rotation moves a file behind the last one, or counts a file it has removed.
-/
import Awoke.Util.Filecache
import Awoke.Lib.Run
import Mathlib.Data.List.Infix
import Mathlib.Tactic.ByContra
import Mathlib.Tactic.SplitIfs

namespace Awoke.Filecache

/-! ### What is there -/

/-- The ids of the cache files up to `m`, the oldest file first. -/
def existing : Nat → Files → List Nat
  | 0, _ => []
  | k + 1, fs => if logFileExist fs (k + 1) then (k + 1) :: existing k fs else existing k fs

/-- What is in the cache files up to `m` and in the log, the oldest first. -/
def pieces : Nat → Files → List (List UInt8)
  | 0, fs => (fs 0).toList
  | k + 1, fs => (fs (k + 1)).toList ++ pieces k fs

theorem existing_some {k : Nat} {fs : Files} (h : fs (k + 1) ≠ none) :
    existing (k + 1) fs = (k + 1) :: existing k fs := by
  rw [existing, logFileExist, if_pos (Option.isSome_iff_ne_none.mpr h)]

theorem existing_none {k : Nat} {fs : Files} (h : fs (k + 1) = none) :
    existing (k + 1) fs = existing k fs := by
  rw [existing, logFileExist, h]
  rfl

/-- No file is named `name.k` for a `k` above `m`. -/
def NoneAbove (m : Nat) (fs : Files) : Prop := ∀ k, m < k → fs k = none

theorem mem_existing {m k : Nat} {fs : Files} :
    k ∈ existing m fs ↔ 0 < k ∧ k ≤ m ∧ fs k ≠ none := by
  induction m with
  | zero =>
      simp only [existing, List.not_mem_nil, false_iff]
      omega
  | succ m ih =>
      by_cases hfile : fs (m + 1) = none
      · rw [existing_none hfile, ih]
        refine ⟨fun h => ⟨h.1, by omega, h.2.2⟩, fun h => ⟨h.1, ?_, h.2.2⟩⟩
        have hne : k ≠ m + 1 := fun heq => h.2.2 (heq ▸ hfile)
        omega
      · rw [existing_some hfile, List.mem_cons, ih]
        constructor
        · rintro (rfl | ⟨hpos, hle, hk⟩)
          · exact ⟨by omega, Nat.le_refl _, hfile⟩
          · exact ⟨hpos, by omega, hk⟩
        · rintro ⟨hpos, hle, hk⟩
          rcases Nat.lt_or_ge m k with hlt | hge
          · exact .inl (by omega)
          · exact .inr ⟨hpos, hge, hk⟩

theorem existing_decreasing (m : Nat) (fs : Files) : (existing m fs).Pairwise (· > ·) := by
  induction m with
  | zero => exact List.Pairwise.nil
  | succ m ih =>
      rw [existing]
      split
      · exact List.pairwise_cons.mpr ⟨fun _ hk => Nat.lt_succ_of_le (mem_existing.mp hk).2.1, ih⟩
      · exact ih

theorem existing_length_le (m : Nat) (fs : Files) : (existing m fs).length ≤ m := by
  induction m with
  | zero => exact Nat.le_refl 0
  | succ m ih =>
      rw [existing]
      split
      · exact Nat.succ_le_succ ih
      · exact Nat.le_succ_of_le ih

theorem existing_length_lt {m : Nat} {fs : Files} (hpos : 0 < m) (h : fs m = none) :
    (existing m fs).length < m := by
  obtain ⟨n, rfl⟩ : ∃ n, m = n + 1 := ⟨m - 1, by omega⟩
  rw [existing_none h]
  exact Nat.lt_succ_of_le (existing_length_le n fs)

theorem existing_congr {m : Nat} {fs fs' : Files} (h : ∀ k, 0 < k → k ≤ m → fs k = fs' k) :
    existing m fs = existing m fs' := by
  induction m with
  | zero => rfl
  | succ m ih =>
      rw [existing, existing, ih fun k hpos hle => h k hpos (Nat.le_succ_of_le hle), logFileExist,
        logFileExist, h (m + 1) (Nat.succ_pos m) (Nat.le_refl _)]

/-! ### Renaming -/

theorem rename_none {fs : Files} {old : Nat} (h : fs old = none) (new : Nat) :
    rename fs old new = fs := by
  rw [rename, h]

theorem rename_some {fs : Files} {old : Nat} {content : List UInt8} (h : fs old = some content)
    (new : Nat) :
    rename fs old new = Function.update (Function.update fs old none) new (some content) := by
  rw [rename, h]

theorem rename_other {fs : Files} {old new k : Nat} (hold : k ≠ old) (hnew : k ≠ new) :
    rename fs old new k = fs k := by
  cases h : fs old with
  | none => rw [rename_none h]
  | some content =>
      rw [rename_some h, Function.update_of_ne hnew, Function.update_of_ne hold]

theorem rename_old {fs : Files} {old new : Nat} (hne : old ≠ new) :
    rename fs old new old = none := by
  cases h : fs old with
  | none => rw [rename_none h, h]
  | some content => rw [rename_some h, Function.update_of_ne hne, Function.update_self]

theorem rename_new {fs : Files} {old : Nat} (hsome : fs old ≠ none) (new : Nat) :
    rename fs old new new = fs old := by
  obtain ⟨content, h⟩ := Option.ne_none_iff_exists'.mp hsome
  rw [rename_some h, h, Function.update_self]

/-- The files after each cache file up to `m` has moved on by one. -/
def moved (m : Nat) (fs : Files) : Files := fun k =>
  if k = 0 then fs 0 else if k = 1 then none else if k ≤ m + 1 then fs (k - 1) else fs k

/-- The loop moves every cache file on by one, if there is room for the oldest. -/
theorem moveAll_existing {m : Nat} : ∀ {fs : Files}, fs (m + 1) = none →
    moveAll (existing m fs) fs = moved m fs := by
  induction m with
  | zero =>
      intro fs h
      funext k
      simp only [existing, moveAll, moved]
      split_ifs with h0 h1 h2
      · rw [h0]
      · rw [h1, h]
      · omega
      · rfl
  | succ m ih =>
      intro fs h
      by_cases hfile : fs (m + 1) = none
      · rw [existing_none hfile, ih hfile]
        funext k
        unfold moved
        by_cases hk : k = m + 2
        · subst hk
          simp [h, hfile]
        · by_cases hle : k ≤ m + 1
          · simp [hle, show k ≤ m + 1 + 1 by omega]
          · simp [hle, show ¬k ≤ m + 1 + 1 by omega]
      · rw [existing_some hfile, moveAll]
        have hsame : existing m fs = existing m (rename fs (m + 1) (m + 1 + 1)) :=
          existing_congr fun k _ hle => (rename_other (by omega) (by omega)).symm
        rw [hsame, ih (rename_old (by omega))]
        funext k
        unfold moved
        by_cases hk : k = m + 2
        · subst hk
          simp [rename_new hfile]
        · by_cases hle : k ≤ m + 1
          · have h0 : rename fs (m + 1) (m + 1 + 1) 0 = fs 0 := rename_other (by omega) (by omega)
            have hpred : k ≠ 0 → rename fs (m + 1) (m + 1 + 1) (k - 1) = fs (k - 1) :=
              fun _ => rename_other (by omega) (by omega)
            by_cases hzero : k = 0
            · simp [hzero, h0]
            · simp [hzero, hle, show k ≤ m + 1 + 1 by omega, hpred hzero]
          · have hother : rename fs (m + 1) (m + 1 + 1) k = fs k :=
              rename_other (by omega) (by omega)
            simp [hle, show ¬k ≤ m + 1 + 1 by omega, show k ≠ 0 by omega, show k ≠ 1 by omega,
              hother]

theorem moveAll_above {k : Nat} : ∀ {ids : List Nat} {fs : Files}, (∀ id ∈ ids, id + 1 < k) →
    moveAll ids fs k = fs k := by
  intro ids
  induction ids with
  | nil => intro fs _; rfl
  | cons id ids ih =>
      intro fs h
      have hid : id + 1 < k := h id List.mem_cons_self
      rw [moveAll, ih fun id' hid' => h id' (List.mem_cons_of_mem _ hid')]
      exact rename_other (by omega) (by omega)

/-! ### A rotation -/

/-- The files after a rotation with room for the oldest cache file: everything has moved. -/
def rotated (m : Nat) (fs : Files) : Files := fun k =>
  if k = 0 then none else if k ≤ m + 1 then fs (k - 1) else fs k

theorem rename_moved {m : Nat} {fs : Files} (h : fs 0 ≠ none) :
    rename (moved m fs) 0 1 = rotated m fs := by
  have hlive : moved m fs 0 = fs 0 := rfl
  funext k
  by_cases h0 : k = 0
  · rw [h0, rename_old (by decide)]
    rfl
  · by_cases h1 : k = 1
    · rw [h1, rename_new (by rwa [hlive]), hlive]
      simp [rotated]
    · rw [rename_other h0 h1]
      simp [moved, rotated, h0, h1]

theorem rotated_next {m j : Nat} {fs : Files} (h : j + 1 ≤ m) :
    rotated m fs (j + 1 + 1) = fs (j + 1) := by
  simp [rotated, show j + 1 + 1 ≤ m + 1 by omega]

theorem existing_rotated {m : Nat} {fs : Files} (hlive : fs 0 ≠ none) : ∀ {j : Nat}, j ≤ m →
    existing (j + 1) (rotated m fs) = (existing j fs).map (· + 1) ++ [1] := by
  intro j
  induction j with
  | zero => intro _; exact existing_some (by simpa [rotated] using hlive)
  | succ j ih =>
      intro hle
      have hj : rotated m fs (j + 1 + 1) = fs (j + 1) := rotated_next hle
      by_cases hfile : fs (j + 1) = none
      · rw [existing_none (hj.trans hfile), existing_none hfile, ih (by omega)]
      · rw [existing_some (by rwa [hj]), existing_some hfile, ih (by omega)]
        rfl

theorem pieces_rotated {m : Nat} {fs : Files} : ∀ {j : Nat}, j ≤ m →
    pieces (j + 1) (rotated m fs) = pieces j fs := by
  intro j
  induction j with
  | zero => intro _; simp [pieces, rotated]
  | succ j ih =>
      intro hle
      rw [pieces, ih (by omega), rotated_next hle, pieces]

/-- The memory that says what cache files there are. -/
def settled (fc : LogFilecache) (fs : Files) : LogFilecache :=
  { maxsize := fc.maxsize
    cachemax := fc.cachemax
    cachenum := (existing fc.cachemax fs).length
    caches := existing fc.cachemax fs
    initFinish := true }

/-- There is a log to rotate, and room for one more cache file. -/
def Room (fc : LogFilecache) (fs : Files) : Prop :=
  fs 0 ≠ none ∧ 0 < fc.cachemax ∧ fs fc.cachemax = none

instance (fc : LogFilecache) (fs : Files) : Decidable (Room fc fs) :=
  inferInstanceAs (Decidable (_ ∧ _ ∧ _))

theorem removeLast_settled {fc : LogFilecache} {fs : Files} (hpos : 0 < fc.cachemax)
    (hlast : fs fc.cachemax = none) :
    removeLast (settled fc fs) fs = some (settled fc fs, fs) :=
  if_neg (Nat.not_le_of_lt (existing_length_lt hpos hlast))

theorem update_settled {fc : LogFilecache} {fs : Files} (h : Room fc fs) :
    logFilecahceUpdate (settled fc fs) fs =
      some (settled fc (rotated (fc.cachemax - 1) fs), rotated (fc.cachemax - 1) fs) := by
  obtain ⟨hlive, hpos, hlast⟩ := h
  obtain ⟨n, hn⟩ : ∃ n, fc.cachemax = n + 1 := ⟨fc.cachemax - 1, by omega⟩
  have hcaches : (settled fc fs).caches = existing n fs := by
    rw [settled, hn, existing_none (hn ▸ hlast)]
  have hafter := existing_rotated hlive (Nat.le_refl n)
  rw [logFilecahceUpdate, removeLast_settled hpos hlast, Option.map_some,
    logFilecahceItemAdd, hcaches, moveAll_existing (hn ▸ hlast), rename_moved hlive]
  simp only [settled, hn, Nat.add_sub_cancel, hafter, existing_none (hn ▸ hlast),
    List.length_append, List.length_map, List.length_singleton]

/-! ### A start -/

/-- The memory has not looked yet, or knows what cache files there are. -/
def Knows (fc : LogFilecache) (fs : Files) : Prop := fc = fc.fresh ∨ fc = settled fc fs

/-- There is no log, or no cache file. -/
def Alone (m : Nat) (fs : Files) : Prop := fs 0 = none ∨ ∀ k ≤ m, 0 < k → fs k = none

instance (m : Nat) (fs : Files) : Decidable (Alone m fs) :=
  inferInstanceAs (Decidable (_ ∨ _))

theorem alone_iff {m : Nat} {fs : Files} : Alone m fs ↔ fs 0 = none ∨ existing m fs = [] := by
  refine or_congr_right ?_
  rw [List.eq_nil_iff_forall_not_mem]
  refine forall_congr' fun k => ?_
  rw [mem_existing]
  constructor
  · exact fun h hmem => hmem.2.2 (h hmem.2.1 hmem.1)
  · exact fun h hle hpos => by_contra fun hk => h ⟨hpos, hle, hk⟩

/-- The loop at the start only looks, where there is nothing to move or nowhere to. -/
theorem initLoop_same {m : Nat} {fs : Files} : ∀ {fc : LogFilecache},
    fs 0 = none ∨ existing m fs = [] →
    initLoop m fc fs = ({ fc with
      caches := fc.caches ++ existing m fs
      cachenum := fc.cachenum + (existing m fs).length }, fs) := by
  induction m with
  | zero =>
      intro fc _
      simp [initLoop, existing]
  | succ m ih =>
      intro fc h
      by_cases hfile : fs (m + 1) = none
      · rw [existing_none hfile] at h ⊢
        rw [initLoop, logFileExist, hfile]
        exact ih h
      · have hlive : fs 0 = none := by
          refine h.resolve_right ?_
          rw [existing_some hfile]
          exact List.cons_ne_nil _ _
        rw [initLoop, logFileExist, if_pos (Option.isSome_iff_ne_none.mpr hfile),
          logFilecahceItemAdd, rename_none hlive, ih (.inl hlive), existing_some hfile]
        simp [Nat.add_assoc, Nat.add_comm 1]

theorem initLoop_takes {m : Nat} : ∀ {fc : LogFilecache} {fs : Files},
    fs 0 = none ∨ existing m fs ≠ [] → (initLoop m fc fs).2 0 = none := by
  induction m with
  | zero => intro fc fs h; exact h.resolve_right fun hne => hne rfl
  | succ m ih =>
      intro fc fs h
      by_cases hfile : fs (m + 1) = none
      · rw [existing_none hfile] at h
        rw [initLoop, logFileExist, hfile]
        exact ih h
      · rw [initLoop, logFileExist, if_pos (Option.isSome_iff_ne_none.mpr hfile)]
        exact ih (.inl (rename_old (by omega)))

/-- A start changes no file exactly if the log, or every cache file, is missing. -/
theorem checkInit_files_iff {fc : LogFilecache} {fs : Files} (h : Knows fc fs) :
    (checkInit fc fs).2 = fs ↔ (fc.initFinish = false → Alone fc.cachemax fs) := by
  rcases h with hfresh | hsettled
  · have hfinish : fc.initFinish = false := by rw [hfresh]; rfl
    have hinit : (checkInit fc fs).2 = (initLoop fc.cachemax { fc with caches := [] } fs).2 := by
      rw [checkInit, if_neg (by simp [hfinish])]
      rfl
    rw [hinit, imp_iff_right hfinish, alone_iff]
    constructor
    · intro hsame
      by_contra hnot
      rw [not_or] at hnot
      exact hnot.1 (hsame ▸ initLoop_takes (.inr hnot.2))
    · intro halone
      rw [initLoop_same halone]
  · have hfinish : fc.initFinish = true := by rw [hsettled]; rfl
    rw [checkInit, if_pos hfinish, hfinish]
    exact iff_of_true rfl fun hfalse => nomatch hfalse

theorem checkInit_settled {fc : LogFilecache} {fs : Files} (h : Knows fc fs)
    (halone : fc.initFinish = false → Alone fc.cachemax fs) :
    checkInit fc fs = (settled fc fs, fs) := by
  rcases h with hfresh | hsettled
  · have hfinish : fc.initFinish = false := by rw [hfresh]; rfl
    have hloop := @initLoop_same _ _ { fc with caches := [] } (alone_iff.mp (halone hfinish))
    have hcount : fc.cachenum = 0 := by rw [hfresh]; rfl
    rw [checkInit, if_neg (by simp [hfinish]), logFilecahceInit, hloop]
    simp [settled, hcount]
  · have hfinish : fc.initFinish = true := by rw [hsettled]; rfl
    rw [checkInit, if_pos hfinish, ← hsettled]

/-! ### One write -/

/-- What is asked of the state after each write. -/
structure Log.InOrder (s : Log) : Prop where
  count : s.fc.cachenum = s.fc.caches.length
  count_le : s.fc.cachenum ≤ s.fc.cachemax
  decreasing : s.fc.caches.Pairwise (· > ·)
  mem : ∀ k, k ∈ s.fc.caches ↔ 0 < k ∧ s.files k ≠ none
  above : NoneAbove s.fc.cachemax s.files
  suffix : (pieces s.fc.cachemax s.files).flatten <:+ s.logged

/-- A rotation loses nothing, or the oldest cache file where all of them are there. -/
def LosesOldest (m : Nat) (fs fs' : Files) : Prop :=
  pieces m fs' = pieces m fs ∨
    (∀ k ≤ m, 0 < k → fs k ≠ none) ∧ pieces m fs' = (pieces m fs).tail

/-- What is asked of a write: the start changes no file, a rotation loses at most the
oldest cache file, and the write has a result that is in order. -/
structure Log.Kept (s : Log) (w : Write) : Prop where
  start : (checkInit (s.memory w) s.files).2 = s.files
  rotation : let r := checkInit (s.memory w) s.files
    logFilecacheFull r.1 r.2 = true →
      ∀ r', logFilecahceUpdate r.1 r.2 = some r' → LosesOldest s.fc.cachemax r.2 r'.2
  result : ∃ s', s.step w = some (s', ()) ∧ s'.InOrder

/-- Where a start looks for cache files, there is no log or no cache file; and where the
log is full, there is one, and room for one more cache file. -/
def Log.HasRoom (s : Log) (w : Write) : Prop :=
  ((s.memory w).initFinish = false → Alone s.fc.cachemax s.files) ∧
    (logFilecacheFull s.fc s.files = true → Room s.fc s.files)

instance (s : Log) (w : Write) : Decidable (s.HasRoom w) :=
  inferInstanceAs (Decidable (_ ∧ _))

theorem existing_write (m : Nat) (fs : Files) (message : List UInt8) :
    existing m (logFilecacheWrite fs message) = existing m fs :=
  existing_congr fun _ hpos _ => Function.update_of_ne (Nat.ne_of_gt hpos) _ _

theorem pieces_write (m : Nat) (fs : Files) (message : List UInt8) :
    (pieces m (logFilecacheWrite fs message)).flatten = (pieces m fs).flatten ++ message := by
  induction m with
  | zero =>
      have hlive : logFilecacheWrite fs message 0 = some ((fs 0).getD [] ++ message) :=
        Function.update_self _ _ _
      rw [pieces, pieces, hlive]
      cases fs 0 <;> simp
  | succ m ih =>
      have hother : logFilecacheWrite fs message (m + 1) = fs (m + 1) :=
        Function.update_of_ne (Nat.succ_ne_zero m) _ _
      rw [pieces, pieces, hother, List.flatten_append, List.flatten_append, ih, List.append_assoc]

/-- What a run keeps. -/
structure Log.Tracked (s : Log) : Prop where
  knows : Knows s.fc s.files
  above : NoneAbove s.fc.cachemax s.files
  suffix : (pieces s.fc.cachemax s.files).flatten <:+ s.logged

variable {s : Log} {w : Write}

/-- Memory that knows the cache files, over files that hold the end of the log, is in
order. -/
theorem Log.Tracked.inOrder (h : s.Tracked) (hfc : s.fc = settled s.fc s.files) :
    s.InOrder := by
  refine ⟨by rw [hfc]; rfl, ?_, ?_, ?_, h.above, h.suffix⟩
  · rw [hfc]
    exact existing_length_le _ _
  · rw [hfc]
    exact existing_decreasing _ _
  · intro k
    rw [hfc]
    refine mem_existing.trans ⟨fun hk => ⟨hk.1, hk.2.2⟩, fun hk => ⟨hk.1, ?_, hk.2⟩⟩
    exact Nat.le_of_not_lt fun hlt => hk.2 (h.above k hlt)

theorem Log.memory_maxsize : (s.memory w).maxsize = s.fc.maxsize := by
  unfold Log.memory
  split <;> rfl

theorem Log.memory_cachemax : (s.memory w).cachemax = s.fc.cachemax := by
  unfold Log.memory
  split <;> rfl

theorem Log.settled_memory (fs : Files) : settled (s.memory w) fs = settled s.fc fs := by
  rw [settled, settled, Log.memory_maxsize, Log.memory_cachemax]

theorem Log.Tracked.knows_memory (h : s.Tracked) : Knows (s.memory w) s.files := by
  unfold Log.memory
  split
  · exact .inl rfl
  · exact h.knows

theorem Log.Tracked.start_iff (h : s.Tracked) :
    (checkInit (s.memory w) s.files).2 = s.files ↔
      ((s.memory w).initFinish = false → Alone s.fc.cachemax s.files) := by
  rw [checkInit_files_iff h.knows_memory, Log.memory_cachemax]

theorem Log.Tracked.start (h : s.Tracked)
    (halone : (s.memory w).initFinish = false → Alone s.fc.cachemax s.files) :
    checkInit (s.memory w) s.files = (settled s.fc s.files, s.files) := by
  rw [← Log.memory_cachemax (w := w)] at halone
  rw [checkInit_settled h.knows_memory halone, Log.settled_memory]

theorem Log.step_of_start (h : checkInit (s.memory w) s.files = (settled s.fc s.files, s.files)) :
    s.step w = (checkFull (settled s.fc s.files) s.files).map fun r =>
      ({ fc := r.1, files := logFilecacheWrite r.2 w.message, logged := s.logged ++ w.message },
        ()) := by
  rw [Log.step, awokeLogFileWrite, h, Option.map_map]
  rfl

theorem tracked_write {fc : LogFilecache} {fs : Files} {logged message : List UInt8}
    (habove : NoneAbove fc.cachemax fs) (hsuffix : (pieces fc.cachemax fs).flatten <:+ logged) :
    Log.Tracked { fc := settled fc fs
                  files := logFilecacheWrite fs message
                  logged := logged ++ message } := by
  refine ⟨.inr ?_, ?_, ?_⟩
  · simp only [settled, existing_write]
  · intro k hk
    exact (Function.update_of_ne (Nat.ne_of_gt (Nat.lt_of_le_of_lt (Nat.zero_le _) hk)) _ _).trans
      (habove k hk)
  · obtain ⟨front, hfront⟩ := hsuffix
    exact ⟨front, by rw [← hfront, List.append_assoc, ← pieces_write]; rfl⟩

theorem rotated_above {m : Nat} {fs : Files} (hpos : 0 < m) (h : NoneAbove m fs) :
    NoneAbove m (rotated (m - 1) fs) := by
  intro k hk
  rw [rotated, if_neg (by omega), if_neg (by omega)]
  exact h k hk

theorem Room.pieces_rotated {fc : LogFilecache} {fs : Files} (h : Room fc fs) :
    pieces fc.cachemax (rotated (fc.cachemax - 1) fs) = pieces fc.cachemax fs := by
  obtain ⟨-, hpos, hlast⟩ := h
  obtain ⟨n, hn⟩ : ∃ n, fc.cachemax = n + 1 := ⟨fc.cachemax - 1, by omega⟩
  rw [hn] at hlast ⊢
  rw [Nat.add_sub_cancel, Filecache.pieces_rotated (Nat.le_refl n), pieces, hlast]
  rfl

theorem Log.Tracked.result (h : s.Tracked) (hroom : s.HasRoom w) :
    ∃ s', s.step w = some (s', ()) ∧ s'.Tracked ∧ s'.fc = settled s'.fc s'.files := by
  rw [Log.step_of_start (h.start hroom.1)]
  have hfull : logFilecacheFull (settled s.fc s.files) s.files = logFilecacheFull s.fc s.files :=
    rfl
  by_cases hisfull : logFilecacheFull s.fc s.files = true
  · obtain hfree := hroom.2 hisfull
    refine ⟨_, by rw [checkFull, hfull, if_pos hisfull, update_settled hfree]; rfl, ?_, ?_⟩
    · exact tracked_write (rotated_above hfree.2.1 h.above) (hfree.pieces_rotated ▸ h.suffix)
    · simp only [settled, existing_write]
  · refine ⟨_, by rw [checkFull, hfull, if_neg hisfull]; rfl, tracked_write h.above h.suffix, ?_⟩
    simp only [settled, existing_write]

theorem Log.Tracked.kept (h : s.Tracked) (hroom : s.HasRoom w) : s.Kept w := by
  refine ⟨h.start_iff.mpr hroom.1, ?_, ?_⟩
  · rw [h.start hroom.1]
    show logFilecacheFull s.fc s.files = true → ∀ r,
      logFilecahceUpdate (settled s.fc s.files) s.files = some r →
        LosesOldest s.fc.cachemax s.files r.2
    intro hfull r hr
    have hfree := hroom.2 hfull
    rw [update_settled hfree, Option.some.injEq] at hr
    exact .inl (hr ▸ hfree.pieces_rotated)
  · obtain ⟨s', hs, htracked, hfc⟩ := h.result hroom
    exact ⟨s', hs, htracked.inOrder hfc⟩

/-! ### Where there is no room -/

theorem update_removes {fc : LogFilecache} {fs : Files} {r : LogFilecache × Files}
    (hle : fc.cachemax ≤ fc.cachenum) (h : logFilecahceUpdate fc fs = some r) :
    r.1.cachenum = fc.cachenum + 1 := by
  rw [logFilecahceUpdate, removeLast, if_pos hle] at h
  cases hcaches : fc.caches with
  | nil => rw [hcaches] at h; exact nomatch h
  | cons id ids =>
      rw [hcaches, Option.map_some, Option.some.injEq] at h
      rw [← h]
      rfl

theorem update_cachemax {fc : LogFilecache} {fs : Files} {r : LogFilecache × Files}
    (h : logFilecahceUpdate fc fs = some r) : r.1.cachemax = fc.cachemax := by
  obtain ⟨q, hq, rfl⟩ := Option.map_eq_some_iff.mp h
  show q.1.cachemax = fc.cachemax
  unfold removeLast at hq
  split at hq
  · split at hq
    · exact nomatch hq
    · rw [← Option.some.inj hq]
  · rw [← Option.some.inj hq]

theorem update_moves {fc : LogFilecache} {fs : Files} (hlt : fc.cachenum < fc.cachemax) :
    logFilecahceUpdate fc fs =
      some ({ fc with caches := fc.caches.map (· + 1) ++ [1], cachenum := fc.cachenum + 1 },
        rename (moveAll fc.caches fs) 0 1) := by
  rw [logFilecahceUpdate, removeLast, if_neg (Nat.not_le_of_lt hlt)]
  rfl

theorem moves_behind {m : Nat} {fs : Files} (hpos : 0 < m) (hlast : fs m ≠ none) :
    rename (moveAll (existing m fs) fs) 0 1 (m + 1) ≠ none := by
  obtain ⟨n, rfl⟩ : ∃ n, m = n + 1 := ⟨m - 1, by omega⟩
  rw [rename_other (by omega) (by omega), existing_some hlast, moveAll, moveAll_above]
  · rwa [rename_new hlast]
  · intro id hid
    have hle := (mem_existing.mp hid).2.1
    omega

theorem moves_nothing {m : Nat} {fs : Files} (hpos : 0 < m) (hlast : fs m = none)
    (hlive : fs 0 = none) : rename (moveAll (existing m fs) fs) 0 1 1 = none := by
  obtain ⟨n, rfl⟩ : ∃ n, m = n + 1 := ⟨m - 1, by omega⟩
  have hmoved : moved n fs 0 = none := hlive
  rw [existing_none hlast, moveAll_existing hlast, rename_none hmoved]
  rfl

/-- A rotation that counts right, moves no file behind the last one and makes a first one
had room. -/
theorem room_of_update {fc : LogFilecache} {fs : Files} {r : LogFilecache × Files}
    (h : logFilecahceUpdate (settled fc fs) fs = some r) (hcount : r.1.cachenum ≤ fc.cachemax)
    (habove : r.2 (fc.cachemax + 1) = none) (hone : 1 ∈ r.1.caches → r.2 1 ≠ none) :
    Room fc fs := by
  by_cases hlt : (settled fc fs).cachenum < (settled fc fs).cachemax
  · have hpos : 0 < fc.cachemax := Nat.lt_of_le_of_lt (Nat.zero_le _) hlt
    rw [update_moves hlt, Option.some.injEq] at h
    subst h
    have hlast : fs fc.cachemax = none := by_contra fun hlast => moves_behind hpos hlast habove
    refine ⟨fun hlive => ?_, hpos, hlast⟩
    exact hone (List.mem_append_right _ List.mem_cons_self) (moves_nothing hpos hlast hlive)
  · have hle : fc.cachemax ≤ (settled fc fs).cachenum := Nat.le_of_not_lt hlt
    rw [update_removes hle h] at hcount
    omega

/-- A write that is in order had room. -/
theorem Log.room_of_result
    (hstart : checkInit (s.memory w) s.files = (settled s.fc s.files, s.files))
    (hfull : logFilecacheFull s.fc s.files = true)
    (hresult : ∃ s', s.step w = some (s', ()) ∧ s'.InOrder) : Room s.fc s.files := by
  obtain ⟨s', hs, horder⟩ := hresult
  have hupdate : checkFull (settled s.fc s.files) s.files =
      logFilecahceUpdate (settled s.fc s.files) s.files := if_pos hfull
  rw [Log.step_of_start hstart, hupdate] at hs
  obtain ⟨r, hr, heq⟩ := Option.map_eq_some_iff.mp hs
  obtain rfl := (Prod.mk.inj heq).1
  have hwrite : ∀ k, 0 < k → logFilecacheWrite r.2 w.message k = r.2 k :=
    fun k hpos => Function.update_of_ne (Nat.ne_of_gt hpos) _ _
  have hmax : r.1.cachemax = s.fc.cachemax := (update_cachemax hr).trans rfl
  refine room_of_update hr (hmax ▸ horder.count_le) ?_ fun hmem => ?_
  · rw [← hwrite _ (Nat.succ_pos _)]
    exact horder.above (s.fc.cachemax + 1) (hmax.symm ▸ Nat.lt_succ_self _)
  · rw [← hwrite 1 Nat.one_pos]
    exact ((horder.mem 1).mp hmem).2

/-- **One write does what is asked of it** exactly if it has room. -/
theorem Log.Tracked.kept_iff (h : s.Tracked) : s.Kept w ↔ s.HasRoom w := by
  refine ⟨fun hkept => ?_, h.kept⟩
  have halone := h.start_iff.mp hkept.start
  exact ⟨halone, fun hfull => Log.room_of_result (h.start halone) hfull hkept.result⟩

/-! ### Runs -/

/-- A log whose files were there when the program started. -/
def Log.start (fc : LogFilecache) (files : Files) : Log :=
  { fc := fc.fresh, files := files, logged := (pieces fc.cachemax files).flatten }

theorem start_tracked {fc : LogFilecache} {files : Files} (h : NoneAbove fc.cachemax files) :
    (Log.start fc files).Tracked :=
  ⟨.inl rfl, h, List.suffix_refl _⟩

/-- **The log is kept all along a run** exactly if every start finds no log or no cache
file, and the log gets full only with room for one more cache file. -/
theorem log_rotation_iff (fc : LogFilecache) (files : Files) (h : NoneAbove fc.cachemax files)
    (ws : List Write) :
    Machine.Meets Log.step Log.Kept (.start fc files) ws ↔
      Machine.Meets Log.step Log.HasRoom (.start fc files) ws := by
  refine Machine.meets_congr (J := Log.Tracked) (fun s w hs => hs.kept_iff) (fun s w hs hw => ?_)
    ws (start_tracked h)
  obtain ⟨s', hstep, htracked, -⟩ := hs.result hw
  exact (Machine.after_some hstep).mpr htracked

/-- A log of one byte and a cache file of one byte, of a program that ran before. -/
def leftOver : Files := fun k => if k = 0 then some [97] else if k = 1 then some [98] else none

/-- A log that is full after every message, and goes through all three cache files. -/
theorem log_rotation_iff_three :
    Machine.Meets Log.step Log.Kept (.start { maxsize := 1, cachemax := 3 } fun _ => none)
      [⟨true, [97]⟩, ⟨false, [98]⟩, ⟨false, [99]⟩, ⟨false, [100]⟩] :=
  (log_rotation_iff { maxsize := 1, cachemax := 3 } (fun _ => none) (fun _ _ => rfl)
    [⟨true, [97]⟩, ⟨false, [98]⟩, ⟨false, [99]⟩, ⟨false, [100]⟩]).mpr (by decide)

/-- The first start with a log and a cache file moves the log over the cache file. -/
theorem start_overwrites :
    NoneAbove logctxFc.cachemax leftOver ∧
      ¬Machine.Meets Log.step Log.Kept (.start logctxFc leftOver) [⟨true, [99]⟩] := by
  constructor
  · intro k hk
    have h3 : 3 < k := hk
    rw [leftOver, if_neg (by omega), if_neg (by omega)]
  · intro h
    have hlive := congrFun h.1.start 0
    exact absurd hlive (by decide)

end Awoke.Filecache
