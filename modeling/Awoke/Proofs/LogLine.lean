/-
Where the string builder stays in its buffer.

As long as the pieces fit with a NUL behind them, nothing goes wrong.  The first piece that does
not fit moves the builder by its whole length, so the pointer is out of the buffer or the length
counts bytes that were not stored.  A message of `awoke_vsnprintf` may be so long that its length
wraps to just what was stored; then the end of the line moves the pointer out.
-/
import Awoke.Proofs.BuildPtr
import Awoke.Util.LogLine

namespace Awoke.LogLine

open BuildPtr (Fits StartsIn)

variable {cap : Nat} {done text : List UInt8} {s s' : BuildPtr × MemBlock} {piece : Piece}
  {pieces : List Piece}

/-! ### A builder that is right -/

/-- The pointer is in the buffer and the length is that of the bytes that are stored, all of them
in the buffer. -/
structure Stands (cap count : Nat) (s : BuildPtr × MemBlock) : Prop where
  low : 0 ≤ s.1.p
  high : s.1.p < cap
  len : s.1.len = BitVec.ofNat 64 count
  printable : s.1.len.toNat ≤ cap

/-- The builder is right before and after every piece, and nothing is written outside of its
buffer. -/
def Sound (cap : Nat) : Nat → BuildPtr × MemBlock → List Piece → Prop
  | count, s, [] => Stands cap count s
  | count, s, piece :: pieces =>
      Stands cap count s ∧ ∃ s', append s piece = some s' ∧
        Sound cap (count + stored s.1.size piece.text) s' pieces

theorem Sound.stands : ∀ {pieces : List Piece} {count : Nat} {s : BuildPtr × MemBlock},
    Sound cap count s pieces → Stands cap count s
  | [], _, _, h => h
  | _ :: _, _, _, h => h.1

theorem buildPtrInit_startsIn {max : Nat} (hpos : 1 ≤ max) (hint : max < 2 ^ 31)
    (cells : Cells UInt8) : StartsIn max (buildPtrInit max cells) :=
  ⟨rfl, rfl, rfl, rfl, Nat.le_refl _, hpos, hint⟩

theorem stands_of_fits (h : Fits cap done s) : Stands cap done.length s := by
  have hroom := h.room
  have hsmall := h.small
  refine ⟨?_, ?_, h.len, ?_⟩
  · rw [h.p]
    omega
  · rw [h.p]
    omega
  · rw [h.len, BitVec.toNat_ofNat]
    omega

/-! ### Pieces that fit -/

/-- A piece whose length is returned, unless it is too long for a number. -/
def Piece.Told (piece : Piece) : Prop :=
  piece.text.length < 2 ^ 31 → piece.ret = vsnprintfLen piece.text

theorem libc_told (text : List UInt8) : (libc text).Told := fun _ => rfl

theorem libcs_told {texts : List (List UInt8)} {piece : Piece} (h : piece ∈ texts.map libc) :
    piece.Told := by
  obtain ⟨text, -, rfl⟩ := List.mem_map.mp h
  exact libc_told text

theorem awoke_told (text : List UInt8) : (awoke text).Told := by
  intro hlt
  have hshort : text.length < 2 ^ 31 := hlt
  have hnat : (BitVec.ofNat 32 text.length).toNat = text.length := by
    rw [BitVec.toNat_ofNat]
    omega
  show awokeVsnprintfLen text = vsnprintfLen text
  rw [awokeVsnprintfLen, BitVec.toInt_eq_toNat_of_lt (by omega), hnat,
    BuildPtr.vsnprintfLen_of_lt hshort]

theorem append_of_fits (h : Fits cap done s) (htold : piece.Told)
    (hfit : (done ++ piece.text).length < cap) :
    ∃ s', append s piece = some s' ∧ Fits cap (done ++ piece.text) s' ∧
      done.length + stored s.1.size piece.text = (done ++ piece.text).length := by
  have hsmall := h.small
  have hlength : (done ++ piece.text).length = done.length + piece.text.length :=
    List.length_append
  obtain ⟨s', hbuild, hfits⟩ := h.build hfit
  refine ⟨s', ?_, hfits, ?_⟩
  · rw [append, htold (by omega)]
    exact hbuild
  · rw [stored, vsnprintfBytes, h.size, if_neg (by omega), List.take_of_length_le (by omega),
      List.length_append, List.length_append, List.length_singleton, Nat.add_sub_cancel]

/-- Pieces that fit keep the builder right. -/
theorem sound_of_fits : ∀ (pieces : List Piece) {done : List UInt8} {s : BuildPtr × MemBlock},
    Fits cap done s → (∀ piece ∈ pieces, piece.Told) →
      (done ++ pieces.flatMap Piece.text).length < cap → Sound cap done.length s pieces := by
  intro pieces
  induction pieces with
  | nil => exact fun h _ _ => stands_of_fits h
  | cons piece pieces ih =>
      intro done s h htold hfit
      rw [List.forall_mem_cons] at htold
      rw [List.flatMap_cons, ← List.append_assoc] at hfit
      have hfirst : (done ++ piece.text).length < cap := by
        rw [List.length_append] at hfit
        omega
      obtain ⟨s', happend, hfits, hcount⟩ := append_of_fits h htold.1 hfirst
      refine ⟨stands_of_fits h, s', happend, ?_⟩
      rw [hcount]
      exact ih hfits htold.2 hfit

/-! ### Pieces that do not -/

/-- Where a builder that is right stands behind a piece that did not fit: its last byte is a NUL,
and what was returned is what was stored. -/
theorem append_of_cut (h : Fits cap done s) (hcut : cap ≤ done.length + piece.text.length)
    (happend : append s piece = some s')
    (hstands : Stands cap (done.length + stored s.1.size piece.text) s') :
    piece.ret = cap - 1 - done.length ∧ s'.1.p = cap - 1 := by
  have hroom := h.room
  have hsmall := h.small
  have hstored : stored s.1.size piece.text = cap - 1 - done.length := by
    rw [stored, vsnprintfBytes, h.size, if_neg (by omega), List.length_append,
      List.length_take_of_le (by omega), List.length_singleton]
    omega
  have hmoved : s'.1.p = done.length + piece.ret ∧
      s'.1.len = BitVec.ofNat 64 done.length + BitVec.ofInt 64 piece.ret := by
    unfold append at happend
    dsimp only at happend
    split at happend
    · obtain rfl := Option.some_injective _ happend
      exact ⟨by rw [h.p], by rw [h.len]⟩
    · exact absurd happend.symm (Option.some_ne_none _)
  obtain ⟨hp, hlen⟩ := hmoved
  have hlow := hstands.low
  have hhigh := hstands.high
  have hsame := hstands.len
  rw [hp] at hlow hhigh
  obtain ⟨n, hn⟩ := Int.eq_ofNat_of_zero_le hlow
  rw [hlen, hstored, ← BitVec.ofInt_natCast, ← BitVec.ofInt_add, hn, BitVec.ofInt_natCast] at hsame
  have hnat := congrArg BitVec.toNat hsame
  rw [BitVec.toNat_ofNat, BitVec.toNat_ofNat, Nat.mod_eq_of_lt (by omega),
    Nat.mod_eq_of_lt (by omega)] at hnat
  omega

/-- A piece of `vsnprintf` has to fit. -/
theorem libc_fits (h : Fits cap done s)
    (hsound : Sound cap done.length s (libc text :: pieces)) :
    (done ++ text).length < cap := by
  by_contra hlong
  rw [List.length_append] at hlong
  obtain ⟨-, s', happend, hrest⟩ := hsound
  have hcut := append_of_cut h (Nat.not_lt.mp hlong) happend hrest.stands
  have hroom := h.room
  have hret : (libc text).ret = vsnprintfLen text := rfl
  rw [hret, vsnprintfLen] at hcut
  split at hcut <;> omega

/-- Pieces of `vsnprintf` have to fit, and what follows them is right as well. -/
theorem libcs_fit : ∀ (texts : List (List UInt8)) {done : List UInt8} {s : BuildPtr × MemBlock},
    Fits cap done s → Sound cap done.length s (texts.map libc ++ pieces) →
      ∃ s', Fits cap (done ++ texts.flatten) s' ∧
        Sound cap (done ++ texts.flatten).length s' pieces := by
  intro texts
  induction texts with
  | nil =>
      intro done s h hsound
      rw [List.flatten_nil, List.append_nil]
      exact ⟨s, h, hsound⟩
  | cons text texts ih =>
      intro done s h hsound
      have hfit := libc_fits h hsound
      obtain ⟨s₁, happend, hfits, hcount⟩ := append_of_fits h (libc_told text) hfit
      obtain ⟨-, s₂, happend₂, hrest⟩ := hsound
      obtain rfl := Option.some_inj.mp (happend.symm.trans happend₂)
      change done.length + stored s.1.size text = _ at hcount
      rw [List.flatten_cons, ← List.append_assoc]
      refine ih hfits ?_
      rw [show (libc text).text = text from rfl, hcount] at hrest
      exact hrest

/-- The message has to fit where a piece follows it. -/
theorem awoke_fits {next : List UInt8} (h : Fits cap done s) (hpos : 0 < next.length)
    (hshort : next.length < 2 ^ 31)
    (hsound : Sound cap done.length s (awoke text :: libc next :: pieces)) :
    (done ++ text).length < cap := by
  by_contra hlong
  rw [List.length_append] at hlong
  obtain ⟨-, s', happend, hrest⟩ := hsound
  obtain ⟨-, hp⟩ := append_of_cut h (Nat.not_lt.mp hlong) happend hrest.stands
  -- the pointer is at the last byte, and is moved on
  obtain ⟨-, s'', happend', hrest'⟩ := hrest
  have hhigh := hrest'.stands.high
  have hmoved : s''.1.p = s'.1.p + vsnprintfLen next := by
    unfold append at happend'
    dsimp only at happend'
    split at happend'
    · obtain rfl := Option.some_injective _ happend'
      rfl
    · exact nomatch happend'
  rw [hmoved, hp, BuildPtr.vsnprintfLen_of_lt hshort] at hhigh
  omega

theorem flatMap_libc (texts : List (List UInt8)) :
    (texts.map libc).flatMap Piece.text = texts.flatten := by
  rw [List.flatMap_map]
  exact List.flatMap_id

theorem libcs_room (texts : List (List UInt8)) (h : Fits cap done s)
    (hsound : Sound cap done.length s (texts.map libc)) : (done ++ texts.flatten).length < cap := by
  rw [← List.append_nil (texts.map libc)] at hsound
  obtain ⟨s', hfits, -⟩ := libcs_fit texts h hsound
  exact hfits.room

/-- **A line of the log is built in its buffer exactly if all of it fits.** -/
theorem line_sound_iff {max : Nat} (hpos : 1 ≤ max) (hint : max < 2 ^ 31) (cells : Cells UInt8)
    (front : List (List UInt8)) (message next : List UInt8) (back : List (List UInt8))
    (hnext : 0 < next.length) (hshort : next.length < 2 ^ 31) :
    Sound max 0 (buildPtrInit max cells)
        (front.map libc ++ awoke message :: (next :: back).map libc) ↔
      (front.flatten ++ message ++ (next :: back).flatten).length < max := by
  have hstart := (buildPtrInit_startsIn hpos hint cells).fits
  constructor
  · intro hsound
    obtain ⟨s, hfits, hrest⟩ := libcs_fit front hstart hsound
    rw [List.nil_append] at hfits hrest
    have hfit := awoke_fits hfits hnext hshort hrest
    obtain ⟨s₁, happend, hfits₁, hcount⟩ := append_of_fits hfits (awoke_told message) hfit
    obtain ⟨-, s₂, happend₂, hrest₂⟩ := hrest
    obtain rfl := Option.some_inj.mp (happend.symm.trans happend₂)
    rw [hcount] at hrest₂
    exact libcs_room (next :: back) hfits₁ hrest₂
  · intro hfit
    refine sound_of_fits _ hstart (fun piece hmem => ?_) ?_
    · rcases List.mem_append.mp hmem with hmem | hmem
      · exact libcs_told hmem
      rcases List.mem_cons.mp hmem with rfl | hmem
      · exact awoke_told _
      · exact libcs_told hmem
    · rw [List.nil_append, List.flatMap_append, List.flatMap_cons, flatMap_libc, flatMap_libc,
        ← List.append_assoc]
      exact hfit

theorem texts_sound_iff {max : Nat} (hpos : 1 ≤ max) (hint : max < 2 ^ 31) (cells : Cells UInt8)
    (texts : List (List UInt8)) :
    Sound max 0 (buildPtrInit max cells) (texts.map libc) ↔ texts.flatten.length < max := by
  have hstart := (buildPtrInit_startsIn hpos hint cells).fits
  constructor
  · exact libcs_room texts hstart
  · intro hfit
    refine sound_of_fits _ hstart (fun piece hmem => libcs_told hmem) ?_
    rwa [List.nil_append, flatMap_libc]

/-! ### The lines of the log -/

theorem lineEnd (color : Bool) : ∃ next back,
    (if color then [libc (ascii logColorReset)] else []) ++ [libc (ascii "\n")] =
        (next :: back).map libc ∧
      0 < next.length ∧ next.length < 2 ^ 31 := by
  cases color with
  | true => exact ⟨ascii logColorReset, [ascii "\n"], rfl, by decide, by decide⟩
  | false => exact ⟨ascii "\n", [], rfl, by decide, by decide⟩

/-- How long a line is. -/
def lineLength (pieces : List Piece) : Nat := (pieces.flatMap Piece.text).length

theorem log_sound_iff (cells : Cells UInt8) (front : List (List UInt8)) (message : List UInt8)
    (color : Bool) :
    let line := front.map libc ++ [awoke message] ++
      (if color then [libc (ascii logColorReset)] else []) ++ [libc (ascii "\n")]
    Sound awokeLogBuffMaxlen 0 (buildPtrInit awokeLogBuffMaxlen cells) line ↔
      lineLength line < awokeLogBuffMaxlen := by
  obtain ⟨next, back, heq, hnext, hshort⟩ := lineEnd color
  dsimp only
  rw [List.append_assoc, heq, List.append_assoc, List.singleton_append,
    line_sound_iff (by decide) (by decide) cells front message next back hnext hshort, lineLength,
    List.flatMap_append, List.flatMap_cons, flatMap_libc, flatMap_libc, List.append_assoc]
  rfl

theorem nothing_sound (cells : Cells UInt8) :
    Sound awokeLogBuffMaxlen 0 (buildPtrInit awokeLogBuffMaxlen cells) [] ↔
      lineLength [] < awokeLogBuffMaxlen :=
  texts_sound_iff (by decide) (by decide) cells []

/-- **The string builder stays in its buffer exactly if what it builds fits**, for texts one after
the other and for every line of `awoke_log` and `awoke_logm`. -/
theorem string_builder_iff (cells : Cells UInt8) {max : Nat} (hpos : 1 ≤ max) (hint : max < 2 ^ 31)
    (texts : List (List UInt8)) (ctx : AwokeLogContext) (level : AwokeLogLevel)
    (module : BitVec 32) (date : Tm) (place : Place) (message : List UInt8) :
    (Sound max 0 (buildPtrInit max cells) (texts.map libc) ↔ texts.flatten.length < max) ∧
      (Sound awokeLogBuffMaxlen 0 (buildPtrInit awokeLogBuffMaxlen cells)
          (awokeLog ctx level date place message) ↔
        lineLength (awokeLog ctx level date place message) < awokeLogBuffMaxlen) ∧
      (Sound awokeLogBuffMaxlen 0 (buildPtrInit awokeLogBuffMaxlen cells)
          (awokeLogm ctx level module date place message) ↔
        lineLength (awokeLogm ctx level module date place message) < awokeLogBuffMaxlen) := by
  refine ⟨texts_sound_iff hpos hint cells texts, ?_, ?_⟩
  · unfold awokeLog
    split
    · exact log_sound_iff cells _ message _
    · exact nothing_sound cells
  · unfold awokeLogm
    split
    · exact nothing_sound cells
    split_ifs
    · exact nothing_sound cells
    · exact nothing_sound cells
    · exact nothing_sound cells
    · exact log_sound_iff cells _ message true
    · exact log_sound_iff cells _ message false

theorem string_builder_iff_short :
    Sound 4 0 (buildPtrInit 4 fun _ => 0) ([ascii "ab", ascii "c"].map libc) :=
  (string_builder_iff (fun _ => 0) (by decide) (by decide) [ascii "ab", ascii "c"]
    ⟨0, 0, .stdout⟩ .logNone 0 ⟨0, 0, 0, 0, 0, 0⟩ ⟨.empty, 0⟩ []).1.mpr (by decide)

/-- Five bytes do not fit in four, and a message of 256 does not fit in a line. -/
theorem five_in_four :
    ¬Sound 4 0 (buildPtrInit 4 fun _ => 0) ([ascii "abcde"].map libc) ∧
      ¬Sound awokeLogBuffMaxlen 0 (buildPtrInit awokeLogBuffMaxlen fun _ => 0)
        (awokeLog ⟨0, 0, .stdout⟩ .logInfo ⟨126, 0, 1, 0, 0, 0⟩ ⟨.empty, 1⟩
          (List.replicate 256 97)) := by
  constructor
  · rw [texts_sound_iff (by decide) (by decide)]
    decide
  · rw [awokeLog, if_pos (by decide)]
    intro hsound
    have hlt := (log_sound_iff _ _ _ _).mp hsound
    simp only [lineLength, List.flatMap_append, List.length_append, List.flatMap_singleton, awoke,
      List.length_replicate, awokeLogBuffMaxlen] at hlt
    omega

/-! ### What is printed -/

section

variable {logs : Logs} {level : AwokeLogLevel} {place : Place}

theorem print_hidden (h : logs.ctx.levelVisible level = false) (place : Place)
    (message : Option (List UInt8)) : logs.print level place message = some () := by
  rw [Logs.print, h, if_neg Bool.false_ne_true]

theorem print_iff {message : List UInt8} : logs.print level place (some message) = some () ↔
    (logs.ctx.levelVisible level = true → logs.fits level place message = true) := by
  rw [Logs.print]
  split
  case isTrue h =>
    rw [Option.bind_some, imp_iff_right h]
    split
    case isTrue hfits => exact iff_of_true rfl hfits
    case isFalse hnot => exact iff_of_false (Option.some_ne_none ()).symm hnot
  case isFalse h => exact iff_of_true rfl fun hvisible => absurd hvisible h

theorem printm_none_iff {module : BitVec 32} :
    logs.printm level module place none = some () ↔ logs.shows level module = false := by
  rw [Logs.printm]
  cases logs.shows level module with
  | true => exact iff_of_false (Option.some_ne_none ()).symm Bool.noConfusion
  | false => exact iff_of_true rfl rfl

end

end Awoke.LogLine
