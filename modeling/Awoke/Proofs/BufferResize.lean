/-
When a resize that tries its best comes back.

`awoke_buffchunk_resize` with `trybest` halves the size after every refusal and asks again.  Nothing
stops it at zero: an allocator that refuses zero bytes as well is asked for zero bytes for ever, and
one that frees the block on such a `realloc`, as the C library does, is handed the freed block the
next time.  A negative size is halved to -1 and stays there.

`resize_trybest_iff` says that these are all: the resize comes back with what it promises exactly
when the size is not negative and one of its requests is granted before a block is lost.  Where the
first is granted, `Sound.resize_shown` finds the resize of `Buffchunk` again.
-/
import Awoke.Util.BufferHeap

namespace Awoke.HeapChunk

variable {a : Allocator} {k : Nat} {chunk : HeapChunk} {size : Int}

/-! ### The requests of one resize -/

/-- The size of the `j`-th request. -/
def trial (size : Int) (j : Nat) : Int := min size Buffchunk.limit >>> j

/-- The answer to the `j`-th request. -/
def reply (a : Allocator) (k : Nat) (size : Int) (j : Nat) : Option (Cells UInt8) :=
  a.answer (k + j) (sizeT (trial size j))

/-- A refusal of the `j`-th request frees the block. -/
def Frees (a : Allocator) (chunk : HeapChunk) (size : Int) (j : Nat) : Prop :=
  chunk.block ≠ .null ∧ sizeT (trial size j) = 0 ∧ a.frees = true

/-- The `j`-th request is refused, and the chunk keeps what it has. -/
def Refuses (a : Allocator) (k : Nat) (chunk : HeapChunk) (size : Int) (j : Nat) : Prop :=
  reply a k size j = none ∧ ¬Frees a chunk size j

/-- The `j`-th request is the first that is granted, and no block is lost before. -/
def Grants (a : Allocator) (k : Nat) (chunk : HeapChunk) (size : Int) (j : Nat) : Prop :=
  (∀ i < j, Refuses a k chunk size i) ∧ (reply a k size j).isSome

/-- The `j`-th request is refused and the block lost, with nothing granted before. -/
def Loses (a : Allocator) (k : Nat) (chunk : HeapChunk) (size : Int) (j : Nat) : Prop :=
  (∀ i < j, Refuses a k chunk size i) ∧ reply a k size j = none ∧ Frees a chunk size j

theorem trial_zero (size : Int) : trial size 0 = min size Buffchunk.limit :=
  Int.shiftRight_zero _

theorem trial_le_limit (size : Int) (j : Nat) : trial size j ≤ Buffchunk.limit := by
  rw [trial, Int.shiftRight_eq_div_pow]
  have hmin : min size Buffchunk.limit ≤ Buffchunk.limit := Int.min_le_right _ _
  have hpow : (0 : Int) < ((2 ^ j : Nat) : Int) := by exact_mod_cast Nat.two_pow_pos j
  refine Int.le_trans (Int.ediv_le_ediv hpow hmin) ?_
  exact Int.ediv_le_self _ (by decide)

theorem trial_nonneg_iff (size : Int) (j : Nat) : 0 ≤ trial size j ↔ 0 ≤ size := by
  rw [trial, Int.shiftRight_eq_div_pow]
  have hpow : (0 : Int) < ((2 ^ j : Nat) : Int) := by exact_mod_cast Nat.two_pow_pos j
  rw [Int.ediv_nonneg_iff_of_pos hpow, Buffchunk.limit]
  omega

/-- Halving on from the `j`-th size is halving on from the first. -/
theorem trial_trial (size : Int) (j i : Nat) : trial (trial size j) i = trial size (j + i) := by
  rw [trial, Int.min_eq_left (trial_le_limit size j)]
  exact (Int.shiftRight_add _ j i).symm

/-! ### One request -/

theorem refused_eq (h : ¬Frees a chunk size 0) : refused a chunk (trial size 0) = chunk := by
  unfold refused
  split
  · rename_i bytes hblock
    refine if_neg fun hfrees => h ⟨?_, hfrees⟩
    rw [hblock]
    exact Block.noConfusion
  · rfl

theorem refused_dead (hlive : chunk.block ≠ .dead) (h : Frees a chunk size 0) :
    (refused a chunk (trial size 0)).block = .dead := by
  obtain ⟨hnull, hfrees⟩ := h
  unfold refused
  split
  · rw [if_pos hfrees]
  · rename_i hne
    cases hblock : chunk.block with
    | null => exact absurd hblock hnull
    | live bytes => exact absurd hblock (hne bytes)
    | dead => exact absurd hblock hlive

theorem resize_grant {fresh : Cells UInt8} (stack : Nat) (hlive : chunk.block ≠ .dead)
    (h : reply a k size 0 = some fresh) :
    resize a (stack + 1) k chunk size true =
      .ok (.etOk, chunk.granted (trial size 0) true fresh, k + 1) := by
  rw [reply, trial_zero, Nat.add_zero] at h
  simp only [resize, not_true, false_and, if_false, if_true, if_neg hlive, h, trial_zero]

theorem resize_refuse (stack : Nat) (hlive : chunk.block ≠ .dead) (h : reply a k size 0 = none) :
    resize a (stack + 1) k chunk size true =
      resize a stack (k + 1) (refused a chunk (trial size 0)) (trial size 1) true := by
  rw [reply, trial_zero, Nat.add_zero] at h
  simp only [resize, not_true, false_and, if_false, if_true, if_neg hlive, h]
  rw [trial_zero]
  rfl

theorem resize_dead (stack : Nat) (hdead : chunk.block = .dead) :
    resize a (stack + 1) k chunk size true = .error .freed := by
  simp only [resize, not_true, false_and, if_false, if_pos hdead]

/-! ### A run of refusals -/

/-- **After `j` refusals** the chunk is what it was, and the `j`-th size is asked for. -/
theorem resize_refuses (hlive : chunk.block ≠ .dead) (stack : Nat) : ∀ j : Nat,
    (∀ i < j, Refuses a k chunk size i) →
      resize a (j + stack) k chunk size true =
        resize a stack (k + j) chunk (trial size j) true := by
  intro j
  induction j generalizing k size with
  | zero =>
      intro _
      rw [Nat.zero_add, Nat.add_zero]
      -- The size is cut to the limit at the first request and stays under it.
      cases stack with
      | zero => rfl
      | succ stack =>
          simp only [resize, not_true, false_and, if_false, if_true, trial_zero]
          rw [Int.min_assoc, Int.min_self]
  | succ j ih =>
      intro h
      obtain ⟨hnone, hkeeps⟩ := h 0 (Nat.succ_pos j)
      rw [Nat.add_right_comm, resize_refuse _ hlive hnone, refused_eq hkeeps]
      have hrest : ∀ i < j, Refuses a (k + 1) chunk (trial size 1) i := by
        intro i hi
        have hnext := h (i + 1) (Nat.succ_lt_succ hi)
        rw [Refuses, reply, Frees, trial_trial, Nat.add_comm 1 i, Nat.add_assoc, Nat.add_comm 1 i]
        exact hnext
      rw [ih hrest, trial_trial, Nat.add_assoc, Nat.add_comm 1 j]

/-- Either some request settles the matter, or all are refused. -/
theorem grants_or_loses_or_refuses (a : Allocator) (k : Nat) (chunk : HeapChunk) (size : Int) :
    (∃ j, Grants a k chunk size j) ∨ (∃ j, Loses a k chunk size j) ∨
      ∀ j, Refuses a k chunk size j := by
  by_cases hall : ∀ j, Refuses a k chunk size j
  · exact .inr (.inr hall)
  · -- The first request that is not refused with the chunk as it was.
    obtain ⟨j, hj, hfirst⟩ :
        ∃ j, ¬Refuses a k chunk size j ∧ ∀ i < j, Refuses a k chunk size i := by
      classical
      have hsome := not_forall.mp hall
      exact ⟨Nat.find hsome, Nat.find_spec hsome, fun i hi => not_not.mp (Nat.find_min hsome hi)⟩
    cases hreply : reply a k size j with
    | none =>
        refine .inr (.inl ⟨j, hfirst, hreply, ?_⟩)
        exact not_not.mp fun hkeeps => hj ⟨hreply, hkeeps⟩
    | some fresh => exact .inl ⟨j, hfirst, by rw [hreply]; rfl⟩

/-- **A request that is granted** ends the resize. -/
theorem Grants.resize (hlive : chunk.block ≠ .dead) {j : Nat} (h : Grants a k chunk size j) :
    ∃ fresh, reply a k size j = some fresh ∧ ∀ stack, j < stack →
      resize a stack k chunk size true =
        .ok (.etOk, chunk.granted (trial size j) true fresh, k + j + 1) := by
  obtain ⟨hfirst, hreply⟩ := h
  obtain ⟨fresh, hfresh⟩ := Option.isSome_iff_exists.mp hreply
  refine ⟨fresh, hfresh, fun stack hstack => ?_⟩
  obtain ⟨d, rfl⟩ := Nat.le.dest hstack
  have hj : reply a (k + j) (trial size j) 0 = some fresh := by
    rw [reply, trial_trial]
    exact hfresh
  rw [Nat.succ_add_eq_add_succ, resize_refuses hlive (d + 1) j hfirst, resize_grant d hlive hj,
    trial_trial, Nat.add_zero]

/-- One that loses the block ends it in trouble, where the stack has room for the next. -/
theorem Loses.resize (hlive : chunk.block ≠ .dead) {j : Nat} (h : Loses a k chunk size j)
    {stack : Nat} (hstack : j + 1 < stack) :
    HeapChunk.resize a stack k chunk size true = .error .freed := by
  obtain ⟨hfirst, hreply, hfrees⟩ := h
  obtain ⟨d, rfl⟩ := Nat.le.dest hstack
  have hj : reply a (k + j) (trial size j) 0 = none := by
    rw [reply, trial_trial]
    exact hreply
  have hdead : Frees a chunk (trial size j) 0 := by
    rw [Frees, trial_trial]
    exact hfrees
  have hblock := refused_dead hlive hdead
  rw [trial_trial] at hblock
  rw [show (j + 1).succ + d = j + (d + 1 + 1) by omega, resize_refuses hlive (d + 1 + 1) j hfirst,
    resize_refuse _ hlive hj, trial_trial, resize_dead d hblock]

/-- And refusals alone end with the stack; the last of them may lose the block. -/
theorem resize_stack (hlive : chunk.block ≠ .dead) {stack : Nat}
    (h : ∀ j, j + 1 < stack → Refuses a k chunk size j)
    (hlast : ∀ j < stack, reply a k size j = none) :
    HeapChunk.resize a stack k chunk size true = .error .stack := by
  cases stack with
  | zero => rfl
  | succ stack =>
      have hnone : reply a (k + stack) (trial size stack) 0 = none := by
        rw [reply, trial_trial]
        exact hlast stack (Nat.lt_succ_self stack)
      rw [resize_refuses hlive 1 stack fun j hj => h j (Nat.succ_lt_succ hj),
        resize_refuse 0 hlive hnone]
      rfl

/-- What ends a resize whose stack is bounded. -/
theorem resize_cases (a : Allocator) (k : Nat) (size : Int) (hlive : chunk.block ≠ .dead)
    (stack : Nat) :
    (∃ j < stack, Grants a k chunk size j) ∨ (∃ j, j + 1 < stack ∧ Loses a k chunk size j) ∨
      HeapChunk.resize a stack k chunk size true = .error .stack := by
  rcases grants_or_loses_or_refuses a k chunk size with ⟨j, h⟩ | ⟨j, h⟩ | h
  · by_cases hj : j < stack
    · exact .inl ⟨j, hj, h⟩
    · refine .inr (.inr (resize_stack hlive (fun i hi => h.1 i (by omega)) fun i hi => ?_))
      exact (h.1 i (by omega)).1
  · by_cases hj : j + 1 < stack
    · exact .inr (.inl ⟨j, hj, h⟩)
    · refine .inr (.inr (resize_stack hlive (fun i hi => h.1 i (by omega)) fun i hi => ?_))
      rcases Nat.lt_or_eq_of_le (show i ≤ j by omega) with hlt | rfl
      · exact (h.1 i hlt).1
      · exact h.2.1
  · exact .inr (.inr (resize_stack hlive (fun i _ => h i) fun i _ => (h i).1))

/-! ### What a resize promises -/

/-- A chunk as the library leaves it: sound, or without a block, as `awoke_buffchunk_init` and
`awoke_buffchunk_clean` leave it. -/
abbrev Owned :=
  { chunk : HeapChunk // chunk.Sound ∨ chunk.block = .null ∧ chunk.size = 0 ∧ chunk.length = 0 }

/-- A resize that succeeds gives the chunk a size that was granted, and keeps as much of the data
as goes in; one that fails changes nothing. -/
def Promised (chunk : HeapChunk) (ret : ErrType) (chunk' : HeapChunk) : Prop :=
  if ret = .etOk then
    ∃ n : Nat, chunk'.block = .live n ∧ chunk'.size = n ∧ chunk'.length = min chunk.length n ∧
      chunk'.contents = chunk.contents.take chunk'.length.toNat
  else chunk' = chunk

theorem Sound.not_dead (h : chunk.Sound) : chunk.block ≠ .dead := by
  rw [h.block]
  exact Block.noConfusion

theorem Owned.not_dead (chunk : Owned) : chunk.1.block ≠ .dead := by
  rcases chunk.2 with hsound | ⟨hnull, -, -⟩
  · exact hsound.not_dead
  · rw [hnull]
    exact Block.noConfusion

theorem sizeT_natCast {n : Nat} (hn : n < 2 ^ 64) : sizeT n = n := by
  rw [sizeT]
  omega

/-- What a chunk says of itself, with the bytes in use. -/
def shown (chunk : Buffchunk) : Int × Int × List UInt8 :=
  (chunk.size, chunk.length, chunk.contents)

/-- The length after `realloc`: cut to the new size by `trybest`, and without it never more. -/
theorem granted_length {n : Int} {trybest : Bool} (hkeep : trybest = true ∨ chunk.length ≤ n)
    (fresh : Cells UInt8) {bytes : Nat} (hblock : chunk.block = .live bytes) :
    (chunk.granted n trybest fresh).length = min chunk.length n := by
  simp only [granted, hblock]
  split
  · rename_i hcut
    exact (Int.min_eq_right (Int.le_of_lt hcut.1)).symm
  · rename_i hcut
    refine (Int.min_eq_left ?_).symm
    rcases hkeep with hbest | hle
    · exact Int.not_lt.mp fun hlt => hcut ⟨hlt, hbest⟩
    · exact hle

/-- What `realloc` gives a sound chunk: the size that was granted, and of the data what goes in. -/
theorem Sound.granted_shown (h : chunk.Sound) {n : Nat} (hn : n < 2 ^ 64) {trybest : Bool}
    (hkeep : trybest = true ∨ chunk.length ≤ n) (fresh : Cells UInt8) :
    shown (chunk.granted n trybest fresh).toBuffchunk =
      shown { chunk.toBuffchunk with size := n, length := min chunk.length n } := by
  have hlow := h.low
  have hhigh := h.high
  have hlength := granted_length hkeep fresh h.block
  rw [shown, shown, Buffchunk.contents, Buffchunk.contents, hlength]
  simp only [granted, h.block, sizeT_natCast hn]
  -- The bytes that are kept are those of the old block, up to the smaller of the two.
  have hslice : Cells.slice (Cells.write fresh 0 (Cells.slice chunk.p 0 (min chunk.size.toNat n))) 0
      (min chunk.length (n : Int)).toNat = Cells.slice chunk.p 0 (min chunk.length n).toNat := by
    refine Cells.slice_congr fun i hi => ?_
    have hkept : i < (Cells.slice chunk.p 0 (min chunk.size.toNat n)).length := by
      rw [Cells.slice_length]
      omega
    exact (Cells.write_inside fresh 0 _ hkept).trans (Cells.slice_getElem _ _ _ _ hkept)
  rw [hslice]

/-- What is granted for a size that is not negative is what was promised. -/
theorem Owned.granted_promised (chunk : Owned) {n : Nat} (hn : n < 2 ^ 64)
    (fresh : Cells UInt8) : Promised chunk.1 .etOk (chunk.1.granted n true fresh) := by
  rw [Promised, if_pos rfl]
  refine ⟨n, ?_⟩
  rcases chunk.2 with hsound | ⟨hnull, hsize, hlength⟩
  · have hshown := hsound.granted_shown hn (.inl rfl) fresh
    obtain ⟨hsize, hrest⟩ := Prod.mk.inj hshown
    obtain ⟨hlength, hcontents⟩ := Prod.mk.inj hrest
    refine ⟨?_, hsize, hlength, ?_⟩
    · simp only [granted, hsound.block, sizeT_natCast hn]
    · have hold : min chunk.1.length (n : Int) ≤ chunk.1.length := Int.min_le_left _ _
      rw [hcontents, hlength]
      show Cells.slice chunk.1.p 0 (min chunk.1.length n).toNat =
        (Cells.slice chunk.1.p 0 chunk.1.length.toNat).take (min chunk.1.length n).toNat
      rw [Cells.slice_take _ _ (by omega)]
  · simp only [granted, hnull, sizeT_natCast hn, Buffchunk.contents, hlength]
    exact ⟨trivial, trivial, (Int.min_eq_left (Int.natCast_nonneg n)).symm, rfl⟩

/-- **Where memory is there** for as much as is asked for, a resize does as `Buffchunk.resize`
says. -/
theorem Sound.resize_shown (h : chunk.Sound) (hsize : 0 < size)
    (hroom : ∀ bytes, 0 < bytes → (a.answer k bytes).isSome) (stack : Nat) (trybest : Bool) :
    ∃ chunk' requests,
      HeapChunk.resize a (stack + 1) k chunk size trybest =
        .ok ((chunk.toBuffchunk.resize size trybest).1, chunk', requests) ∧
      shown chunk'.toBuffchunk = shown (chunk.toBuffchunk.resize size trybest).2 := by
  have hgrant : ∀ n : Int, 0 < n → n ≤ Buffchunk.limit →
      ∃ m : Nat, n = m ∧ m < 2 ^ 64 ∧ ∃ fresh, a.answer k (sizeT n) = some fresh := by
    intro n hpos hlimit
    rw [Buffchunk.limit] at hlimit
    obtain ⟨m, rfl⟩ := Int.eq_ofNat_of_zero_le (Int.le_of_lt hpos)
    have hm : m < 2 ^ 64 := by omega
    refine ⟨m, rfl, hm, Option.isSome_iff_exists.mp (hroom _ ?_)⟩
    rw [sizeT_natCast hm]
    omega
  cases trybest with
  | true =>
      have hpos : 0 < trial size 0 := by
        rw [trial_zero, Buffchunk.limit]
        omega
      obtain ⟨m, hm, hlt, fresh, hfresh⟩ := hgrant _ hpos (trial_le_limit size 0)
      refine ⟨_, _, resize_grant stack h.not_dead hfresh, ?_⟩
      rw [hm, h.granted_shown hlt (.inl rfl) fresh, ← hm, trial_zero]
      rfl
  | false =>
      by_cases hlimit : Buffchunk.limit < size
      · refine ⟨chunk, k, ?_⟩
        simp [HeapChunk.resize, Buffchunk.resize, hlimit]
      by_cases hcut : size < chunk.length
      · refine ⟨chunk, k, ?_⟩
        simp [HeapChunk.resize, Buffchunk.resize, hlimit, hcut]
      · obtain ⟨m, rfl, hlt, fresh, hfresh⟩ := hgrant size hsize (Int.not_lt.mp hlimit)
        refine ⟨chunk.granted m false fresh, k + 1, ?_, ?_⟩
        · simp [HeapChunk.resize, Buffchunk.resize, hlimit, hcut, h.not_dead, hfresh]
        · rw [h.granted_shown hlt (.inr (Int.not_lt.mp hcut)) fresh,
            Int.min_eq_left (Int.not_lt.mp hcut)]
          simp [Buffchunk.resize, hlimit, hcut]

theorem granted_size (n : Int) (fresh : Cells UInt8) :
    (chunk.granted n true fresh).size = n := by
  unfold granted
  split
  · rfl
  · rfl

/-- **When a resize that tries its best comes back**, with stack enough, and keeps its promise:
when the size is not negative, and a request is granted before a block is lost. -/
theorem resize_trybest_iff (a : Allocator) (k : Nat) (chunk : Owned) (size : Int) :
    (∃ depth ret chunk' requests,
      (∀ stack, depth ≤ stack →
        resize a stack k chunk.1 size true = .ok (ret, chunk', requests)) ∧
      Promised chunk.1 ret chunk') ↔
    0 ≤ size ∧ ∃ j, Grants a k chunk.1 size j := by
  have hlive := chunk.not_dead
  constructor
  · rintro ⟨depth, ret, chunk', requests, hruns, hpromised⟩
    rcases grants_or_loses_or_refuses a k chunk.1 size with ⟨j, h⟩ | ⟨j, h⟩ | h
    · obtain ⟨fresh, -, hresize⟩ := h.resize hlive
      have hrun := (hruns (depth + j + 1) (by omega)).symm.trans (hresize _ (by omega))
      obtain ⟨rfl, hrest⟩ := Prod.mk.inj (Except.ok.inj hrun)
      obtain ⟨rfl, -⟩ := Prod.mk.inj hrest
      rw [Promised, if_pos rfl] at hpromised
      obtain ⟨n, -, hsize, -, -⟩ := hpromised
      rw [granted_size] at hsize
      exact ⟨(trial_nonneg_iff size j).mp (by omega), j, h⟩
    · have hstack : j + 1 < j + 2 + depth := by omega
      cases (hruns (j + 2 + depth) (by omega)).symm.trans (h.resize hlive hstack)
    · have hrun := (hruns depth (Nat.le_refl _)).symm.trans
        (resize_stack hlive (fun j _ => h j) fun j _ => (h j).1)
      cases hrun
  · rintro ⟨hsize, j, h⟩
    obtain ⟨fresh, -, hresize⟩ := h.resize hlive
    refine ⟨j + 1, _, _, _, fun stack hstack => hresize stack hstack, ?_⟩
    have hlow := (trial_nonneg_iff size j).mpr hsize
    have hhigh := trial_le_limit size j
    obtain ⟨n, hn⟩ := Int.eq_ofNat_of_zero_le hlow
    rw [Buffchunk.limit] at hhigh
    rw [hn]
    exact chunk.granted_promised (by omega) fresh

/-! ### A resize to nothing -/

/-- The C library's allocator with all the memory it needs: `realloc` to no bytes frees the block
and returns the null pointer. -/
def roomy : Allocator where
  answer _ bytes := if bytes = 0 then none else some fun _ => 0
  frees := true

/-- Four bytes, none in use. -/
def fourBytes : HeapChunk :=
  { id := 0, p := fun _ => 0, size := 4, length := 0, block := .live 4 }

theorem fourBytes_sound : fourBytes.Sound := ⟨rfl, by decide, by decide⟩

/-- **A chunk resized to nothing** is freed, and then handed to `realloc` again. -/
theorem resize_freed : ¬∀ (a : Allocator) (k : Nat) (chunk : Owned) (size : Int),
    ∃ depth ret chunk' requests,
      (∀ stack, depth ≤ stack →
        resize a stack k chunk.1 size true = .ok (ret, chunk', requests)) ∧
      Promised chunk.1 ret chunk' := by
  intro h
  obtain ⟨depth, ret, chunk', requests, hruns, -⟩ := h roomy 0 ⟨fourBytes, .inl fourBytes_sound⟩ 0
  have hloses : Loses roomy 0 fourBytes 0 0 :=
    ⟨fun i hi => absurd hi (Nat.not_lt_zero i), rfl, by decide, rfl, rfl⟩
  have hstack : 0 + 1 < depth + 2 := by omega
  cases (hruns (depth + 2) (by omega)).symm.trans (hloses.resize (by decide) hstack)

end Awoke.HeapChunk
