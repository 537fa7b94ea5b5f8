/-
When a chunk keeps to its block.

Every call leaves a sound chunk sound: the length stays in the size, and the size is what was
granted.  Only a resize can break that, in three ways that are the allocator's to give: it frees a
block on a `realloc` to no bytes, and refuses; or it grants a negative size.

What a call reads and writes is in the block, but for `awoke_buffchunk_backoff`, which moves the
whole size to the front from `back` bytes on, and so reads as many bytes from behind the block.
The data come to the front all the same.

`chunk_iff` says so of runs.  `call_exec` ties the lists of accesses to what the calls compute.
-/
import Awoke.Proofs.BufferResize
import Awoke.Lib.Run

namespace Awoke.ChunkState

open HeapChunk

variable {a : Allocator} {stack : Nat} {s : ChunkState}

/-! ### The accesses are those of the calls -/

/-- What a write takes of its data. -/
def copylen (chunk : HeapChunk) (data : List UInt8) : Int := min chunk.remain data.length

/-- A write takes nothing, or as much as there is room for. -/
theorem write_cases (chunk : HeapChunk) (data : List UInt8) (trybest : Bool) :
    (chunk.ops (.write data trybest) = [] ∧
      (chunk.write data trybest).2 = chunk.toBuffchunk) ∨
    chunk.ops (.write data trybest) =
        [.write chunk.length (data.take (copylen chunk data).toNat)] ∧
      (chunk.write data trybest).2 = { chunk.toBuffchunk with
        p := Cells.write chunk.p chunk.length (data.take (copylen chunk data).toNat)
        length := chunk.length + copylen chunk data } := by
  simp only [ops, Buffchunk.write]
  by_cases hdata : data.length = 0
  · exact .inl ⟨if_pos (.inl hdata), by rw [if_pos hdata]⟩
  by_cases hfull : chunk.remain = 0
  · exact .inl ⟨if_pos (.inr (.inl hfull)), by rw [if_neg hdata, if_pos hfull]⟩
  by_cases hroom : ¬trybest = true ∧ chunk.remain < data.length
  · refine .inl ⟨if_pos (.inr (.inr hroom)), ?_⟩
    rw [if_neg hdata, if_neg hfull, if_pos hroom]
  have hlength : (if trybest = true ∧ chunk.remain < data.length then chunk.remain
      else (data.length : Int)) = copylen chunk data := by
    rw [copylen]
    split
    · rename_i htry
      exact (Int.min_eq_left (Int.le_of_lt htry.2)).symm
    · rename_i htry
      refine (Int.min_eq_right (Int.not_lt.mp fun hlt => ?_)).symm
      exact hroom ⟨fun hbest => htry ⟨hbest, hlt⟩, hlt⟩
  refine .inr ⟨?_, ?_⟩
  · rw [if_neg (by tauto), hlength]
  · rw [if_neg hdata, if_neg hfull, if_neg hroom, hlength]

theorem write_exec (chunk : HeapChunk) (data : List UInt8) (trybest : Bool) :
    Cells.exec chunk.p (chunk.ops (.write data trybest)) = (chunk.write data trybest).2.p := by
  rcases write_cases chunk data trybest with ⟨hops, heq⟩ | ⟨hops, heq⟩
  · rw [hops, heq, Cells.exec_nil]
  · rw [hops, heq]
    rfl

theorem copy_exec (dst : HeapChunk) (src : Source) :
    Cells.exec dst.p (dst.ops (.copy src)) = (dst.copy src.1).2.p := by
  simp only [ops, HeapChunk.copy]
  by_cases hlength : dst.size < src.1.length
  · rw [if_pos hlength, if_pos hlength, Cells.exec_nil]
  · rw [if_neg hlength, if_neg hlength]
    rfl

/-- **The accesses of a call, run in order,** leave the bytes as the call does. -/
theorem call_exec {c : Call} (hc : ∀ size trybest, c ≠ .resize size trybest) {s' : ChunkState}
    {o : Option ErrType} (h : call a stack s c = .ok (s', o)) :
    Cells.exec s.chunk.p (s.chunk.ops c) = s'.chunk.p := by
  cases c with
  | write data trybest =>
      cases h
      exact write_exec s.chunk data trybest
  | copy src =>
      cases h
      exact copy_exec s.chunk src
  | clear =>
      cases h
      rfl
  | resize size trybest => exact absurd rfl (hc size trybest)
  | backoff back =>
      cases h
      rfl

/-! ### What is asked of a call -/

/-- The caller drops bytes that are there. -/
def Valid (s : ChunkState) : Call → Prop
  | .backoff back => 0 ≤ back ∧ back ≤ s.chunk.length
  | _ => True

/-- A copy reads in the block of its source. -/
def ReadsSource (s : ChunkState) : Call → Prop
  | .copy src => Cells.Within src.1.size (copyOps s.chunk src.1)
  | _ => True

/-- What a call leaves: a sound chunk, and after a backoff the data that were not dropped. -/
def Leaves (s : ChunkState) (c : Call) (s' : ChunkState) : Prop :=
  s'.chunk.Sound ∧
    ∀ back, c = .backoff back → s'.chunk.contents = s.chunk.contents.drop back.toNat

/-- A call keeps to the blocks, hands none to the allocator that was freed, and leaves what it
should. -/
structure Kept (a : Allocator) (stack : Nat) (s : ChunkState) (c : Call) : Prop where
  within : Cells.Within s.chunk.size (s.chunk.ops c)
  source : ReadsSource s c
  owned : call a stack s c ≠ .error .freed
  leaves : ∀ s' o, call a stack s c = .ok (s', o) → Leaves s c s'

/-- Nothing is dropped from the front, and a resize neither loses its block nor is granted a
negative size. -/
def Careful (a : Allocator) (stack : Nat) (s : ChunkState) : Call → Prop
  | .backoff back => back = 0
  | .resize size true =>
      (∀ j < stack, Grants a s.requests s.chunk size j → 0 ≤ size) ∧
        ∀ j, j + 1 < stack → ¬Loses a s.requests s.chunk size j
  | .resize size false =>
      0 < stack → s.chunk.length ≤ size → size ≤ Buffchunk.limit →
        ¬Loses a s.requests s.chunk size 0
  | _ => True

/-! ### The calls that keep to the block whatever happens -/

theorem write_within (hs : s.chunk.Sound) (data : List UInt8) (trybest : Bool) :
    Cells.Within s.chunk.size (s.chunk.ops (.write data trybest)) := by
  have hlow := hs.low
  have hroom : copylen s.chunk data ≤ s.chunk.remain := Int.min_le_left _ _
  rcases write_cases s.chunk data trybest with ⟨hops, -⟩ | ⟨hops, -⟩
  · rw [hops]
    exact Cells.within_nil
  · rw [hops, Cells.within_cons, Cells.Op.within_write, List.length_take]
    refine ⟨?_, Cells.within_nil⟩
    rw [Buffchunk.remain] at hroom
    omega

theorem write_sound (hs : s.chunk.Sound) (data : List UInt8) (trybest : Bool) :
    (s.set (s.chunk.write data trybest).2).chunk.Sound := by
  have hlow := hs.low
  have hhigh := hs.high
  rcases write_cases s.chunk data trybest with ⟨-, heq⟩ | ⟨-, heq⟩
  · rw [heq]
    exact hs
  · have hroom : copylen s.chunk data ≤ s.chunk.remain := Int.min_le_left _ _
    have hpos : 0 ≤ copylen s.chunk data := by
      refine Int.le_min.mpr ⟨?_, Int.natCast_nonneg _⟩
      rw [Buffchunk.remain]
      omega
    rw [Buffchunk.remain] at hroom
    rw [heq]
    refine ⟨hs.block, ?_, ?_⟩
    · show 0 ≤ s.chunk.length + copylen s.chunk data
      omega
    · show s.chunk.length + copylen s.chunk data ≤ s.chunk.size
      omega

theorem copy_within (src : Source) :
    Cells.Within s.chunk.size (s.chunk.ops (.copy src)) := by
  have hlow := src.2.low
  simp only [ops]
  split
  · exact Cells.within_nil
  · rw [Cells.within_cons, Cells.Op.within_write, Cells.slice_length]
    exact ⟨by omega, Cells.within_nil⟩

theorem copy_source (src : Source) : Cells.Within src.1.size (copyOps s.chunk src.1) := by
  have hlow := src.2.low
  have hhigh := src.2.high
  rw [copyOps]
  split
  · exact Cells.within_nil
  · rw [Cells.within_cons, Cells.Op.within_read]
    exact ⟨by omega, Cells.within_nil⟩

theorem copy_sound (hs : s.chunk.Sound) (src : Source) : (s.chunk.copy src.1).2.Sound := by
  rw [HeapChunk.copy]
  split
  · exact hs
  · rename_i hfits
    exact ⟨hs.block, src.2.low, Int.not_lt.mp hfits⟩

theorem clear_within (hs : s.chunk.Sound) :
    Cells.Within s.chunk.size (s.chunk.ops .clear) := by
  have hlow := hs.low
  have hhigh := hs.high
  rw [ops, Cells.within_cons, Cells.Op.within_fill]
  exact ⟨by omega, Cells.within_nil⟩

theorem clear_sound (hs : s.chunk.Sound) : (s.set s.chunk.clear).chunk.Sound :=
  ⟨hs.block, Int.le_refl 0, Int.le_trans hs.low hs.high⟩

/-! ### Dropping from the front -/

theorem backoff_within_iff (hs : s.chunk.Sound) {back : Int} (hback : 0 ≤ back)
    (hlength : back ≤ s.chunk.length) :
    Cells.Within s.chunk.size (s.chunk.ops (.backoff back)) ↔ back = 0 := by
  have hhigh := hs.high
  rw [ops, Cells.within_cons, Cells.Op.within_move, and_iff_left Cells.within_nil]
  omega

theorem backoff_sound (hs : s.chunk.Sound) {back : Int} (hback : 0 ≤ back)
    (hlength : back ≤ s.chunk.length) : (s.set (s.chunk.backoff back)).chunk.Sound := by
  have hhigh := hs.high
  refine ⟨hs.block, ?_, ?_⟩
  · show 0 ≤ s.chunk.length - back
    omega
  · show s.chunk.length - back ≤ s.chunk.size
    omega

/-- The data that are left are at the front. -/
theorem backoff_contents (hs : s.chunk.Sound) {back : Int} (hback : 0 ≤ back)
    (hlength : back ≤ s.chunk.length) :
    (s.chunk.backoff back).contents = s.chunk.contents.drop back.toNat := by
  have hhigh := hs.high
  rw [Buffchunk.contents, Buffchunk.contents, Cells.slice_drop _ _ (by omega)]
  have hleft : (s.chunk.backoff back).length.toNat =
      s.chunk.length.toNat - back.toNat := by
    show (s.chunk.length - back).toNat = _
    omega
  rw [hleft]
  refine Cells.slice_congr fun i hi => ?_
  show Cells.move s.chunk.p 0 back s.chunk.size (0 + i) = _
  rw [Cells.move, if_pos (by omega)]
  congr 1
  omega

/-! ### Resizing -/

theorem granted_sound_iff {chunk : HeapChunk} (hs : chunk.Sound) {size : Int} {trybest : Bool}
    (hlimit : size ≤ Buffchunk.limit) (hkeep : trybest = false → chunk.length ≤ size)
    (fresh : Cells UInt8) : (chunk.granted size trybest fresh).Sound ↔ 0 ≤ size := by
  have hlow := hs.low
  rw [Buffchunk.limit] at hlimit
  simp only [granted, hs.block]
  constructor
  · intro h
    exact Int.le_trans h.low h.high
  · intro hsize
    refine ⟨?_, ?_, ?_⟩
    · show Block.live (sizeT size) = .live size.toNat
      rw [sizeT]
      congr 1
      omega
    · show (0 : Int) ≤ if _ then size else chunk.length
      split
      · exact hsize
      · exact hlow
    · show (if _ then size else chunk.length) ≤ size
      split
      · exact Int.le_refl _
      · rename_i hfits
        cases htry : trybest with
        | false => exact hkeep htry
        | true => exact Int.not_lt.mp fun hlt => hfits ⟨hlt, htry⟩

/-- A refusal keeps a sound chunk sound, unless it frees the block. -/
theorem refused_sound_iff {chunk : HeapChunk} (hs : chunk.Sound) (size : Int) :
    (refused a chunk (trial size 0)).Sound ↔ ¬Frees a chunk size 0 := by
  have hlive := hs.not_dead
  constructor
  · intro h hfrees
    exact Block.noConfusion (h.block.symm.trans (refused_dead hlive hfrees))
  · intro h
    rw [refused_eq h]
    exact hs

/-- What is asked of a resize. -/
def ResizeKept (a : Allocator) (stack k : Nat) (chunk : HeapChunk) (size : Int)
    (trybest : Bool) : Prop :=
  chunk.resize a stack k size trybest ≠ .error .freed ∧
    ∀ ret chunk' requests,
      chunk.resize a stack k size trybest = .ok (ret, chunk', requests) → chunk'.Sound

theorem resizeKept_ok {k : Nat} {chunk : HeapChunk} {size : Int} {trybest : Bool}
    {r : ErrType × HeapChunk × Nat} (h : chunk.resize a stack k size trybest = .ok r) :
    ResizeKept a stack k chunk size trybest ↔ r.2.1.Sound := by
  rw [ResizeKept, h]
  constructor
  · rintro ⟨-, hsound⟩
    exact hsound r.1 r.2.1 r.2.2 rfl
  · intro hsound
    refine ⟨fun heq => (by cases heq), ?_⟩
    intro ret chunk' requests heq
    cases heq
    exact hsound

theorem resizeKept_error {k : Nat} {chunk : HeapChunk} {size : Int} {trybest : Bool} {e : Trouble}
    (h : chunk.resize a stack k size trybest = .error e) :
    ResizeKept a stack k chunk size trybest ↔ e ≠ .freed := by
  rw [ResizeKept, h]
  constructor
  · rintro ⟨hne, -⟩ rfl
    exact hne rfl
  · intro hne
    constructor
    · intro heq
      cases heq
      exact hne rfl
    · intro ret chunk' requests heq
      cases heq

/-- A resize that may say no keeps its chunk, unless it loses the block. -/
theorem resize_strict_iff {k : Nat} {chunk : HeapChunk} (hs : chunk.Sound) (size : Int) :
    ResizeKept a stack k chunk size false ↔
      (0 < stack → chunk.length ≤ size → size ≤ Buffchunk.limit → ¬Loses a k chunk size 0) := by
  have hlive := hs.not_dead
  cases stack with
  | zero =>
      refine (resizeKept_error (e := .stack) rfl).trans ⟨fun _ h => absurd h (Nat.lt_irrefl 0), ?_⟩
      exact fun _ => Trouble.noConfusion
  | succ stack =>
      by_cases hlimit : Buffchunk.limit < size
      · have hrun : chunk.resize a (stack + 1) k size false = .ok (.etMemLimit, chunk, k) := by
          rw [HeapChunk.resize, if_pos ⟨Bool.false_ne_true, hlimit⟩]
        rw [resizeKept_ok hrun]
        exact iff_of_true hs fun _ _ h => absurd hlimit (Int.not_lt.mpr h)
      by_cases hfail : size < chunk.length
      · have hrun : chunk.resize a (stack + 1) k size false = .ok (.etFail, chunk, k) := by
          rw [HeapChunk.resize, if_neg fun h => hlimit h.2, if_pos ⟨Bool.false_ne_true, hfail⟩]
        rw [resizeKept_ok hrun]
        exact iff_of_true hs fun _ h => absurd hfail (Int.not_lt.mpr h)
      have hlength := Int.not_lt.mp hfail
      have hsize := Int.not_lt.mp hlimit
      have htrial : trial size 0 = size := by rw [trial_zero, Int.min_eq_left hsize]
      cases hreply : reply a k size 0 with
      | some fresh =>
          have hrun : chunk.resize a (stack + 1) k size false =
              .ok (.etOk, chunk.granted size false fresh, k + 1) := by
            rw [reply, htrial, Nat.add_zero] at hreply
            rw [HeapChunk.resize, if_neg fun h => hlimit h.2, if_neg fun h => hfail h.2]
            simp only [Bool.false_eq_true, if_false, if_neg hlive, hreply]
          rw [resizeKept_ok hrun]
          refine iff_of_true ?_ fun _ _ _ hloses => ?_
          · exact (granted_sound_iff hs hsize (fun _ => hlength) fresh).mpr
              (Int.le_trans hs.low hlength)
          · rw [hloses.2.1] at hreply
            cases hreply
      | none =>
          have hrun : chunk.resize a (stack + 1) k size false =
              .ok (.etNomem, refused a chunk (trial size 0), k + 1) := by
            rw [reply, htrial, Nat.add_zero] at hreply
            rw [HeapChunk.resize, if_neg fun h => hlimit h.2, if_neg fun h => hfail h.2, htrial]
            simp only [Bool.false_eq_true, if_false, if_neg hlive, hreply]
          rw [resizeKept_ok hrun]
          refine (refused_sound_iff hs size).trans ⟨fun h _ _ _ hloses => h hloses.2.2, ?_⟩
          intro h hfrees
          exact h (Nat.succ_pos _) hlength hsize
            ⟨fun i hi => absurd hi (Nat.not_lt_zero i), hreply, hfrees⟩

/-- One that tries its best keeps it, unless it loses the block or is granted a negative size. -/
theorem resize_best_iff {k : Nat} {chunk : HeapChunk} (hs : chunk.Sound) (size : Int) :
    ResizeKept a stack k chunk size true ↔
      (∀ j < stack, Grants a k chunk size j → 0 ≤ size) ∧
        ∀ j, j + 1 < stack → ¬Loses a k chunk size j := by
  have hlive := hs.not_dead
  rcases resize_cases a k size hlive stack with ⟨j, hj, h⟩ | ⟨j, hj, h⟩ | hrun
  · obtain ⟨fresh, -, hresize⟩ := h.resize hlive
    rw [resizeKept_ok (hresize stack hj),
      granted_sound_iff hs (trial_le_limit size j) Bool.noConfusion fresh, trial_nonneg_iff]
    refine ⟨fun hsize => ⟨fun _ _ _ => hsize, fun i hi hloses => ?_⟩, fun hall => hall.1 j hj h⟩
    cases (hresize stack hj).symm.trans (hloses.resize hlive hi)
  · rw [resizeKept_error (h.resize hlive hj)]
    exact iff_of_false (fun hne => hne rfl) fun hall => hall.2 j hj h
  · rw [resizeKept_error hrun]
    refine iff_of_true Trouble.noConfusion ⟨fun j hj h => ?_, fun j hj h => ?_⟩
    · obtain ⟨fresh, -, hresize⟩ := h.resize hlive
      cases hrun.symm.trans (hresize stack hj)
    · cases hrun.symm.trans (h.resize hlive hj)

/-! ### Runs -/

theorem call_resize {size : Int} {trybest : Bool} :
    (call a stack s (.resize size trybest) ≠ .error .freed ∧
      ∀ s' o, call a stack s (.resize size trybest) = .ok (s', o) →
        Leaves s (.resize size trybest) s') ↔
      ResizeKept a stack s.requests s.chunk size trybest := by
  rw [call]
  cases hrun : s.chunk.resize a stack s.requests size trybest with
  | error e =>
      rw [resizeKept_error hrun]
      constructor
      · rintro ⟨hne, -⟩ rfl
        exact hne rfl
      · intro hne
        constructor
        · intro heq
          cases heq
          exact hne rfl
        · intro s' o heq
          cases heq
  | ok r =>
      rw [resizeKept_ok hrun]
      constructor
      · rintro ⟨-, hleaves⟩
        exact (hleaves _ _ rfl).1
      · intro hsound
        refine ⟨fun heq => (by cases heq), ?_⟩
        intro s' o heq
        cases heq
        exact ⟨hsound, fun back hback => (by cases hback)⟩

theorem kept_of_sound {c : Call} {s₁ : ChunkState} {o₁ : Option ErrType}
    (hcall : call a stack s c = .ok (s₁, o₁)) (hwithin : Cells.Within s.chunk.size (s.chunk.ops c))
    (hsource : ReadsSource s c) (hleaves : Leaves s c s₁) : Kept a stack s c := by
  refine ⟨hwithin, hsource, ?_, ?_⟩
  · rw [hcall]
    exact fun heq => (by cases heq)
  · intro s' o heq
    cases hcall.symm.trans heq
    exact hleaves

/-- **One call** on a sound chunk is kept exactly when it is careful. -/
theorem kept_iff (hs : s.chunk.Sound) {c : Call} (hvalid : Valid s c) :
    Kept a stack s c ↔ Careful a stack s c := by
  cases c with
  | write data trybest =>
      refine iff_of_true (kept_of_sound rfl (write_within hs data trybest) trivial ?_) trivial
      exact ⟨write_sound hs data trybest, fun back hback => (by cases hback)⟩
  | copy src =>
      refine iff_of_true (kept_of_sound rfl (copy_within src) (copy_source src) ?_) trivial
      exact ⟨copy_sound hs src, fun back hback => (by cases hback)⟩
  | clear =>
      refine iff_of_true (kept_of_sound rfl (clear_within hs) trivial ?_) trivial
      exact ⟨clear_sound hs, fun back hback => (by cases hback)⟩
  | backoff back =>
      obtain ⟨hback, hlength⟩ := hvalid
      refine Iff.trans ⟨fun h => h.within, fun hwithin => ?_⟩
        (backoff_within_iff hs hback hlength)
      refine kept_of_sound rfl hwithin trivial ⟨backoff_sound hs hback hlength, ?_⟩
      rintro _ ⟨⟩
      exact backoff_contents hs hback hlength
  | resize size trybest =>
      have hkept : Kept a stack s (.resize size trybest) ↔
          ResizeKept a stack s.requests s.chunk size trybest := by
        rw [← call_resize]
        exact ⟨fun h => ⟨h.owned, h.leaves⟩, fun h => ⟨Cells.within_nil, trivial, h.1, h.2⟩⟩
      cases trybest with
      | false => exact hkept.trans (resize_strict_iff hs size)
      | true => exact hkept.trans (resize_best_iff hs size)

theorem Kept.after {c : Call} (h : Kept a stack s c) :
    Machine.After (step a stack) (fun s => s.chunk.Sound) s c := by
  intro s' o hstep
  rw [step] at hstep
  cases hcall : call a stack s c with
  | error e =>
      rw [hcall] at hstep
      cases hstep
  | ok r =>
      rw [hcall] at hstep
      cases hstep
      exact (h.leaves _ _ hcall).1

end Awoke.ChunkState

namespace Awoke.HeapChunk

/-- A chunk is made sound. -/
theorem create_sound {a : Allocator} {k : Nat} {id : UInt16} {size : Int} {chunk : HeapChunk}
    (h : create a k id size = some chunk) : chunk.Sound := by
  unfold create at h
  split at h
  · cases h
  rename_i hrange
  split at h
  · cases h
  split at h
  · cases h
  cases h
  rw [Buffchunk.limit] at hrange
  have hsize : sizeT size = size.toNat := by
    rw [sizeT]
    omega
  refine ⟨congrArg Block.live hsize, Int.le_refl 0, ?_⟩
  show 0 ≤ size
  omega

end Awoke.HeapChunk

namespace Awoke.ChunkState

open HeapChunk

/-- **When a chunk keeps to its block** in every call of a run: when nothing is dropped from its
front, and no resize loses its block or is granted a negative size. -/
theorem chunk_iff {a : Allocator} {k : Nat} {id : UInt16} {size : Int} {chunk : HeapChunk}
    (hcreate : create a k id size = some chunk) (stack : Nat) (calls : List Call)
    (hvalid : Machine.Meets (step a stack) Valid ⟨chunk, k + 2⟩ calls) :
    Machine.Meets (step a stack) (Kept a stack) ⟨chunk, k + 2⟩ calls ↔
      Machine.Meets (step a stack) (Careful a stack) ⟨chunk, k + 2⟩ calls := by
  have hruns : Machine.Meets (step a stack) (fun s c => Valid s c ∧ Kept a stack s c)
        ⟨chunk, k + 2⟩ calls ↔
      Machine.Meets (step a stack) (fun s c => Valid s c ∧ Careful a stack s c)
        ⟨chunk, k + 2⟩ calls :=
    Machine.meets_congr (J := fun s => s.chunk.Sound)
      (fun s c hs => and_congr_right fun hv => kept_iff hs hv)
      (fun s c hs hC => ((kept_iff hs hC.1).mpr hC.2).after) calls (create_sound hcreate)
  rw [Machine.meets_and, Machine.meets_and, and_congr_right_iff] at hruns
  exact hruns hvalid

/-! ### A byte dropped from the front -/

instance (s : ChunkState) : DecidablePred (Valid s)
  | .backoff back => inferInstanceAs (Decidable (0 ≤ back ∧ back ≤ s.chunk.length))
  | .write _ _ | .copy _ | .clear | .resize _ _ => .isTrue trivial

/-- Four bytes as they are made. -/
def madeFour : HeapChunk :=
  { id := 0, p := Cells.fill (fun _ => 0) 0 4 0, size := 4, length := 0, block := .live 4 }

theorem create_madeFour : create roomy 0 0 4 = some madeFour := rfl

/-- Two bytes written, grown to eight, and cleared. -/
theorem chunk_iff_madeFour :
    create roomy 0 0 4 = some madeFour ∧
      (Machine.Meets (step roomy 1) (Kept roomy 1) ⟨madeFour, 2⟩
          [.write [1, 2] true, .resize 8 true, .backoff 0, .clear] ↔
        Machine.Meets (step roomy 1) (Careful roomy 1) ⟨madeFour, 2⟩
          [.write [1, 2] true, .resize 8 true, .backoff 0, .clear]) :=
  ⟨create_madeFour, chunk_iff create_madeFour 1 _ (by decide)⟩

/-- **Dropping one of two bytes** from four reads the byte behind them. -/
theorem backoff_behind :
    create roomy 0 0 4 = some madeFour ∧
      Machine.Meets (step roomy 1) Valid ⟨madeFour, 2⟩ [.write [1, 2] true, .backoff 1] ∧
      ¬Machine.Meets (step roomy 1) (Kept roomy 1) ⟨madeFour, 2⟩
        [.write [1, 2] true, .backoff 1] := by
  refine ⟨create_madeFour, by decide, fun h => ?_⟩
  have hwithin := ((h.2 _ _ rfl).1).within
  revert hwithin
  decide

end Awoke.ChunkState
