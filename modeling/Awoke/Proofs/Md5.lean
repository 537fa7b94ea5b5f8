/-
What `md5` makes of a message.

The message is padded to whole blocks, and the blocks are chained.  The padding ends with the length of
the message, so that no padded message is the end of another: where two messages have the same digest,
the step has done the same for two different inputs.  And what a digest keeps is all of the state, so
that it can be gone on from by someone who does not know the message.
-/
import Awoke.Lib.CellOps
import Awoke.Lib.MerkleDamgard
import Awoke.Lib.Pieces
import Awoke.Util.Md5

namespace Awoke.Md5

/-! ### What a digest is -/

/-- What is put behind a message of `n` bytes. -/
def fill (n : Nat) : List UInt8 :=
  0x80 :: (List.replicate ((119 - n % 64) % 64) (0 : UInt8) ++
    (toBytes (UInt32.ofNat (n * 8)) ++ toBytes (UInt32.ofNat (n >>> 29))))

/-- A message with its padding. -/
def padded (bytes : List UInt8) : List UInt8 := bytes ++ fill bytes.length

/-- The first `n` blocks of some bytes. -/
def blocks : Nat → List UInt8 → List (List UInt8)
  | 0, _ => []
  | n + 1, bytes => bytes.take 64 :: blocks n (bytes.drop 64)

/-- All of them. -/
def blocksOf (bytes : List UInt8) : List (List UInt8) := blocks (bytes.length / 64) bytes

/-- The step from one state to the next. -/
def compress (h : Hash) (block : List UInt8) : Hash :=
  addChunk ((List.range 16).map fun i => toInt32 fun j => block.getD (i * 4 + j) 0) h

/-- A state in bytes. -/
def Hash.bytes (h : Hash) : List UInt8 := toBytes h.a ++ toBytes h.b ++ toBytes h.c ++ toBytes h.d

/-- The state that a message leads to. -/
def hashOf (bytes : List UInt8) : Hash := (blocksOf (padded bytes)).foldl compress .init

/-- The digest of a message. -/
def digestOf (bytes : List UInt8) : List UInt8 := (hashOf bytes).bytes

/-! ### Padding -/

theorem fill_length (n : Nat) : (fill n).length = (119 - n % 64) % 64 + 9 := by
  simp [fill, toBytes]

theorem padded_length (bytes : List UInt8) :
    (padded bytes).length = bytes.length + ((119 - bytes.length % 64) % 64 + 9) := by
  rw [padded, List.length_append, fill_length]

theorem padded_length_mod (bytes : List UInt8) : (padded bytes).length % 64 = 0 := by
  rw [padded_length]
  omega

theorem newLenLoop_eq (z : Nat) : ∀ fuel n, z < fuel → n + z < 2 ^ 64 → (n + z) % 64 = 56 →
    (∀ i < z, (n + i) % 64 ≠ 56) → newLenLoop fuel n = some (n + z) := by
  induction z with
  | zero =>
      intro fuel n hfuel _ hend _
      obtain ⟨fuel, rfl⟩ := Nat.exists_eq_succ_of_ne_zero (Nat.ne_of_gt hfuel)
      exact if_neg (not_not.mpr hend)
  | succ z ih =>
      intro fuel n hfuel hlt hend hbefore
      obtain ⟨fuel, rfl⟩ := Nat.exists_eq_succ_of_ne_zero (Nat.ne_of_gt (Nat.zero_lt_of_lt hfuel))
      have hstep := ih fuel (n + 1) (by omega) (by omega) (by omega) fun i hi => by
        have h := hbefore (i + 1) (by omega)
        rw [show n + 1 + i = n + (i + 1) by omega]
        exact h
      have hmod : (n + 1) % 2 ^ 64 = n + 1 := Nat.mod_eq_of_lt (by omega)
      have hgo := hbefore 0 (by omega)
      rw [Nat.add_zero] at hgo
      refine (if_pos hgo).trans ?_
      rw [hmod, hstep, Nat.add_right_comm]
      rfl

/-! ### Memory -/

theorem write_append {α : Type*} (m : Cells α) (a : Int) (xs ys : List α) :
    Cells.write (Cells.write m a xs) (a + xs.length) ys = Cells.write m a (xs ++ ys) :=
  (congrArg Cells.Pen.mem (Cells.Pen.put_append ⟨m, a⟩ xs ys)).symm

theorem write_zeros (heap : Cells UInt8) (n : Nat) : ∀ text : List UInt8,
    (List.range' text.length n).foldl
        (fun (msg : Cells UInt8) (offset : Nat) => Function.update msg (offset : Int) 0)
        (Cells.write heap 0 text) = Cells.write heap 0 (text ++ List.replicate n 0) := by
  induction n with
  | zero => exact fun text => by rw [List.replicate_zero, List.append_nil]; rfl
  | succ n ih =>
      intro text
      have hone : Function.update (Cells.write heap 0 text) (text.length : Int) 0 =
          Cells.write heap 0 (text ++ [0]) := by
        rw [← write_append, Cells.write_one, Int.zero_add]
      have hrest := ih (text ++ [0])
      rw [List.length_append, List.length_singleton] at hrest
      rw [List.range'_succ, List.foldl_cons, hone, hrest, List.append_assoc, List.replicate_succ]
      rfl

/-- What is prepared is the padded message. -/
theorem prepared_eq (heap m : Cells UInt8) (p : Int) (n : Nat) :
    prepared heap m p n (n + 1 + (119 - n % 64) % 64) =
      Cells.write heap 0 (padded (Cells.slice m p n)) := by
  have hlen : (Cells.slice m p n).length = n := Cells.slice_length m p n
  have hmark : Function.update (Cells.write heap 0 (Cells.slice m p n)) (n : Int) 0x80 =
      Cells.write heap 0 (Cells.slice m p n ++ [0x80]) := by
    rw [← write_append, Cells.write_one, hlen, Int.zero_add]
  have hzeros := write_zeros heap ((119 - n % 64) % 64) (Cells.slice m p n ++ [0x80])
  rw [List.length_append, List.length_singleton, hlen] at hzeros
  have hcount : n + 1 + (119 - n % 64) % 64 - (n + 1) = (119 - n % 64) % 64 := by omega
  have htext : (Cells.slice m p n ++ [0x80] ++ List.replicate ((119 - n % 64) % 64) 0).length =
      n + 1 + (119 - n % 64) % 64 := by
    rw [List.length_append, List.length_append, List.length_singleton, List.length_replicate, hlen]
  have hlow := write_append heap 0
    (Cells.slice m p n ++ [0x80] ++ List.replicate ((119 - n % 64) % 64) 0)
    (toBytes (UInt32.ofNat (n * 8)))
  rw [htext, Int.zero_add] at hlow
  have hhigh := write_append heap 0
    (Cells.slice m p n ++ [0x80] ++ List.replicate ((119 - n % 64) % 64) 0 ++
      toBytes (UInt32.ofNat (n * 8))) (toBytes (UInt32.ofNat (n >>> 29)))
  rw [List.length_append, htext, Int.zero_add, Int.natCast_add] at hhigh
  dsimp only [prepared]
  rw [hmark, hcount, hzeros, hlow]
  refine hhigh.trans ?_
  rw [padded, fill, hlen]
  simp only [List.append_assoc, List.cons_append, List.nil_append]

/-- A chunk in memory is broken into words like the block it is. -/
theorem words_eq (msg : Cells UInt8) (offset : Nat) :
    words msg offset = (List.range 16).map fun i =>
      toInt32 fun j => (Cells.slice msg offset 64).getD (i * 4 + j) 0 := by
  refine List.map_congr_left fun i hi => ?_
  rw [List.mem_range] at hi
  have hbyte : ∀ j < 4, msg (offset + i * 4 + j : Nat) =
      (Cells.slice msg offset 64).getD (i * 4 + j) 0 := by
    intro j hj
    have hlt : i * 4 + j < (Cells.slice msg offset 64).length := by
      rw [Cells.slice_length]
      omega
    rw [List.getD_eq_getElem?_getD, List.getElem?_eq_getElem hlt, Option.getD_some,
      Cells.slice_getElem]
    congr 1
    omega
  dsimp only [toInt32]
  rw [hbyte 0 (by decide), hbyte 1 (by decide), hbyte 2 (by decide), hbyte 3 (by decide)]

/-- The loop chains the blocks. -/
theorem chunkLoop_eq (msg : Cells UInt8) (newLen n : Nat) : ∀ fuel offset h, n < fuel →
    offset + 64 * n = newLen + 8 → newLen + 8 < 2 ^ 64 →
      chunkLoop msg newLen fuel offset h =
        some ((blocks n (Cells.slice msg offset (64 * n))).foldl compress h) := by
  induction n with
  | zero =>
      intro fuel offset h hfuel hend _
      obtain ⟨fuel, rfl⟩ := Nat.exists_eq_succ_of_ne_zero (Nat.ne_of_gt hfuel)
      exact if_neg (by omega)
  | succ n ih =>
      intro fuel offset h hfuel hend hlt
      obtain ⟨fuel, rfl⟩ := Nat.exists_eq_succ_of_ne_zero (Nat.ne_of_gt (Nat.zero_lt_of_lt hfuel))
      have hmod : (offset + 512 / 8) % 2 ^ 64 = offset + 64 := Nat.mod_eq_of_lt (by omega)
      have htake : (Cells.slice msg offset (64 * (n + 1))).take 64 = Cells.slice msg offset 64 :=
        Cells.slice_take msg offset (by omega)
      have hdrop : (Cells.slice msg offset (64 * (n + 1))).drop 64 =
          Cells.slice msg (offset + 64 : Nat) (64 * n) := by
        rw [Cells.slice_drop msg offset (by omega), show 64 * (n + 1) - 64 = 64 * n by omega]
        rfl
      rw [chunkLoop, if_pos (by omega), hmod, ih fuel (offset + 64) _ (by omega) (by omega) hlt,
        words_eq, blocks, htake, hdrop]
      rfl

/-! ### The whole -/

theorem write_hash (m : Cells UInt8) (digest : Int) (h : Hash) :
    Cells.write (Cells.write (Cells.write (Cells.write m digest (toBytes h.a)) (digest + 4)
      (toBytes h.b)) (digest + 8) (toBytes h.c)) (digest + 12) (toBytes h.d) =
        Cells.write m digest h.bytes := by
  have hb := write_append m digest (toBytes h.a) (toBytes h.b)
  have hc := write_append m digest (toBytes h.a ++ toBytes h.b) (toBytes h.c)
  have hd := write_append m digest (toBytes h.a ++ toBytes h.b ++ toBytes h.c) (toBytes h.d)
  rw [Hash.bytes, ← hd, ← hc, ← hb]
  rfl

/-- **`md5` writes the digest of the message** to the sixteen bytes at `digest` and nothing else,
whatever was in the memory it allocates. -/
theorem md5_writes (heap m : Cells UInt8) (initialMsg : Int) {initialLen : Nat} (digest : Int)
    (hlen : initialLen < 2 ^ 64 - 72) :
    md5 heap m initialMsg initialLen digest =
      some (Cells.write m digest (digestOf (Cells.slice m initialMsg initialLen))) := by
  have hmod : (initialLen + 1) % 2 ^ 64 = initialLen + 1 := Nat.mod_eq_of_lt (by omega)
  have hloop := newLenLoop_eq ((119 - initialLen % 64) % 64) 64 (initialLen + 1) (by omega)
    (by omega) (by omega) fun i hi => by omega
  have hpadded := padded_length (Cells.slice m initialMsg initialLen)
  rw [Cells.slice_length] at hpadded
  have hchunks := chunkLoop_eq
    (Cells.write heap 0 (padded (Cells.slice m initialMsg initialLen)))
    (initialLen + 1 + (119 - initialLen % 64) % 64)
    ((padded (Cells.slice m initialMsg initialLen)).length / 64)
    ((initialLen + 1 + (119 - initialLen % 64) % 64) / 64 + 2) 0 .init
    (by omega) (by omega) (by omega)
  have hall : 64 * ((padded (Cells.slice m initialMsg initialLen)).length / 64) =
      (padded (Cells.slice m initialMsg initialLen)).length := by
    have := padded_length_mod (Cells.slice m initialMsg initialLen)
    omega
  rw [hall] at hchunks
  rw [Int.natCast_zero, Cells.slice_write_self] at hchunks
  have hhash : chunkLoop (Cells.write heap 0 (padded (Cells.slice m initialMsg initialLen)))
      (initialLen + 1 + (119 - initialLen % 64) % 64)
      ((initialLen + 1 + (119 - initialLen % 64) % 64) / 64 + 2) 0 .init =
        some (hashOf (Cells.slice m initialMsg initialLen)) := hchunks
  dsimp only [md5]
  rw [hmod, hloop]
  simp only [Option.bind_eq_bind, Option.bind_some]
  rw [prepared_eq, hhash]
  simp only [Option.bind_some]
  exact congrArg some (write_hash m digest _)

theorem digest_read {heap m out : Cells UInt8} {p q : Int} {n : Nat}
    (h : md5 heap m p n q = some out) (hn : n < 2 ^ 64 - 72) :
    Cells.slice out q 16 = digestOf (Cells.slice m p n) := by
  rw [md5_writes heap m p q hn, Option.some.injEq] at h
  rw [← h]
  exact Cells.slice_write_self m q (digestOf (Cells.slice m p n))

/-! ### Collisions -/

theorem blocks_flatten (n : Nat) : ∀ bytes : List UInt8, bytes.length = 64 * n →
    (blocks n bytes).flatten = bytes := by
  induction n with
  | zero => exact fun bytes h => (List.length_eq_zero_iff.mp h).symm
  | succ n ih =>
      intro bytes h
      rw [blocks, List.flatten_cons, ih _ (by rw [List.length_drop]; omega),
        List.take_append_drop]

theorem blocksOf_flatten (bytes : List UInt8) (h : bytes.length % 64 = 0) :
    (blocksOf bytes).flatten = bytes := blocks_flatten _ bytes (by omega)

theorem toBytes_inj {x y : UInt32} (h : toBytes x = toBytes y) : x = y := by
  simp only [toBytes, List.cons.injEq, and_true] at h
  obtain ⟨h0, h1, h2, h3⟩ := h
  rw [← UInt8.toNat_inj] at h0 h1 h2 h3
  simp only [UInt32.toNat_toUInt8, UInt32.toNat_shiftRight, Nat.shiftRight_eq_div_pow,
    UInt32.reduceToNat, Nat.reduceMod, Nat.reducePow] at h0 h1 h2 h3
  have hx := x.toNat_lt
  have hy := y.toNat_lt
  rw [← UInt32.toNat_inj]
  omega

theorem toBytes_length (x : UInt32) : (toBytes x).length = 4 := rfl

theorem Hash.bytes_inj {h h' : Hash} (heq : h.bytes = h'.bytes) : h = h' := by
  obtain ⟨heq, hd⟩ := List.append_inj' heq rfl
  obtain ⟨heq, hc⟩ := List.append_inj' heq rfl
  obtain ⟨ha, hb⟩ := List.append_inj' heq rfl
  cases h
  cases h'
  rw [Hash.mk.injEq]
  exact ⟨toBytes_inj ha, toBytes_inj hb, toBytes_inj hc, toBytes_inj hd⟩

/-- The length can be read off the end of the padding, unless it is too large for it. -/
theorem fill_inj {n n' : Nat} (hn : n < 2 ^ 61) (hn' : n' < 2 ^ 61)
    (h : toBytes (UInt32.ofNat (n * 8)) ++ toBytes (UInt32.ofNat (n >>> 29)) =
      toBytes (UInt32.ofNat (n' * 8)) ++ toBytes (UInt32.ofNat (n' >>> 29))) : n = n' := by
  obtain ⟨hlow, hhigh⟩ := List.append_inj' h rfl
  have hlow := toBytes_inj hlow
  have hhigh := toBytes_inj hhigh
  rw [← UInt32.toNat_inj, UInt32.toNat_ofNat', UInt32.toNat_ofNat'] at hlow hhigh
  rw [Nat.shiftRight_eq_div_pow, Nat.shiftRight_eq_div_pow] at hhigh
  omega

/-- Where one padded message is the end of another, they are the same. -/
theorem padded_suffix {bytes bytes' : List UInt8} (hn : bytes.length < 2 ^ 61)
    (hn' : bytes'.length < 2 ^ 61) (h : padded bytes <:+ padded bytes') : bytes = bytes' := by
  obtain ⟨front, hfront⟩ := h
  have hend : ∀ xs : List UInt8, padded xs = (xs ++ 0x80 ::
      List.replicate ((119 - xs.length % 64) % 64) (0 : UInt8)) ++
        (toBytes (UInt32.ofNat (xs.length * 8)) ++ toBytes (UInt32.ofNat (xs.length >>> 29))) := by
    intro xs
    rw [padded, fill, List.append_assoc, List.cons_append]
  have hfront' := hfront
  rw [hend bytes, hend bytes', ← List.append_assoc] at hfront'
  have hlength := fill_inj hn hn' (List.append_inj' hfront' rfl).2
  have hall := congrArg List.length hfront
  rw [List.length_append, padded_length, padded_length, hlength] at hall
  have hnil : front = [] := List.length_eq_zero_iff.mp (by omega)
  rw [hnil, List.nil_append] at hfront
  exact (List.append_inj hfront hlength).1

theorem digest_collides {bytes bytes' : List UInt8} (hn : bytes.length < 2 ^ 61)
    (hn' : bytes'.length < 2 ^ 61) (hne : bytes ≠ bytes') (h : digestOf bytes = digestOf bytes') :
    MerkleDamgard.Collide compress
      (MerkleDamgard.inputs compress .init (blocksOf (padded bytes)))
      (MerkleDamgard.inputs compress .init (blocksOf (padded bytes'))) := by
  have hflat : ∀ xs : List UInt8, (blocksOf (padded xs)).flatten = padded xs := fun xs =>
    blocksOf_flatten _ (padded_length_mod xs)
  refine MerkleDamgard.collide_of_ne
    (P := fun bs => ∃ xs : List UInt8, xs.length < 2 ^ 61 ∧ bs = blocksOf (padded xs))
    ?_ ⟨bytes, hn, rfl⟩ ⟨bytes', hn', rfl⟩ ?_ (Hash.bytes_inj h)
  · rintro bs bs' ⟨xs, hxs, rfl⟩ ⟨xs', hxs', rfl⟩ ⟨front, hfront⟩
    have hsuffix : padded xs <:+ padded xs' := by
      refine ⟨front.flatten, ?_⟩
      rw [← hflat xs, ← hflat xs', ← hfront, List.flatten_append]
    rw [padded_suffix hxs hxs' hsuffix]
  · intro heq
    refine hne (padded_suffix hn hn' ?_)
    rw [← hflat bytes, heq, hflat]

/-- **Two messages with the same digest collide in the step.**  If they are different and shorter than
2^61 bytes, the step does the same for two different inputs, one met on the way through each of them. -/
theorem md5_collides {heap heap' m m' out out' : Cells UInt8} {p p' q q' : Int} {n n' : Nat}
    (hn : n < 2 ^ 61) (hn' : n' < 2 ^ 61) (hout : md5 heap m p n q = some out)
    (hout' : md5 heap' m' p' n' q' = some out') (hne : Cells.slice m p n ≠ Cells.slice m' p' n')
    (h : Cells.slice out q 16 = Cells.slice out' q' 16) :
    MerkleDamgard.Collide compress
      (MerkleDamgard.inputs compress .init (blocksOf (padded (Cells.slice m p n))))
      (MerkleDamgard.inputs compress .init (blocksOf (padded (Cells.slice m' p' n')))) := by
  have hdigest := digest_read hout (by omega)
  have hdigest' := digest_read hout' (by omega)
  rw [hdigest, hdigest'] at h
  exact digest_collides (by rw [Cells.slice_length]; exact hn) (by rw [Cells.slice_length]; exact hn')
    hne h

/-- A message of two blocks. -/
def first : List UInt8 :=
  [
    0xd1, 0x31, 0xdd, 0x02, 0xc5, 0xe6, 0xee, 0xc4, 0x69, 0x3d, 0x9a, 0x06, 0x98, 0xaf, 0xf9, 0x5c,
    0x2f, 0xca, 0xb5, 0x87, 0x12, 0x46, 0x7e, 0xab, 0x40, 0x04, 0x58, 0x3e, 0xb8, 0xfb, 0x7f, 0x89,
    0x55, 0xad, 0x34, 0x06, 0x09, 0xf4, 0xb3, 0x02, 0x83, 0xe4, 0x88, 0x83, 0x25, 0x71, 0x41, 0x5a,
    0x08, 0x51, 0x25, 0xe8, 0xf7, 0xcd, 0xc9, 0x9f, 0xd9, 0x1d, 0xbd, 0xf2, 0x80, 0x37, 0x3c, 0x5b,
    0xd8, 0x82, 0x3e, 0x31, 0x56, 0x34, 0x8f, 0x5b, 0xae, 0x6d, 0xac, 0xd4, 0x36, 0xc9, 0x19, 0xc6,
    0xdd, 0x53, 0xe2, 0xb4, 0x87, 0xda, 0x03, 0xfd, 0x02, 0x39, 0x63, 0x06, 0xd2, 0x48, 0xcd, 0xa0,
    0xe9, 0x9f, 0x33, 0x42, 0x0f, 0x57, 0x7e, 0xe8, 0xce, 0x54, 0xb6, 0x70, 0x80, 0xa8, 0x0d, 0x1e,
    0xc6, 0x98, 0x21, 0xbc, 0xb6, 0xa8, 0x83, 0x93, 0x96, 0xf9, 0x65, 0x2b, 0x6f, 0xf7, 0x2a, 0x70]

/-- Another one, which is not the same in six bytes. -/
def second : List UInt8 :=
  [
    0xd1, 0x31, 0xdd, 0x02, 0xc5, 0xe6, 0xee, 0xc4, 0x69, 0x3d, 0x9a, 0x06, 0x98, 0xaf, 0xf9, 0x5c,
    0x2f, 0xca, 0xb5, 0x07, 0x12, 0x46, 0x7e, 0xab, 0x40, 0x04, 0x58, 0x3e, 0xb8, 0xfb, 0x7f, 0x89,
    0x55, 0xad, 0x34, 0x06, 0x09, 0xf4, 0xb3, 0x02, 0x83, 0xe4, 0x88, 0x83, 0x25, 0xf1, 0x41, 0x5a,
    0x08, 0x51, 0x25, 0xe8, 0xf7, 0xcd, 0xc9, 0x9f, 0xd9, 0x1d, 0xbd, 0x72, 0x80, 0x37, 0x3c, 0x5b,
    0xd8, 0x82, 0x3e, 0x31, 0x56, 0x34, 0x8f, 0x5b, 0xae, 0x6d, 0xac, 0xd4, 0x36, 0xc9, 0x19, 0xc6,
    0xdd, 0x53, 0xe2, 0x34, 0x87, 0xda, 0x03, 0xfd, 0x02, 0x39, 0x63, 0x06, 0xd2, 0x48, 0xcd, 0xa0,
    0xe9, 0x9f, 0x33, 0x42, 0x0f, 0x57, 0x7e, 0xe8, 0xce, 0x54, 0xb6, 0x70, 0x80, 0x28, 0x0d, 0x1e,
    0xc6, 0x98, 0x21, 0xbc, 0xb6, 0xa8, 0x83, 0x93, 0x96, 0xf9, 0x65, 0xab, 0x6f, 0xf7, 0x2a, 0x70]

theorem digest_first : digestOf first = digestOf second := by decide +kernel

theorem md5_collides_two :
    MerkleDamgard.Collide compress
      (MerkleDamgard.inputs compress .init (blocksOf (padded first)))
      (MerkleDamgard.inputs compress .init (blocksOf (padded second))) := by
  have hfirst : Cells.slice (Cells.write (fun _ => 0) 0 first) 0 128 = first :=
    Cells.slice_write_self _ 0 first
  have hsecond : Cells.slice (Cells.write (fun _ => 0) 0 second) 0 128 = second :=
    Cells.slice_write_self _ 0 second
  have hout := md5_writes (fun _ => 0) (Cells.write (fun _ => 0) 0 first) 0 200
    (show 128 < 2 ^ 64 - 72 by decide)
  have hout' := md5_writes (fun _ => 0) (Cells.write (fun _ => 0) 0 second) 0 200
    (show 128 < 2 ^ 64 - 72 by decide)
  rw [hfirst] at hout
  rw [hsecond] at hout'
  have hread := digest_read hout (by decide)
  have hread' := digest_read hout' (by decide)
  rw [hfirst] at hread
  rw [hsecond] at hread'
  have hcollide := md5_collides (by decide) (by decide) hout hout'
    (by rw [hfirst, hsecond]; decide) (by rw [hread, hread', digest_first])
  rw [hfirst, hsecond] at hcollide
  exact hcollide

/-! ### Going on from a digest -/

theorem or_shift {a b i : Nat} (h : a < 2 ^ i) : a ||| b * 2 ^ i = a + b * 2 ^ i := by
  rw [Nat.or_comm, Nat.mul_comm, ← Nat.two_pow_add_eq_or_of_lt h, Nat.add_comm]

theorem toInt32_toNat (bytes : Nat → UInt8) :
    (toInt32 bytes).toNat = (bytes 0).toNat + (bytes 1).toNat * 2 ^ 8 + (bytes 2).toNat * 2 ^ 16 +
      (bytes 3).toNat * 2 ^ 24 := by
  have h0 := (bytes 0).toNat_lt
  have h1 := (bytes 1).toNat_lt
  have h2 := (bytes 2).toNat_lt
  have h3 := (bytes 3).toNat_lt
  have hmod : ∀ i : Nat, ∀ b : UInt8, i ≤ 24 → b.toNat * 2 ^ i % 2 ^ 32 = b.toNat * 2 ^ i := by
    intro i b hi
    refine Nat.mod_eq_of_lt ?_
    have hpow : 2 ^ i ≤ 2 ^ 24 := Nat.pow_le_pow_right (by decide) hi
    calc b.toNat * 2 ^ i ≤ b.toNat * 2 ^ 24 := Nat.mul_le_mul_left _ hpow
      _ < 2 ^ 8 * 2 ^ 24 := Nat.mul_lt_mul_of_pos_right b.toNat_lt (by decide)
      _ = 2 ^ 32 := by decide
  simp only [toInt32, UInt32.toNat_or, UInt32.toNat_shiftLeft, UInt8.toNat_toUInt32,
    Nat.shiftLeft_eq, UInt32.reduceToNat, Nat.reduceMod]
  have h01 : (bytes 0).toNat + (bytes 1).toNat * 2 ^ 8 < 2 ^ 16 := by omega
  have h012 : (bytes 0).toNat + (bytes 1).toNat * 2 ^ 8 + (bytes 2).toNat * 2 ^ 16 < 2 ^ 24 := by
    omega
  rw [hmod 8 _ (by decide), hmod 16 _ (by decide), hmod 24 _ (by decide), or_shift h0,
    or_shift h01, or_shift h012]

theorem toInt32_toBytes (x : UInt32) : toInt32 (fun j => (toBytes x).getD j 0) = x := by
  have hx := x.toNat_lt
  rw [← UInt32.toNat_inj, toInt32_toNat]
  show x.toUInt8.toNat + (x >>> 8).toUInt8.toNat * 2 ^ 8 + (x >>> 16).toUInt8.toNat * 2 ^ 16 +
    (x >>> 24).toUInt8.toNat * 2 ^ 24 = x.toNat
  simp only [UInt32.toNat_toUInt8, UInt32.toNat_shiftRight, Nat.shiftRight_eq_div_pow,
    UInt32.reduceToNat, Nat.reduceMod, Nat.reducePow]
  omega

/-- The state that a digest was. -/
def hashFrom (digest : List UInt8) : Hash where
  a := toInt32 fun j => (digest.take 4).getD j 0
  b := toInt32 fun j => ((digest.drop 4).take 4).getD j 0
  c := toInt32 fun j => ((digest.drop 8).take 4).getD j 0
  d := toInt32 fun j => ((digest.drop 12).take 4).getD j 0

theorem hashFrom_bytes (h : Hash) : hashFrom h.bytes = h := by
  obtain ⟨a, b, c, d⟩ := h
  have hread : hashFrom (Hash.bytes ⟨a, b, c, d⟩) =
      ⟨toInt32 fun j => (toBytes a).getD j 0, toInt32 fun j => (toBytes b).getD j 0,
        toInt32 fun j => (toBytes c).getD j 0, toInt32 fun j => (toBytes d).getD j 0⟩ := rfl
  rw [hread, toInt32_toBytes, toInt32_toBytes, toInt32_toBytes, toInt32_toBytes]

/-- What is made of the digest of a message of `n` bytes, without the message, when `more` follows its
padding. -/
def resumed (digest : List UInt8) (n : Nat) (more : List UInt8) : List UInt8 :=
  ((blocksOf (more ++ fill (n + (fill n).length + more.length))).foldl compress
    (hashFrom digest)).bytes

theorem blocks_append (n k : Nat) : ∀ bytes more : List UInt8, bytes.length = 64 * n →
    blocks (n + k) (bytes ++ more) = blocks n bytes ++ blocks k more := by
  induction n with
  | zero =>
      intro bytes more h
      rw [List.length_eq_zero_iff.mp h, Nat.zero_add]
      rfl
  | succ n ih =>
      intro bytes more h
      rw [Nat.add_right_comm, blocks, blocks, List.take_append_of_le_length (by omega),
        List.drop_append_of_le_length (by omega), ih _ _ (by rw [List.length_drop]; omega)]
      rfl

theorem digest_extends (bytes more : List UInt8) :
    digestOf (padded bytes ++ more) = resumed (digestOf bytes) bytes.length more := by
  have hmod := padded_length_mod bytes
  have hlength : (padded bytes).length = bytes.length + (fill bytes.length).length :=
    List.length_append
  have htext : padded (padded bytes ++ more) = padded bytes ++
      (more ++ fill (bytes.length + (fill bytes.length).length + more.length)) := by
    rw [padded, List.length_append, hlength, List.append_assoc]
  have hcount : ∀ rest : List UInt8, (padded bytes ++ rest).length / 64 =
      (padded bytes).length / 64 + rest.length / 64 := by
    intro rest
    rw [List.length_append]
    omega
  have hblocks : blocksOf (padded (padded bytes ++ more)) = blocksOf (padded bytes) ++
      blocksOf (more ++ fill (bytes.length + (fill bytes.length).length + more.length)) := by
    rw [htext, blocksOf, hcount, blocks_append _ _ _ _ (by omega)]
    rfl
  rw [digestOf, hashOf, hblocks, List.foldl_append, resumed, digestOf, hashFrom_bytes]
  rfl

/-- **Whoever has a digest can go on from it.**  The digest of a message with its padding and anything
behind that is made of the digest of the message and its length alone, whatever the message is. -/
theorem md5_extends {heap heap' m m' out : Cells UInt8} {p p' q : Int} (q' : Int) {n : Nat}
    {more : List UInt8} (hn : n + (fill n).length + more.length < 2 ^ 64 - 72)
    (hout : md5 heap m p n q = some out)
    (htext : Cells.slice m' p' (n + (fill n).length + more.length) =
      Cells.slice m p n ++ fill n ++ more) :
    md5 heap' m' p' (n + (fill n).length + more.length) q' =
      some (Cells.write m' q' (resumed (Cells.slice out q 16) n more)) := by
  have hfill : fill (Cells.slice m p n).length = fill n := by rw [Cells.slice_length]
  have hextends := digest_extends (Cells.slice m p n) more
  rw [padded, hfill, Cells.slice_length] at hextends
  rw [md5_writes heap' m' p' q' hn, htext, hextends, digest_read hout (by omega)]

/-- One byte, and one more behind its padding. -/
theorem md5_extends_one :
    ∃ out, md5 (fun _ => 0) (Cells.write (fun _ => 0) 0 [97]) 0 1 100 = some out ∧
      md5 (fun _ => 0) (Cells.write (fun _ => 0) 0 ([97] ++ fill 1 ++ [98])) 0 65 200 =
        some (Cells.write (Cells.write (fun _ => 0) 0 ([97] ++ fill 1 ++ [98])) 200
          (resumed (Cells.slice out 100 16) 1 [98])) := by
  have hout := md5_writes (fun _ => 0) (Cells.write (fun _ => 0) 0 [97]) 0 100
    (show 1 < 2 ^ 64 - 72 by decide)
  have hone : Cells.slice (Cells.write (fun _ => 0) 0 [97]) 0 1 = [(97 : UInt8)] :=
    Cells.slice_write_self _ 0 [97]
  have htext : Cells.slice (Cells.write (fun _ => 0) 0 ([97] ++ fill 1 ++ [98])) 0
      (1 + (fill 1).length + [(98 : UInt8)].length) =
        Cells.slice (Cells.write (fun _ => 0) 0 [97]) 0 1 ++ fill 1 ++ [98] := by
    rw [hone]
    exact Cells.slice_write_self _ 0 ([97] ++ fill 1 ++ [98])
  exact ⟨_, hout, md5_extends 200 (by decide) hout htext⟩

end Awoke.Md5
