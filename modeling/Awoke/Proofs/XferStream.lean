/-
When the frames of a stream are the messages that are read.

A stream is a list of frames, cut anywhere into what `recv` returns.  `Deframes` says
what a poll should do about the piece it gets: the bytes that were pending, and the
piece, are the messages it reads followed by what is pending after.

`xfer_match` answers `err_unfinished` for a frame that has only partly arrived, but
`tcp_rxpoll` leaves the buffer alone only for `err_incomplete`: the frame goes on to
`xfer_scan`, and is cleared or skipped.  And after the first of several frames in one
piece the jump to `poll_repeat` adds `c` again, so that once the last is read the poll
goes through the bytes behind them.  `WholeFrames` is what is left: every piece ends
where a frame does, and if it holds several, what lies behind them does not look like
the start of another.

A frame says how long it is, so a stream can be cut into frames in one way only
(`bytes_injective`); that is what makes the messages read those of the stream.
-/
import Awoke.Cmder.Xfer
import Awoke.Lib.Run
import Awoke.Lib.Search
import Awoke.Proofs.RxPoll

namespace Awoke.Cmder

/-! ### Frames -/

/-- A well-formed xfer frame. -/
structure IsFrame (bs : List UInt8) : Prop where
  mark : bs.getD 0 0 = xferPrefix
  length : bs.length = xferLength (bs.getD 1 0) (bs.getD 2 0) (bs.getD 3 0)
  posfix : bs.getD (bs.length - 1) 0 = xferPosfix

instance (bs : List UInt8) : Decidable (IsFrame bs) :=
  decidable_of_iff (bs.getD 0 0 = xferPrefix ∧
      bs.length = xferLength (bs.getD 1 0) (bs.getD 2 0) (bs.getD 3 0) ∧
      bs.getD (bs.length - 1) 0 = xferPosfix)
    ⟨fun h => ⟨h.1, h.2.1, h.2.2⟩, fun h => ⟨h.mark, h.length, h.posfix⟩⟩

/-- A frame, with the proof that it is one. -/
abbrev Frame := { bs : List UInt8 // IsFrame bs }

/-- The bytes of a stream of frames. -/
def bytes (fs : List Frame) : List UInt8 := (fs.map Subtype.val).flatten

@[simp] theorem bytes_nil : bytes [] = [] := rfl

@[simp] theorem bytes_cons (f : Frame) (fs : List Frame) :
    bytes (f :: fs) = f.val ++ bytes fs := rfl

@[simp] theorem bytes_append (fs gs : List Frame) : bytes (fs ++ gs) = bytes fs ++ bytes gs := by
  simp [bytes]

theorem IsFrame.ten_le {bs : List UInt8} (h : IsFrame bs) : 10 ≤ bs.length := by
  rw [h.length, xferLength]
  omega

theorem length_le_bytes (fs : List Frame) : fs.length ≤ (bytes fs).length := by
  induction fs with
  | nil => exact Nat.le_refl 0
  | cons f fs ih =>
      have hten := f.property.ten_le
      rw [bytes_cons, List.length_append, List.length_cons]
      omega

theorem frame_length_eq {f g : Frame} {xs ys : List UInt8} (h : f.val ++ xs = g.val ++ ys) :
    f.val.length = g.val.length := by
  have hhead : ∀ i, i < 4 → f.val.getD i 0 = g.val.getD i 0 := by
    intro i hi
    have hf := f.property.ten_le
    have hg := g.property.ten_le
    have heq := congrArg (fun bs : List UInt8 => bs.getD i 0) h
    simpa [List.getD_eq_getElem?_getD, List.getElem?_append, show i < f.val.length by omega,
      show i < g.val.length by omega] using heq
  rw [f.property.length, g.property.length, hhead 1 (by omega), hhead 2 (by omega),
    hhead 3 (by omega)]

/-- **A stream is cut into frames in one way only.** -/
theorem bytes_injective : Function.Injective bytes := by
  intro fs
  induction fs with
  | nil =>
      intro gs h
      cases gs with
      | nil => rfl
      | cons g gs =>
          have hg := g.property.ten_le
          have hlen := congrArg List.length h
          simp only [bytes_nil, bytes_cons, List.length_nil, List.length_append] at hlen
          omega
  | cons f fs ih =>
      intro gs h
      cases gs with
      | nil =>
          have hf := f.property.ten_le
          have hlen := congrArg List.length h
          simp only [bytes_nil, bytes_cons, List.length_nil, List.length_append] at hlen
          omega
      | cons g gs =>
          rw [bytes_cons, bytes_cons] at h
          obtain ⟨hfg, hrest⟩ := List.append_inj h (frame_length_eq h)
          rw [Subtype.ext hfg, ih hrest]

/-! ### What the protocol says about a buffer -/

/-- A frame at the front of the buffer matches. -/
theorem xferMatch_frame {p : Cells UInt8} {f : Frame} (hf : Cells.slice p 0 f.val.length = f.val)
    {len : Int} (hlen : f.val.length ≤ len) (rlen : Int) :
    xferMatch p len rlen = (.etOk, (f.val.length : Int)) := by
  have hten := f.property.ten_le
  have hcell : ∀ i : Nat, i < f.val.length → p i = f.val.getD i 0 := by
    intro i hi
    have hread := Cells.slice_eq_iff.mp hf i hi
    rw [Int.zero_add] at hread
    rw [hread, List.getD_eq_getElem?_getD, List.getElem?_eq_getElem hi, Option.getD_some]
  have hlength : (xferLength (p 1) (p 2) (p 3) : Int) = f.val.length := by
    have h1 : p 1 = f.val.getD 1 0 := hcell 1 (by omega)
    have h2 : p 2 = f.val.getD 2 0 := hcell 2 (by omega)
    have h3 : p 3 = f.val.getD 3 0 := hcell 3 (by omega)
    rw [h1, h2, h3, ← f.property.length]
  have hmark : p 0 = xferPrefix := (hcell 0 (by omega)).trans f.property.mark
  have hposfix : p (f.val.length - 1) = xferPosfix := by
    have hlast := hcell (f.val.length - 1) (by omega)
    rw [f.property.posfix] at hlast
    rw [← hlast]
    congr 1
    omega
  rw [xferMatch, if_neg (by omega), if_neg (not_not.mpr hmark)]
  simp only [hlength]
  rw [if_neg (by omega), if_neg (not_not.mpr hposfix)]

theorem xferFind_eq (p : Cells UInt8) (n : Nat) : ∀ i : Int,
    xferFind p i n = Search.first (fun x => p x = xferPrefix) i n := by
  induction n with
  | zero => intro i; rfl
  | succ n ih =>
      intro i
      rw [xferFind, Search.first, ih]

theorem xferFind_none {p : Cells UInt8} {n : Nat} {i : Int}
    (h : ∀ x, i ≤ x → x < i + n → p x ≠ xferPrefix) : xferFind p i n = none := by
  rw [xferFind_eq]
  exact Search.first_eq_none_iff.mpr h

variable {σ : Type} (read : σ → Cells UInt8 → Int → σ)

theorem examine_frame {p : Cells UInt8} {f : Frame}
    (hf : Cells.slice p 0 f.val.length = f.val) {len : Int} (hlen : f.val.length ≤ len) (env : σ)
    (rlen : Int) :
    examine [xferProtocol read] p len env rlen =
      (.matched (f.val.length : Int), read env p f.val.length, (f.val.length : Int)) := by
  have hten := f.property.ten_le
  have hne : f.val ≠ [] := List.ne_nil_of_length_pos (by omega)
  simp [examine, matchLoop, xferProtocol, xferMatch_frame hf hlen, hne]

theorem examine_noise {p : Cells UInt8} {len : Int} (hlen : 10 ≤ len)
    (hp : ∀ x, 0 ≤ x → x < len → p x ≠ xferPrefix) (env : σ) (rlen : Int) :
    examine [xferProtocol read] p len env rlen = (.none, env, len) := by
  have hmatch : xferMatch p len rlen = (.errMatch, 1) := by
    rw [xferMatch, if_neg (by omega), if_pos (hp 0 (Int.le_refl 0) (by omega))]
  have hscan : xferScan p len 1 = (.errMatch, len) := by
    rw [xferScan, xferFind_none fun x hx hxn => hp x (by omega) (by omega)]
  simp [examine, matchLoop, scanLoop, xferProtocol, hmatch, hscan]

/-! ### One poll -/

/-- `p'` is `p` moved down by `n`, as far as the buffer goes. -/
def Shifted (size : Int) (p : Cells UInt8) (n : Int) (p' : Cells UInt8) : Prop :=
  ∀ x, 0 ≤ x → x + n < size → p' x = p (x + n)

theorem Shifted.trans {size m n : Int} {p p₁ p₂ : Cells UInt8} (h : Shifted size p m p₁)
    (h' : Shifted size p₁ n p₂) (hm : 0 ≤ m) (hn : 0 ≤ n) : Shifted size p (m + n) p₂ := by
  intro x hx hsize
  rw [h' x hx (by omega), h (x + n) (by omega) (by omega), Int.add_assoc, Int.add_comm n m]

@[simp] theorem finish_idle (protos : List (Protocol σ)) (fuel : Nat) (buffer : Buffchunk)
    (env : σ) : finish protos fuel (.idle buffer env) = some ((buffer, env), []) := by
  cases fuel <;> rfl

/-- A turn on a buffer that begins with a frame, and holds more, reads the frame and
goes round again. -/
theorem pass_frame {s : Polling σ} (htcp : s.poller = .tcp) (hc : 0 < s.c) {f : Frame}
    (hf : Cells.slice s.buffer.p 0 f.val.length = f.val)
    (hlen : f.val.length ≤ s.buffer.length + s.c) :
    ∃ rest env, Shifted s.buffer.size s.buffer.p f.val.length rest.p ∧
      rest.size = s.buffer.size ∧ rest.length = s.buffer.length + s.c - f.val.length ∧
      (pass [xferProtocol read] s).2.read = some f.val ∧
      (pass [xferProtocol read] s).1 =
        if rest.length = 0 then .idle rest env else s.goto rest env f.val.length := by
  have hentered : s.entered = { s.buffer with length := s.buffer.length + s.c } := if_pos hc
  refine ⟨s.entered.backoff f.val.length, read s.env s.buffer.p f.val.length, ?_, ?_, ?_, ?_⟩
  · intro x hx hsize
    rw [hentered]
    show Cells.move s.buffer.p 0 f.val.length s.buffer.size x = _
    rw [Cells.move, if_pos (by omega), Int.sub_zero]
  · rw [hentered]
    rfl
  · rw [hentered]
    rfl
  · have hexamine := examine_frame read hf hlen s.env s.rlen
    have hslice : Cells.slice s.buffer.p 0 ((f.val.length : Int).toNat) = f.val := hf
    rw [pass, if_pos (.inl hc)]
    simp only [hentered, hexamine, htcp, if_true]
    split
    · exact ⟨congrArg some hslice, rfl⟩
    · exact ⟨congrArg some hslice, rfl⟩

/-- The frames of a piece, one turn each, as long as bytes are left after the last. -/
theorem finish_frames (fs : List Frame) : ∀ (s : Polling σ), s.poller = .tcp → 0 < s.c →
    0 ≤ s.buffer.length → (bytes fs).length ≤ s.c → (bytes fs).length ≤ s.buffer.size →
    Cells.slice s.buffer.p 0 (bytes fs).length = bytes fs →
    (fs ≠ [] → s.buffer.length + fs.length * s.c - (bytes fs).length ≠ 0) →
    ∃ s' : Polling σ, s'.poller = .tcp ∧ s'.c = s.c ∧
      Shifted s.buffer.size s.buffer.p (bytes fs).length s'.buffer.p ∧
      s'.buffer.size = s.buffer.size ∧
      s'.buffer.length = s.buffer.length + fs.length * s.c - (bytes fs).length ∧
      ∀ fuel, finish [xferProtocol read] (fuel + fs.length) (.polling s) =
        (finish [xferProtocol read] fuel (.polling s')).map fun q =>
          (q.1, fs.map Subtype.val ++ q.2) := by
  induction fs with
  | nil =>
      intro s htcp _ _ _ _ _ _
      refine ⟨s, htcp, rfl, fun x _ _ => by simp, rfl, by simp, fun fuel => ?_⟩
      simp
  | cons f fs ih =>
      intro s htcp hc hlow hle hsize hslice hleft
      have hten := f.property.ten_le
      simp only [bytes_cons, List.length_append, Int.natCast_add, List.length_cons,
        Int.natCast_one] at hle hsize hslice hleft ⊢
      have hsplit : Cells.slice s.buffer.p 0 f.val.length = f.val ∧
          Cells.slice s.buffer.p f.val.length (bytes fs).length = bytes fs := by
        rw [Cells.slice_add, Int.zero_add] at hslice
        exact List.append_inj hslice (by simp)
      obtain ⟨rest, env, hshift, hrestsize, hrestlen, hread, hpass⟩ :=
        pass_frame read htcp hc hsplit.1 (by omega)
      have hmul : ((fs.length : Int) + 1) * s.c = fs.length * s.c + s.c := by
        rw [Int.add_mul, Int.one_mul]
      -- Another frame is left, or the bytes that are left by assumption.
      have hne : rest.length ≠ 0 := by
        rcases fs with _ | ⟨g, gs⟩
        · have := hleft (by simp)
          simp only [List.length_nil, bytes_nil, Int.natCast_zero] at this hmul
          omega
        · have hg := g.property.ten_le
          simp only [bytes_cons, List.length_append, Int.natCast_add] at hle
          omega
      rw [if_neg hne] at hpass
      have hrestslice : Cells.slice rest.p 0 (bytes fs).length = bytes fs := by
        refine Eq.trans (Cells.slice_congr fun k hk => ?_) hsplit.2
        rw [hshift (0 + k) (by omega) (by omega)]
        congr 1
        omega
      obtain ⟨s', htcp', hc', hshift', hsize', hlen', hfinish⟩ :=
        ih { s with buffer := rest, env := env, rlen := f.val.length } htcp hc
          (by simp only; omega) (by simp only; omega) (by simp only; omega) hrestslice
          (by intro hfs; have := hleft (by simp); simp only; omega)
      refine ⟨s', htcp', hc', ?_, hsize'.trans hrestsize, ?_, fun fuel => ?_⟩
      · simp only [hrestsize] at hshift'
        exact hshift.trans hshift' (by omega) (by omega)
      · simp only at hlen'
        omega
      · rw [← Nat.add_assoc, finish, hpass, Polling.goto, hfinish fuel, Option.map_map]
        simp only [hread]
        rfl

/-- What `recv` returned to a call. -/
def received : Ready × Int → List UInt8
  | (.data bs, _) => bs
  | (.nothing, _) | (.accept, _) => []

/-- The piece a call receives is whole frames.  If there are several, the poll goes on
behind the last through as many bytes again for each frame; those are inside the buffer
and none of them is the first byte of a frame. -/
def WholeFrames (t : Buffchunk × σ) (call : Ready × Int) : Prop :=
  ∃ fs : List Frame, received call = bytes fs ∧
    ((fs.length ≤ 1 ∧ (received call).length ≤ t.1.size) ∨
      ((fs.length + 1) * (received call).length ≤ t.1.size ∧
        ∀ x : Int, (received call).length ≤ x → x < (fs.length + 1) * (received call).length →
          t.1.p x ≠ xferPrefix))

theorem pass_noise {s : Polling σ} (hc : 0 < s.c) (hlen : 10 ≤ s.buffer.length + s.c)
    (hp : ∀ x, 0 ≤ x → x < s.buffer.length + s.c → s.buffer.p x ≠ xferPrefix) :
    ∃ buffer env, buffer.length = 0 ∧ (pass [xferProtocol read] s).2.read = none ∧
      (pass [xferProtocol read] s).1 = .idle buffer env := by
  have hentered : s.entered = { s.buffer with length := s.buffer.length + s.c } := if_pos hc
  have hexamine := examine_noise read hlen hp s.env s.rlen
  refine ⟨s.entered.clear, s.env, rfl, ?_, ?_⟩
  · rw [pass, if_pos (.inl hc)]
    simp only [hentered, hexamine]
  · rw [pass, if_pos (.inl hc)]
    simp only [hentered, hexamine]

theorem finish_single {s : Polling σ} (htcp : s.poller = .tcp) (hc : 0 < s.c) {f : Frame}
    (hf : Cells.slice s.buffer.p 0 f.val.length = f.val)
    (hlen : s.buffer.length + s.c = f.val.length) (fuel : Nat) :
    ∃ t', finish [xferProtocol read] (fuel + 1) (.polling s) = some (t', [f.val]) ∧
      t'.1.length = 0 := by
  obtain ⟨rest, env, -, -, hrestlen, hread, hpass⟩ := pass_frame read htcp hc hf (by omega)
  have hzero : rest.length = 0 := by omega
  rw [if_pos hzero] at hpass
  exact ⟨(rest, env), by simp [finish, hpass, hread], hzero⟩

/-- Several frames in one piece, with nothing like a frame behind them. -/
theorem finish_several {s : Polling σ} (htcp : s.poller = .tcp) (hempty : s.buffer.length = 0)
    {fs : List Frame} (hmany : 2 ≤ fs.length) (hc : s.c = (bytes fs).length)
    (hfs : Cells.slice s.buffer.p 0 (bytes fs).length = bytes fs)
    (hroom : (fs.length + 1) * s.c ≤ s.buffer.size)
    (hclean : ∀ x, s.c ≤ x → x < (fs.length + 1) * s.c → s.buffer.p x ≠ xferPrefix)
    (fuel : Nat) :
    ∃ t', finish [xferProtocol read] (fuel + 1 + fs.length) (.polling s) =
        some (t', fs.map Subtype.val) ∧ t'.1.length = 0 := by
  have hle := length_le_bytes fs
  have hpos : 0 < s.c := by omega
  have htwice : 2 * s.c ≤ fs.length * s.c := Int.mul_le_mul_of_nonneg_right (by omega) (by omega)
  have hmul : ((fs.length : Int) + 1) * s.c = fs.length * s.c + s.c := by
    rw [Int.add_mul, Int.one_mul]
  have hten : 10 ≤ s.c := by
    obtain ⟨f, rest, rfl⟩ := List.exists_cons_of_length_pos (by omega : 0 < fs.length)
    have := f.property.ten_le
    rw [bytes_cons, List.length_append] at hc
    omega
  obtain ⟨s', -, hc', hshift, hsize', hlen', hfinish⟩ :=
    finish_frames read fs s htcp hpos (by omega) (by omega) (by omega) hfs (fun _ => by omega)
  obtain ⟨buffer, env, hzero, hread, hpass⟩ := pass_noise read (s := s') (by omega) (by omega)
    (fun x hx hxn => by
      rw [hshift x hx (by omega)]
      exact hclean (x + (bytes fs).length) (by omega) (by omega))
  refine ⟨(buffer, env), ?_, hzero⟩
  rw [hfinish (fuel + 1)]
  simp [finish, hpass, hread]

/-- One call on an empty buffer with whole frames reads them all. -/
theorem tcpRxpoll_frames {t : Buffchunk × σ} (hempty : t.1.length = 0) {call : Ready × Int}
    (hwhole : WholeFrames t call) {fuel : Nat} (hfuel : (received call).length < fuel) :
    ∃ t' fs, tcpRxpoll [xferProtocol read] fuel t call = some (t', fs.map Subtype.val) ∧
      received call = bytes fs ∧ t'.1.length = 0 := by
  obtain ⟨ready, rlen⟩ := call
  rcases ready with _ | _ | bs
  · exact ⟨t, [], by simp [tcpRxpoll, begin], rfl, hempty⟩
  · exact ⟨t, [], by simp [tcpRxpoll, begin], rfl, hempty⟩
  obtain ⟨fs, hbs, hclean⟩ := hwhole
  simp only [received] at hbs hclean hfuel
  have hfs : Cells.slice (Cells.write t.1.p t.1.length bs) 0 (bytes fs).length = bytes fs := by
    rw [hempty, ← hbs]
    exact Cells.slice_write_self t.1.p 0 bs
  have hle := length_le_bytes fs
  rcases fs with _ | ⟨f, _ | ⟨g, fs⟩⟩
  · obtain ⟨fuel, rfl⟩ : ∃ n, fuel = n + 1 := ⟨fuel - 1, by omega⟩
    refine ⟨({ t.1 with p := Cells.write t.1.p t.1.length bs }, t.2), [], ?_, hbs, hempty⟩
    rw [bytes_nil] at hbs
    subst hbs
    simp [tcpRxpoll, begin, receive, finish, pass, hempty]
  · obtain ⟨fuel, rfl⟩ : ∃ n, fuel = n + 1 := ⟨fuel - 1, by omega⟩
    have hten := f.property.ten_le
    rw [bytes_cons, bytes_nil, List.append_nil] at hbs hfs
    have hlen := congrArg List.length hbs
    obtain ⟨t', hfinish, hzero⟩ := finish_single read
      (s := { poller := .tcp, buffer := { t.1 with p := Cells.write t.1.p t.1.length bs },
              env := t.2, c := bs.length, rlen := rlen })
      rfl (by simp only; omega) hfs (by simp only; omega) fuel
    exact ⟨t', [f], hfinish, by rw [received, hbs]; simp, hzero⟩
  · have hlen := congrArg List.length hbs
    rw [List.length_cons, List.length_cons] at hle
    obtain ⟨hroom, hbehind⟩ := hclean.resolve_left fun h => absurd h.1 (by simp)
    obtain ⟨fuel, rfl⟩ : ∃ n, fuel = n + 1 + (f :: g :: fs).length :=
      ⟨fuel - 1 - (fs.length + 2), by rw [List.length_cons, List.length_cons]; omega⟩
    obtain ⟨t', hfinish, hzero⟩ := finish_several read
      (s := { poller := .tcp, buffer := { t.1 with p := Cells.write t.1.p t.1.length bs },
              env := t.2, c := bs.length, rlen := rlen })
      rfl hempty (by simp) (by rw [hlen]) hfs hroom
      (fun x hx hxn => by
        simp only at hx hxn ⊢
        rw [Cells.write_outside _ _ _ (.inr (by omega))]
        exact hbehind x hx hxn) fuel
    exact ⟨t', f :: g :: fs, hfinish, hbs, hzero⟩

/-! ### Every run -/

/-- What a poll should do with the piece it receives: what was pending and the piece are
the messages it reads, each of them a frame, and what is pending after. -/
def Deframes (t : List UInt8) (call : Ready × Int) (o : List (List UInt8)) (t' : List UInt8) :
    Prop :=
  t ++ received call = o.flatten ++ t' ∧ ∀ m ∈ o, IsFrame m

/-- The buffer holds the bytes that are pending. -/
def Pending (t : Buffchunk × σ) (bs : List UInt8) : Prop :=
  t.1.length = bs.length ∧ Cells.slice t.1.p 0 bs.length = bs

/-- Calls that receive whole frames read them all, and leave nothing pending. -/
theorem run_frames {fuel : Nat} : ∀ (calls : List (Ready × Int)) (t : Buffchunk × σ),
    t.1.length = 0 → (∀ call ∈ calls, (received call).length < fuel) →
    Machine.Meets (tcpRxpoll [xferProtocol read] fuel) WholeFrames t calls →
    Machine.RunRefines (tcpRxpoll [xferProtocol read] fuel) Deframes Pending t [] calls ∧
      ∃ t' outs fs, Machine.run (tcpRxpoll [xferProtocol read] fuel) t calls = some (t', outs) ∧
        outs.flatten = fs.map Subtype.val ∧ (calls.map received).flatten = bytes fs ∧
        t'.1.length = 0 := by
  intro calls
  induction calls with
  | nil =>
      intro t hempty _ _
      exact ⟨⟨hempty, rfl⟩, t, [], [], rfl, rfl, rfl, hempty⟩
  | cons call calls ih =>
      intro t hempty hfuel hmeets
      obtain ⟨t₁, fs, hpoll, hbs, hempty₁⟩ :=
        tcpRxpoll_frames read hempty hmeets.1 (hfuel call (List.mem_cons_self))
      obtain ⟨hrefines, t', outs, gs, hrun, houts, hbytes, hempty'⟩ :=
        ih t₁ hempty₁ (fun c hc => hfuel c (List.mem_cons_of_mem _ hc))
          (hmeets.2 t₁ (fs.map Subtype.val) hpoll)
      refine ⟨⟨⟨hempty, rfl⟩, t₁, fs.map Subtype.val, [], hpoll, ⟨?_, ?_⟩, hrefines⟩, ?_⟩
      · rw [List.nil_append, List.append_nil, hbs, bytes]
      · intro m hm
        obtain ⟨f, -, rfl⟩ := List.mem_map.mp hm
        exact f.property
      · refine ⟨t', fs.map Subtype.val :: outs, fs ++ gs, ?_, ?_, ?_, hempty'⟩
        · simp [Machine.run, hpoll, hrun]
        · rw [List.flatten_cons, houts, List.map_append]
        · rw [List.map_cons, List.flatten_cons, hbs, hbytes, bytes_append]

/--
**Where every piece is whole frames, the messages read are the frames of the stream.**
For any stream of frames and any calls that receive it, from an empty buffer: every
poll returns, the frames are read in order and each exactly once, no byte is lost at
any poll, and the buffer is empty at the end.
-/
theorem tcp_rxpoll_reads_frames {t : Buffchunk × σ} (hempty : t.1.length = 0)
    (frames : List Frame) {calls : List (Ready × Int)}
    (hcut : (calls.map received).flatten = bytes frames) {fuel : Nat}
    (hfuel : ∀ call ∈ calls, (received call).length < fuel)
    (hwhole : Machine.Meets (tcpRxpoll [xferProtocol read] fuel) WholeFrames t calls) :
    Machine.RunRefines (tcpRxpoll [xferProtocol read] fuel) Deframes Pending t [] calls ∧
      ∃ t' outs, Machine.run (tcpRxpoll [xferProtocol read] fuel) t calls = some (t', outs) ∧
        outs.flatten = frames.map Subtype.val ∧ t'.1.length = 0 := by
  obtain ⟨hrefines, t', outs, fs, hrun, houts, hbytes, hempty'⟩ :=
    run_frames read calls t hempty hfuel hwhole
  have hfs : fs = frames := bytes_injective (hbytes.symm.trans hcut)
  exact ⟨hrefines, t', outs, hrun, by rw [houts, hfs], hempty'⟩

/-- A poll with nothing to read, then two frames in one piece. -/
theorem tcp_rxpoll_reads_two :
    Machine.RunRefines (tcpRxpoll [xferProtocol fun _ _ _ => ()] 21) Deframes Pending
        (rxbuffer, ()) [] [(.nothing, 0), (.data (readFrame ++ readFrame), 0)] ∧
      ∃ t' outs, Machine.run (tcpRxpoll [xferProtocol fun _ _ _ => ()] 21) (rxbuffer, ())
          [(.nothing, 0), (.data (readFrame ++ readFrame), 0)] = some (t', outs) ∧
        outs.flatten = [readFrame, readFrame] ∧ t'.1.length = 0 := by
  have hframe : IsFrame readFrame := by decide
  refine tcp_rxpoll_reads_frames _ rfl [⟨readFrame, hframe⟩, ⟨readFrame, hframe⟩] rfl (by decide) ?_
  refine ⟨⟨[], rfl, .inl ⟨by decide, by decide⟩⟩, fun t' o hpoll => ?_⟩
  obtain rfl : (rxbuffer, ()) = t' := (Prod.mk.inj (Option.some.inj hpoll)).1
  refine ⟨⟨[⟨readFrame, hframe⟩, ⟨readFrame, hframe⟩], rfl, .inr ⟨?_, ?_⟩⟩, fun _ _ _ => trivial⟩
  · show (2 + 1) * (20 : Int) ≤ 2048
    decide
  · intro x _ _
    show (0 : UInt8) ≠ 0xAA
    decide

/-- A frame cut into four bytes and six.  The first piece is cleared away as no message,
the second is none either, and the frame is never read. -/
theorem tcp_rxpoll_drops_partial :
    IsFrame readFrame ∧ [0xAA, 0x01, 0, 0] ++ [0, 0, 0, 0, 0, 0xFF] = readFrame ∧
      (Machine.run (tcpRxpoll [xferProtocol fun _ _ _ => ()] 11) (rxbuffer, ())
          [(.data [0xAA, 0x01, 0, 0], 0), (.data [0, 0, 0, 0, 0, 0xFF], 0), (.nothing, 0)]).map
        (fun r => (r.2, r.1.1.length)) = some ([[], [], []], 0) := by
  decide +kernel

end Awoke.Cmder
