/-
What registering an event and deleting one do to each descriptor.

Only the descriptor of the call, and those that have the same event, can go wrong: for the
others an invariant of a single descriptor is carried over (`added_other`, `deleted_other`).
Registering needs it of the other descriptors alone, so that it can follow a deletion.
-/
import Awoke.Event.Registry

namespace Awoke.Libevent

variable {ι : Type} [DecidableEq ι]

/-! ### Descriptors -/

theorem fdIndex_eq_some {fd : Int} {k : Fin fdSetsize} : fdIndex fd = some k ↔ (k : Int) = fd := by
  rw [fdIndex]
  split
  case isTrue h =>
    rw [Option.some_inj, Fin.ext_iff]
    change fd.toNat = (k : Nat) ↔ _
    omega
  case isFalse h =>
    refine iff_of_false (fun hnone => Option.some_ne_none k hnone.symm) fun hk => h ?_
    have := k.isLt
    omega

theorem fdIndex_of_range {fd : Int} (h : 0 ≤ fd ∧ fd < fdSetsize) :
    ∃ k : Fin fdSetsize, (k : Int) = fd :=
  ⟨⟨fd.toNat, by omega⟩, Int.toNat_of_nonneg h.1⟩

theorem fdIndex_eq_none {fd : Int} (h : ¬(0 ≤ fd ∧ fd < fdSetsize)) : fdIndex fd = none := dif_neg h

theorem setUnder_other {mask flag : BitVec 32} {j k : Fin fdSetsize} (h : k ≠ j) (b : Bool)
    (set : Fin fdSetsize → Bool) : setUnder mask flag j b set k = set k := by
  rw [setUnder]
  split
  · exact Function.update_of_ne h _ _
  · rfl

theorem setUnder_self (mask flag : BitVec 32) (k : Fin fdSetsize) (b : Bool)
    (set : Fin fdSetsize → Bool) :
    setUnder mask flag k b set k = if maskExst mask flag then b else set k := by
  rw [setUnder]
  split
  · exact Function.update_self _ _ _
  · rfl

theorem setUnder_true (mask flag : BitVec 32) (k : Fin fdSetsize) (set : Fin fdSetsize → Bool) :
    setUnder mask flag k true set k = (maskExst mask flag || set k) := by
  rw [setUnder_self]
  cases maskExst mask flag <;> rfl

theorem setUnder_false (mask flag : BitVec 32) (k : Fin fdSetsize) (set : Fin fdSetsize → Bool) :
    setUnder mask flag k false set k = (!maskExst mask flag && set k) := by
  rw [setUnder_self]
  cases maskExst mask flag <;> rfl

theorem maskExst_empty (flag : BitVec 32) : maskExst eventEmpty flag = true ↔ False := by
  have hand : eventEmpty &&& flag = 0 := BitVec.zero_and
  rw [maskExst, hand, bne_self_eq_false]
  exact iff_of_false Bool.false_ne_true id

/-! ### One descriptor -/

omit [DecidableEq ι] in
theorem agrees_some {ctx : EventCtx ι} {k : Fin fdSetsize} {e : ι} (h : ctx.events k = some e)
    (flag : BitVec 32) (set : Fin fdSetsize → Bool) :
    Agrees ctx flag set k ↔ set k = maskExst (ctx.mem e).mask flag := by
  have hmask : (∃ e', ctx.events k = some e' ∧ maskExst (ctx.mem e').mask flag = true) ↔
      maskExst (ctx.mem e).mask flag = true := by
    refine ⟨fun ⟨e', he, hmask⟩ => ?_, fun hmask => ⟨e, h, hmask⟩⟩
    rw [Option.some_inj.mp (h.symm.trans he)]
    exact hmask
  rw [Agrees, hmask, ← Bool.eq_iff_iff]

omit [DecidableEq ι] in
theorem agrees_none {ctx : EventCtx ι} {k : Fin fdSetsize} (h : ctx.events k = none)
    (flag : BitVec 32) (set : Fin fdSetsize → Bool) : Agrees ctx flag set k ↔ set k = false := by
  have hmask : (∃ e', ctx.events k = some e' ∧ maskExst (ctx.mem e').mask flag = true) ↔ False :=
    iff_of_false (fun ⟨e', he, _⟩ => Option.some_ne_none e' (he.symm.trans h)) id
  rw [Agrees, hmask, iff_false, Bool.not_eq_true]

omit [DecidableEq ι] in
/-- The registry is right where an event is registered. -/
theorem holdsAt_some {ctx : EventCtx ι} {reg : Registry ι} {k : Fin fdSetsize} {e : ι}
    (h : ctx.events k = some e) : HoldsAt ctx reg k ↔ reg k = some e ∧
      ctx.rfds k = maskExst (ctx.mem e).mask eventRead ∧
      ctx.wfds k = maskExst (ctx.mem e).mask eventWrite ∧
      ((ctx.mem e).mask ≠ eventEmpty → (k : Int) ≤ ctx.maxFd) := by
  constructor
  · rintro ⟨htable, hread, hwrite, hmax⟩
    exact ⟨htable.symm.trans h, (agrees_some h _ _).mp hread, (agrees_some h _ _).mp hwrite,
      hmax e h⟩
  · rintro ⟨htable, hread, hwrite, hmax⟩
    refine ⟨h.trans htable.symm, (agrees_some h _ _).mpr hread, (agrees_some h _ _).mpr hwrite,
      fun e' he' => ?_⟩
    rw [Option.some_inj.mp (he'.symm.trans h)]
    exact hmax

omit [DecidableEq ι] in
theorem holdsAt_none {ctx : EventCtx ι} {reg : Registry ι} {k : Fin fdSetsize}
    (h : ctx.events k = none) :
    HoldsAt ctx reg k ↔ reg k = none ∧ ctx.rfds k = false ∧ ctx.wfds k = false := by
  constructor
  · rintro ⟨htable, hread, hwrite, -⟩
    exact ⟨htable.symm.trans h, (agrees_none h _ _).mp hread, (agrees_none h _ _).mp hwrite⟩
  · rintro ⟨htable, hread, hwrite⟩
    refine ⟨h.trans htable.symm, (agrees_none h _ _).mpr hread, (agrees_none h _ _).mpr hwrite,
      fun e' he' => ?_⟩
    exact absurd (he'.symm.trans h) (Option.some_ne_none e')

/-! ### Registering -/

/-- The loop with an event registered. -/
def EventCtx.added (ctx : EventCtx ι) (k : Fin fdSetsize) (type : Int) (mask : BitVec 32)
    (event : ι) : EventCtx ι where
  maxFd := if (k : Int) > ctx.maxFd then (k : Int) else ctx.maxFd
  rfds := setUnder mask eventRead k true ctx.rfds
  wfds := setUnder mask eventWrite k true ctx.wfds
  events := Function.update ctx.events k (some event)
  mem := Function.update ctx.mem event
    { fd := (k : Int), type := type, mask := mask, status := eventRegistered }

theorem awokeEventAdd_eq (ctx : EventCtx ι) (k : Fin fdSetsize) (type : Int) (mask : BitVec 32)
    (event : ι) :
    awokeEventAdd ctx k type mask (some event) = some (ctx.added k type mask event, .etOk) := by
  have hle : ¬((k : Int) > fdSetsize) := not_lt.mpr (Int.ofNat_le.mpr k.isLt.le)
  rw [awokeEventAdd, if_neg hle, fdIndex_eq_some.mpr rfl]
  rfl

theorem added_maxFd (ctx : EventCtx ι) (k : Fin fdSetsize) (type : Int) (mask : BitVec 32)
    (event : ι) : (ctx.added k type mask event).maxFd = max (k : Int) ctx.maxFd := by
  change (if (k : Int) > ctx.maxFd then (k : Int) else ctx.maxFd) = _
  split
  · omega
  · omega

theorem added_mem (ctx : EventCtx ι) (k : Fin fdSetsize) (type : Int) (mask : BitVec 32)
    (event : ι) : ((ctx.added k type mask event).mem event).mask = mask := by
  change (Function.update ctx.mem event _ event).mask = mask
  rw [Function.update_self]

section

variable {ctx : EventCtx ι} {reg : Registry ι} {j k : Fin fdSetsize} {type : Int}
  {mask : BitVec 32} {event : ι}

theorem added_self : HoldsAt (ctx.added k type mask event) (Function.update reg k (some event)) k ↔
    (ctx.rfds k = true → maskExst mask eventRead = true) ∧
    (ctx.wfds k = true → maskExst mask eventWrite = true) := by
  have htable : (ctx.added k type mask event).events k = some event := Function.update_self _ _ _
  rw [holdsAt_some htable, added_mem, Function.update_self, added_maxFd]
  have hread : (ctx.added k type mask event).rfds k = (maskExst mask eventRead || ctx.rfds k) :=
    setUnder_true _ _ _ _
  have hwrite : (ctx.added k type mask event).wfds k = (maskExst mask eventWrite || ctx.wfds k) :=
    setUnder_true _ _ _ _
  rw [hread, hwrite, Bool.or_eq_left_iff_imp, Bool.or_eq_left_iff_imp]
  exact ⟨fun h => ⟨h.2.1, h.2.2.1⟩, fun h => ⟨rfl, h.1, h.2, fun _ => le_max_left _ _⟩⟩

/-- Elsewhere only its own mask has changed. -/
theorem added_other (hjk : j ≠ k) (h : HoldsAt ctx reg j) :
    HoldsAt (ctx.added k type mask event) (Function.update reg k (some event)) j ↔
      (ctx.events j = some event →
        maskExst mask eventRead = maskExst (ctx.mem event).mask eventRead ∧
        maskExst mask eventWrite = maskExst (ctx.mem event).mask eventWrite ∧
        (mask ≠ eventEmpty → (j : Int) ≤ max (k : Int) ctx.maxFd)) := by
  have htable : (ctx.added k type mask event).events j = ctx.events j :=
    Function.update_of_ne hjk _ _
  have hread : (ctx.added k type mask event).rfds j = ctx.rfds j := setUnder_other hjk _ _
  have hwrite : (ctx.added k type mask event).wfds j = ctx.wfds j := setUnder_other hjk _ _
  cases hj : ctx.events j with
  | none =>
      rw [holdsAt_none (htable.trans hj), Function.update_of_ne hjk, hread, hwrite,
        ← holdsAt_none hj]
      exact iff_of_true h fun hnone => absurd hnone.symm (Option.some_ne_none event)
  | some e =>
      rw [holdsAt_some (htable.trans hj), Function.update_of_ne hjk, hread, hwrite, added_maxFd]
      obtain ⟨hreg, hrfds, hwfds, hmax⟩ := (holdsAt_some hj).mp h
      rw [hrfds, hwfds, Option.some_inj]
      by_cases he : e = event
      · subst he
        rw [added_mem]
        exact ⟨fun hnew _ => ⟨hnew.2.1.symm, hnew.2.2.1.symm, hnew.2.2.2⟩,
          fun hnew => ⟨hreg, (hnew rfl).1.symm, (hnew rfl).2.1.symm, (hnew rfl).2.2⟩⟩
      · have hmem : (ctx.added k type mask event).mem e = ctx.mem e :=
          Function.update_of_ne he _ _
        rw [hmem]
        exact iff_of_true
          ⟨hreg, rfl, rfl, fun hne => le_trans (hmax hne) (le_max_right _ _)⟩
          fun heq => absurd heq he

/-- **When a registration leaves the registry right**, where it was for all other descriptors. -/
theorem added_iff (hoff : ∀ j, j ≠ k → HoldsAt ctx reg j) (hbound : ctx.maxFd < fdSetsize) :
    Holds (ctx.added k type mask event) (Function.update reg k (some event)) ↔
      AddSafe ctx k eventEmpty mask event := by
  have hnat : ∀ j : Fin fdSetsize, (j : Int) = (k : Int) ↔ j = k := fun j => by omega
  constructor
  · rintro ⟨hat, -⟩
    refine ⟨⟨Int.natCast_nonneg _, Int.ofNat_lt.mpr k.isLt⟩, fun j hj => ?_, fun j hj => ?_⟩
    · rw [(hnat j).mp hj, maskExst_empty, maskExst_empty, false_or, false_or]
      exact added_self.mp (hat k)
    · have hjk : j ≠ k := fun hjk => hj ((hnat j).mpr hjk)
      exact (added_other hjk (hoff j hjk)).mp (hat j)
  · rintro ⟨-, hslot, hothers⟩
    refine ⟨fun j => ?_, ?_⟩
    · by_cases hjk : j = k
      · subst hjk
        have hbits := hslot j rfl
        rw [maskExst_empty, maskExst_empty, false_or, false_or] at hbits
        exact added_self.mpr hbits
      · exact (added_other hjk (hoff j hjk)).mpr (hothers j (mt (hnat j).mp hjk))
    · rw [added_maxFd]
      exact max_lt (Int.ofNat_lt.mpr k.isLt) hbound

end

/-! ### Deleting -/

/-- The loop with an event deleted. -/
def EventCtx.deleted (ctx : EventCtx ι) (k : Fin fdSetsize) (event : ι) (maxFd : Int) :
    EventCtx ι where
  maxFd := maxFd
  rfds := setUnder (ctx.mem event).mask eventRead k false ctx.rfds
  wfds := setUnder (ctx.mem event).mask eventWrite k false ctx.wfds
  events := Function.update ctx.events k none
  mem := Function.update ctx.mem event (ctx.mem event).new

omit [DecidableEq ι] in
/-- The search stays in the table and passes no descriptor with a mask. -/
theorem lookup_spec (ctx : EventCtx ι) : ∀ n : Nat, n < fdSetsize →
    ∃ m, ctx.lookup n = some m ∧ m ≤ n ∧
      ∀ (j : Fin fdSetsize) e, ctx.events j = some e → (ctx.mem e).mask ≠ eventEmpty →
        (j : Int) ≤ n → (j : Int) ≤ m := by
  intro n
  induction n with
  | zero => exact fun _ => ⟨0, rfl, le_refl _, fun j e _ _ hj => hj⟩
  | succ n ih =>
      intro hn
      have hindex : fdIndex ((n + 1 : Nat) : Int) = some ⟨n + 1, hn⟩ := fdIndex_eq_some.mpr rfl
      obtain ⟨m, hm, hle, hpass⟩ := ih (Nat.lt_of_succ_lt hn)
      rw [EventCtx.lookup, hindex]
      -- a descriptor that is passed has no event, or one without a mask
      have hnext : (∀ e, ctx.events ⟨n + 1, hn⟩ = some e → (ctx.mem e).mask = eventEmpty) →
          ∀ (j : Fin fdSetsize) e, ctx.events j = some e → (ctx.mem e).mask ≠ eventEmpty →
            (j : Int) ≤ (n + 1 : Nat) → (j : Int) ≤ m := by
        intro hempty j e hj hmask hjn
        refine hpass j e hj hmask ?_
        have hne : (j : Nat) ≠ n + 1 := by
          intro heq
          have hj' : j = ⟨n + 1, hn⟩ := Fin.ext heq
          exact hmask (hempty e (hj' ▸ hj))
        omega
      cases hev : ctx.events ⟨n + 1, hn⟩ with
      | none =>
          refine ⟨m, ?_, by omega, hnext fun e he => absurd (he.symm.trans hev)
            (Option.some_ne_none e)⟩
          rw [Option.bind_eq_bind, Option.bind_some, hev]
          exact hm
      | some s =>
          rw [Option.bind_eq_bind, Option.bind_some, hev]
          by_cases hmask : (ctx.mem s).mask = eventEmpty
          · refine ⟨m, ?_, by omega, hnext fun e he => ?_⟩
            · exact (if_neg (not_not.mpr hmask)).trans hm
            · rw [Option.some_inj.mp (he.symm.trans hev)]
              exact hmask
          · exact ⟨_, if_pos hmask, le_refl _, fun j e _ _ hj => hj⟩

omit [DecidableEq ι] in
/-- The greatest descriptor is still one when a descriptor is gone. -/
theorem updateMaxFd_spec {ctx : EventCtx ι} {reg : Registry ι} (h : Holds ctx reg)
    (k : Fin fdSetsize) :
    ∃ m, ctx.updateMaxFd k = some m ∧ m ≤ ctx.maxFd ∧ max (k : Int) m = max (k : Int) ctx.maxFd ∧
      ∀ (j : Fin fdSetsize) e, j ≠ k → ctx.events j = some e →
        (ctx.mem e).mask ≠ eventEmpty → (j : Int) ≤ m := by
  have hbelow : ∀ (j : Fin fdSetsize) e, j ≠ k → ctx.events j = some e →
      (ctx.mem e).mask ≠ eventEmpty → (j : Int) ≤ ctx.maxFd ∧ (j : Int) ≠ k :=
    fun j e hjk hj hmask => ⟨(h.at' j).max e hj hmask, fun heq => hjk (by omega)⟩
  rw [EventCtx.updateMaxFd]
  split
  case isTrue hfd =>
    split
    case isTrue hpos =>
      have hbound := h.bound
      obtain ⟨m, hm, hle, hpass⟩ := lookup_spec ctx (ctx.maxFd - 1).toNat (by omega)
      refine ⟨m, hm, by omega, by omega, fun j e hjk hj hmask => ?_⟩
      have hj' := hbelow j e hjk hj hmask
      exact hpass j e hj hmask (by omega)
    case isFalse hpos =>
      refine ⟨_, rfl, by omega, by omega, fun j e hjk hj hmask => ?_⟩
      have hj' := hbelow j e hjk hj hmask
      omega
  case isFalse hfd =>
    exact ⟨_, rfl, le_refl _, rfl, fun j e hjk hj hmask => (hbelow j e hjk hj hmask).1⟩

/-- What a deletion does: nothing if the event is not registered, else it goes by the descriptor
that the event remembers. -/
theorem awokeEventDel_cases {ctx : EventCtx ι} {reg : Registry ι} (h : Holds ctx reg)
    (hs : Sound ctx) (event : ι) :
    ((ctx.mem event).registered = false ∧ awokeEventDel ctx event = some ctx) ∨
      ∃ (k : Fin fdSetsize) (m : Int), (ctx.mem event).registered = true ∧
        (k : Int) = (ctx.mem event).fd ∧
        awokeEventDel ctx event = some (ctx.deleted k event m) ∧ m ≤ ctx.maxFd ∧
        max (k : Int) m = max (k : Int) ctx.maxFd ∧
        ∀ (j : Fin fdSetsize) e, j ≠ k → ctx.events j = some e →
          (ctx.mem e).mask ≠ eventEmpty → (j : Int) ≤ m := by
  cases hr : (ctx.mem event).registered with
  | false =>
      refine .inl ⟨rfl, ?_⟩
      rw [awokeEventDel, hr]
      rfl
  | true =>
      obtain ⟨k, hk⟩ := fdIndex_of_range (hs.fd event hr)
      obtain ⟨m, hm, hle, hsame, hpass⟩ := updateMaxFd_spec h k
      refine .inr ⟨k, m, rfl, hk, ?_, hle, hsame, hpass⟩
      rw [awokeEventDel, hr, fdIndex_eq_some.mpr hk, ← hk, hm]
      rfl

section

variable {ctx : EventCtx ι} {reg : Registry ι} {j k : Fin fdSetsize} {event : ι} {m : Int}

theorem deleted_mem (ctx : EventCtx ι) (k : Fin fdSetsize) (event : ι) (m : Int) :
    (ctx.deleted k event m).mem event = (ctx.mem event).new := Function.update_self _ _ _

theorem deleted_stays (hjk : j ≠ k) (h : HoldsAt ctx reg j) (hj : ctx.events j = some event) :
    (ctx.deleted k event m).events j ≠ reg.del event j := by
  have hev : (ctx.deleted k event m).events j = some event :=
    (Function.update_of_ne hjk _ _).trans hj
  rw [hev, Registry.del, if_pos (h.table.symm.trans hj)]
  exact Option.some_ne_none event

/-- Every other descriptor is left alone. -/
theorem deleted_other (hjk : j ≠ k) (h : HoldsAt ctx reg j) (hj : ctx.events j ≠ some event)
    (hpass : ∀ e, ctx.events j = some e → (ctx.mem e).mask ≠ eventEmpty → (j : Int) ≤ m) :
    HoldsAt (ctx.deleted k event m) (reg.del event) j := by
  have hev : (ctx.deleted k event m).events j = ctx.events j := Function.update_of_ne hjk _ _
  have hread : (ctx.deleted k event m).rfds j = ctx.rfds j := setUnder_other hjk _ _
  have hwrite : (ctx.deleted k event m).wfds j = ctx.wfds j := setUnder_other hjk _ _
  have hreg : reg.del event j = reg j := if_neg (h.table ▸ hj)
  cases he : ctx.events j with
  | none =>
      rw [holdsAt_none (hev.trans he), hread, hwrite, hreg]
      exact (holdsAt_none he).mp h
  | some e =>
      have hne : e ≠ event := fun heq => hj (he.trans (congrArg some heq))
      have hmem : (ctx.deleted k event m).mem e = ctx.mem e := Function.update_of_ne hne _ _
      rw [holdsAt_some (hev.trans he), hread, hwrite, hreg, hmem]
      obtain ⟨h1, h2, h3, -⟩ := (holdsAt_some he).mp h
      exact ⟨h1, h2, h3, hpass e he⟩

/-- At its own descriptor nothing is left, if nothing else was there. -/
theorem deleted_self (h : HoldsAt ctx reg k) (hk : ∀ e, ctx.events k = some e → e = event) :
    HoldsAt (ctx.deleted k event m) (reg.del event) k := by
  have hev : (ctx.deleted k event m).events k = none := Function.update_self _ _ _
  have hread : (ctx.deleted k event m).rfds k =
      (!maskExst (ctx.mem event).mask eventRead && ctx.rfds k) := setUnder_false _ _ _ _
  have hwrite : (ctx.deleted k event m).wfds k =
      (!maskExst (ctx.mem event).mask eventWrite && ctx.wfds k) := setUnder_false _ _ _ _
  rw [holdsAt_none hev, hread, hwrite]
  cases he : ctx.events k with
  | none =>
      obtain ⟨hreg, hr, hw⟩ := (holdsAt_none he).mp h
      rw [hr, hw, Bool.and_false, Bool.and_false, Registry.del, hreg]
      exact ⟨if_neg (Option.some_ne_none event).symm, rfl, rfl⟩
  | some e =>
      obtain rfl := hk e he
      obtain ⟨hreg, hr, hw, -⟩ := (holdsAt_some he).mp h
      rw [hr, hw, Bool.not_and_self, Bool.not_and_self]
      exact ⟨if_pos hreg, rfl, rfl⟩

theorem deleted_nowhere (hlone : ∀ j, ctx.events j = some event → j = k) (j : Fin fdSetsize) :
    (ctx.deleted k event m).events j ≠ some event := by
  change Function.update ctx.events k none j ≠ some event
  by_cases hjk : j = k
  · rw [hjk, Function.update_self]
    exact (Option.some_ne_none event).symm
  · rw [Function.update_of_ne hjk]
    exact fun hev => hjk (hlone j hev)

/-- **When a deletion leaves the registry right.** -/
theorem deleted_iff (event : ι) (h : Holds ctx reg) (hle : m ≤ ctx.maxFd)
    (hpass : ∀ (j : Fin fdSetsize) e, j ≠ k → ctx.events j = some e →
      (ctx.mem e).mask ≠ eventEmpty → (j : Int) ≤ m) :
    Holds (ctx.deleted k event m) (reg.del event) ↔
      ∀ j e, ctx.events j = some e → (j = k ↔ e = event) := by
  constructor
  · intro hdel j e hj
    constructor
    · rintro rfl
      by_contra hne
      have hev : (ctx.deleted j event m).events j = none := Function.update_self _ _ _
      have hreg : reg j = some e := (h.at' j).table.symm.trans hj
      have htable := (hdel.at' j).table
      rw [hev, Registry.del, if_neg (fun heq => hne (Option.some_inj.mp (hreg.symm.trans heq))),
        hreg] at htable
      exact Option.some_ne_none e htable.symm
    · rintro rfl
      by_contra hjk
      exact deleted_stays hjk (h.at' j) hj (hdel.at' j).table
  · intro hstands
    refine ⟨fun j => ?_, lt_of_le_of_lt hle h.bound⟩
    by_cases hjk : j = k
    · subst hjk
      exact deleted_self (h.at' j) fun e he => (hstands j e he).mp rfl
    · exact deleted_other hjk (h.at' j) (fun hj => hjk ((hstands j event hj).mpr rfl))
        fun e he => hpass j e hjk he

end

end Awoke.Libevent
