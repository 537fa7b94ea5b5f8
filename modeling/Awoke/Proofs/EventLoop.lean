/-
When the four places of the event loop's registry agree.

A registration sets bits but clears none, a deletion clears what the event remembers, and an event
can be given to a second descriptor without leaving the first.  So a descriptor that is registered
again keeps the bits that its new mask lacks, and an event that was replaced takes the entry of
its successor with it when it is deleted.  And `fd > FD_SETSIZE` lets `FD_SETSIZE` itself pass,
and every negative descriptor.

`event_registry_iff` says which calls keep the registry as it should be, over every run.
-/
import Awoke.Proofs.EventStep

namespace Awoke.Libevent

variable {ι : Type} [DecidableEq ι]

/-! ### Changing a mask -/

/-- The loop with the mask of an event written. -/
def EventCtx.masked (ctx : EventCtx ι) (event : ι) (mask : BitVec 32) : EventCtx ι :=
  { ctx with mem := Function.update ctx.mem event { ctx.mem event with mask := mask } }

theorem mtkEventChangeMask_of_del {ctx c : EventCtx ι} {event : ι}
    (h : awokeEventDel ctx event = some c) (and or : BitVec 32) (data : Option ι) :
    mtkEventChangeMask ctx event and or data =
      (awokeEventAdd (c.masked event (newMask ctx event and or)) (c.mem event).fd
        (c.mem event).type (newMask ctx event and or) data).map Prod.fst := by
  rw [mtkEventChangeMask, h, Option.map_eq_bind]
  rfl

theorem masked_holdsAt {ctx : EventCtx ι} {reg : Registry ι} {j : Fin fdSetsize} {event : ι}
    {mask : BitVec 32} (h : HoldsAt ctx reg j) (hj : ctx.events j ≠ some event) :
    HoldsAt (ctx.masked event mask) reg j := by
  have hev : (ctx.masked event mask).events j = ctx.events j := rfl
  cases he : ctx.events j with
  | none =>
      rw [holdsAt_none (hev.trans he)]
      exact (holdsAt_none he).mp h
  | some e =>
      have hne : e ≠ event := fun heq => hj (he.trans (congrArg some heq))
      have hmem : (ctx.masked event mask).mem e = ctx.mem e := Function.update_of_ne hne _ _
      rw [holdsAt_some (hev.trans he), hmem]
      exact (holdsAt_some he).mp h

/-! ### One call -/

omit [DecidableEq ι] in
theorem Registry.add_self (reg : Registry ι) (k : Fin fdSetsize) (event : ι) :
    reg.add k (some event) = Function.update reg k (some event) := by
  have hindex : fdIndex (k : Int) = some k := fdIndex_eq_some.mpr rfl
  simp only [Registry.add, hindex, Option.elim_some]

theorem awokeEventAdd_refused {fd : Int} {data : Option ι} (h : data = none ∨ fd > fdSetsize)
    (ctx : EventCtx ι) (reg : Registry ι) (type : Int) (mask : BitVec 32) :
    awokeEventAdd ctx fd type mask data = some (ctx, .etParam) ∧ reg.add fd data = reg := by
  cases data with
  | none => exact ⟨rfl, rfl⟩
  | some event =>
      have hfd : fd > fdSetsize := h.resolve_left (Option.some_ne_none event)
      have hindex : fdIndex fd = none := fdIndex_eq_none fun hrange => by omega
      refine ⟨?_, ?_⟩
      · rw [awokeEventAdd, if_pos hfd]
      · simp only [Registry.add, hindex, Option.elim_none]

/-- **When `awoke_event_add` leaves the registry right.** -/
theorem awokeEventAdd_iff {ctx : EventCtx ι} {reg : Registry ι} {fd : Int}
    (hoff : ∀ j : Fin fdSetsize, (j : Int) ≠ fd → HoldsAt ctx reg j)
    (hbound : ctx.maxFd < fdSetsize) (hfd : fd ≤ fdSetsize) (type : Int) (mask : BitVec 32)
    (event : ι) :
    (∃ r, awokeEventAdd ctx fd type mask (some event) = some r ∧
      Holds r.1 (reg.add fd (some event))) ↔ AddSafe ctx fd eventEmpty mask event := by
  by_cases hrange : 0 ≤ fd ∧ fd < fdSetsize
  · obtain ⟨k, rfl⟩ := fdIndex_of_range hrange
    rw [awokeEventAdd_eq, Registry.add_self,
      ← added_iff (fun j hjk => hoff j fun heq => hjk (by omega)) hbound]
    refine ⟨fun ⟨r, hr, hholds⟩ => ?_, fun hholds => ⟨_, rfl, hholds⟩⟩
    rw [← Option.some_inj.mp hr] at hholds
    exact hholds
  · refine iff_of_false (fun ⟨r, hr, _⟩ => ?_) fun hsafe => hrange hsafe.index
    rw [awokeEventAdd, if_neg (not_lt.mpr hfd), fdIndex_eq_none hrange] at hr
    exact Option.some_ne_none r hr.symm

theorem Registry.del_of_unregistered {ctx : EventCtx ι} {reg : Registry ι} (h : Holds ctx reg)
    (hs : Sound ctx) {event : ι} (hr : (ctx.mem event).registered = false) :
    (∀ j, ctx.events j ≠ some event) ∧ reg.del event = reg := by
  have hnot : ∀ j, ctx.events j ≠ some event := fun j hj =>
    Bool.false_ne_true (hr.symm.trans (hs.live j event hj))
  exact ⟨hnot, funext fun j => if_neg ((h.at' j).table ▸ hnot j)⟩

theorem masked_iff (ctx : EventCtx ι) (mask : BitVec 32) {reg : Registry ι} {event : ι}
    (hreg : ∀ j, reg j ≠ some event) : Holds (ctx.masked event mask) reg ↔ Holds ctx reg := by
  have hback : (ctx.masked event mask).masked event (ctx.mem event).mask = ctx := by
    simp only [EventCtx.masked, Function.update_idem, Function.update_self,
      Function.update_eq_self]
  constructor
  · intro h
    refine ⟨fun j => ?_, h.bound⟩
    rw [← hback]
    exact masked_holdsAt (h.at' j) ((h.at' j).table ▸ hreg j)
  · intro h
    exact ⟨fun j => masked_holdsAt (h.at' j) ((h.at' j).table ▸ hreg j), h.bound⟩

/-- Where an event stands nowhere, its mask is no matter for what is registered next. -/
theorem addSafe_masked {ctx : EventCtx ι} {event : ι} (hnot : ∀ j, ctx.events j ≠ some event)
    (fd : Int) (gone mask mask' : BitVec 32) (data : ι) :
    AddSafe (ctx.masked event mask) fd gone mask' data ↔ AddSafe ctx fd gone mask' data := by
  have hmem : ∀ j : Fin fdSetsize, ctx.events j = some data →
      (ctx.masked event mask).mem data = ctx.mem data := by
    intro j hj
    refine Function.update_of_ne ?_ _ _
    rintro rfl
    exact hnot j hj
  constructor
  · intro h
    exact ⟨h.index, h.slot, fun j hj hev => hmem j hev ▸ h.others j hj hev⟩
  · intro h
    refine ⟨h.index, h.slot, fun j hj hev => ?_⟩
    rw [hmem j hev]
    exact h.others j hj hev

/-- What its deletion clears need not be asked for. -/
theorem addSafe_deleted {ctx : EventCtx ι} {event : ι} {k : Fin fdSetsize} {m : Int}
    (hlone : ∀ j, ctx.events j = some event → j = k)
    (hsame : max (k : Int) m = max (k : Int) ctx.maxFd) (mask : BitVec 32) (data : ι) :
    AddSafe (ctx.deleted k event m) k eventEmpty mask data ↔
      AddSafe ctx k (ctx.mem event).mask mask data := by
  have hslot : ∀ (flag : BitVec 32) (set : Fin fdSetsize → Bool) (j : Fin fdSetsize),
      (j : Int) = k →
      ((setUnder (ctx.mem event).mask flag k false set j = true →
          maskExst eventEmpty flag = true ∨ maskExst mask flag = true) ↔
        (set j = true → maskExst (ctx.mem event).mask flag = true ∨
          maskExst mask flag = true)) := by
    intro flag set j hj
    obtain rfl : j = k := by omega
    rw [setUnder_false, maskExst_empty, false_or]
    cases maskExst (ctx.mem event).mask flag with
    | true => exact iff_of_true (fun h => absurd h Bool.false_ne_true) fun _ => .inl rfl
    | false => simp
  have hothers : ∀ j : Fin fdSetsize, (j : Int) ≠ k →
      (ctx.deleted k event m).events j = ctx.events j ∧
      (ctx.events j = some data → (ctx.deleted k event m).mem data = ctx.mem data) := by
    intro j hj
    have hjk : j ≠ k := fun heq => hj (by rw [heq])
    refine ⟨Function.update_of_ne hjk _ _, fun hev => Function.update_of_ne ?_ _ _⟩
    rintro rfl
    exact hjk (hlone j hev)
  constructor
  · intro h
    refine ⟨h.index, fun j hj => ?_, fun j hj hev => ?_⟩
    · exact ⟨(hslot _ _ j hj).mp (h.slot j hj).1, (hslot _ _ j hj).mp (h.slot j hj).2⟩
    · have hnew := h.others j hj ((hothers j hj).1.trans hev)
      rw [(hothers j hj).2 hev] at hnew
      exact hsame ▸ hnew
  · intro h
    refine ⟨h.index, fun j hj => ?_, fun j hj hev => ?_⟩
    · exact ⟨(hslot _ _ j hj).mpr (h.slot j hj).1, (hslot _ _ j hj).mpr (h.slot j hj).2⟩
    · have hev' := (hothers j hj).1.symm.trans hev
      rw [(hothers j hj).2 hev']
      exact hsame.symm ▸ h.others j hj hev'

theorem exists_map {α β : Type} {o : Option α} {f : α → β} {P : β → Prop} :
    (∃ r, o.map f = some r ∧ P r) ↔ ∃ x, o = some x ∧ P (f x) := by
  constructor
  · rintro ⟨r, hr, h⟩
    obtain ⟨x, hx, rfl⟩ := Option.map_eq_some_iff.mp hr
    exact ⟨x, hx, h⟩
  · rintro ⟨x, hx, h⟩
    exact ⟨f x, Option.map_eq_some_iff.mpr ⟨x, hx, rfl⟩, h⟩

theorem kept_add {ctx : EventCtx ι} {reg : Registry ι} (h : Holds ctx reg) (fd type : Int)
    (mask : BitVec 32) (data : Option ι) :
    Kept (ctx, reg) (.add fd type mask data) ↔ Safe (ctx, reg) (.add fd type mask data) := by
  rw [Kept, step, exists_map]
  have hrefused : (data = none ∨ fd > fdSetsize) →
      ∃ r, awokeEventAdd ctx fd type mask data = some r ∧ Holds r.1 (reg.add fd data) := by
    intro hdata
    obtain ⟨hadd, hreg⟩ := awokeEventAdd_refused hdata ctx reg type mask
    exact ⟨_, hadd, hreg.symm ▸ h⟩
  cases data with
  | none => exact iff_of_true (hrefused (.inl rfl)) trivial
  | some event =>
      by_cases hfd : fd ≤ fdSetsize
      · have hiff := awokeEventAdd_iff (fun j _ => h.at' j) h.bound hfd type mask event
        exact hiff.trans ⟨fun hsafe _ => hsafe, fun hsafe => hsafe hfd⟩
      · exact iff_of_true (hrefused (.inr (not_le.mp hfd))) fun hle => absurd hle hfd

theorem kept_del {ctx : EventCtx ι} {reg : Registry ι} (h : Holds ctx reg) (hs : Sound ctx)
    (event : ι) : Kept (ctx, reg) (.del event) ↔ Safe (ctx, reg) (.del event) := by
  rw [Kept, step, exists_map]
  change _ ↔ DelSafe ctx event
  rcases awokeEventDel_cases h hs event with ⟨hr, hdel⟩ | ⟨k, m, hr, hk, hdel, hle, -, hpass⟩
  · refine iff_of_true ⟨ctx, hdel, ?_⟩ fun hr' => absurd (hr.symm.trans hr') Bool.false_ne_true
    rw [(Registry.del_of_unregistered h hs hr).2]
    exact h
  · have hiff := deleted_iff event h hle hpass
    rw [hdel]
    constructor
    · rintro ⟨c, hc, hholds⟩ _ j e hj
      rw [← Option.some_inj.mp hc] at hholds
      have hjk := hiff.mp hholds j e hj
      rw [← hk]
      exact ⟨fun heq => hjk.mp (by omega), fun heq => by rw [hjk.mpr heq]⟩
    · intro hsafe
      refine ⟨_, rfl, hiff.mpr fun j e hj => ?_⟩
      have hjk := hsafe hr j e hj
      rw [← hk] at hjk
      exact ⟨fun heq => hjk.mp (by rw [heq]), fun heq => by have := hjk.mpr heq; omega⟩

theorem kept_changeMask {ctx : EventCtx ι} {reg : Registry ι} (h : Holds ctx reg)
    (hs : Sound ctx) (event : ι) (and or : BitVec 32) (data : Option ι) :
    Kept (ctx, reg) (.changeMask event and or data) ↔
      Safe (ctx, reg) (.changeMask event and or data) := by
  rw [Kept, step, exists_map]
  rcases awokeEventDel_cases h hs event with ⟨hr, hdel⟩ | ⟨k, m, hr, hk, hdel, hle, hsame, hpass⟩
  · -- nothing was deleted, and the mask is written where nobody looks
    obtain ⟨hnot, hreg⟩ := Registry.del_of_unregistered h hs hr
    have hmasked : Holds (ctx.masked event (newMask ctx event and or)) reg :=
      (masked_iff ctx _ fun j => (h.at' j).table ▸ hnot j).mpr h
    have hkept := kept_add hmasked (ctx.mem event).fd (ctx.mem event).type
      (newMask ctx event and or) data
    rw [Kept, step, exists_map] at hkept
    rw [mtkEventChangeMask_of_del hdel, exists_map, hreg, hkept]
    cases data with
    | none => exact iff_of_true trivial fun hr' => absurd (hr.symm.trans hr') Bool.false_ne_true
    | some data =>
        have hgone : goneMask ctx event = eventEmpty := if_neg (hr ▸ Bool.false_ne_true)
        refine ⟨fun hsafe => ⟨fun hr' => absurd (hr.symm.trans hr') Bool.false_ne_true,
          fun hfd => ?_⟩, fun hsafe hfd => ?_⟩
        · rw [hgone]
          exact (addSafe_masked hnot _ _ _ _ _).mp (hsafe hfd)
        · have hadd := hsafe.2 hfd
          rw [hgone] at hadd
          exact (addSafe_masked hnot _ _ _ _ _).mpr hadd
  · -- the event is deleted, and its data registered where it was
    have hfd : ((ctx.deleted k event m).mem event).fd = (k : Int) := by
      rw [hk, deleted_mem]
      rfl
    have hnone : ∀ j, reg.del event j ≠ some event := by
      intro j
      rw [Registry.del]
      split
      · exact (Option.some_ne_none event).symm
      · assumption
    rw [mtkEventChangeMask_of_del hdel, exists_map, hfd, ← hk]
    cases data with
    | none =>
        have hdelKept := kept_del h hs event
        rw [Kept, step, exists_map, hdel] at hdelKept
        rw [(awokeEventAdd_refused (.inl rfl) _ (reg.del event) _ _).1]
        simp only [Option.some_inj, exists_eq_left'] at hdelKept ⊢
        exact (masked_iff _ _ hnone).trans hdelKept
    | some data =>
        have hk' : (k : Int) ≤ fdSetsize := by omega
        have hsafe : Safe (ctx, reg) (.changeMask event and or (some data)) ↔
            (∀ j, ctx.events j = some event → j = k) ∧
              AddSafe ctx k (ctx.mem event).mask (newMask ctx event and or) data := by
          have hgone : goneMask ctx event = (ctx.mem event).mask := if_pos hr
          rw [Safe, hgone, ← hk]
          refine ⟨fun hsafe => ⟨fun j hj => ?_, hsafe.2 hk'⟩,
            fun hsafe => ⟨fun _ j hj => by rw [hsafe.1 j hj], fun _ => hsafe.2⟩⟩
          have := hsafe.1 hr j hj
          omega
        rw [hsafe]
        by_cases hlone : ∀ j, ctx.events j = some event → j = k
        · rw [and_iff_right hlone, ← addSafe_deleted hlone hsame,
            ← addSafe_masked (deleted_nowhere hlone) k eventEmpty (newMask ctx event and or)]
          have hoff : ∀ j : Fin fdSetsize, (j : Int) ≠ k →
              HoldsAt ((ctx.deleted k event m).masked event (newMask ctx event and or))
                (reg.del event) j := by
            intro j hj
            have hjk : j ≠ k := fun heq => hj (by rw [heq])
            exact masked_holdsAt (deleted_other hjk (h.at' j) (fun hev => hjk (hlone j hev))
              fun e he => hpass j e hjk he) (deleted_nowhere hlone j)
          simp only
          exact awokeEventAdd_iff hoff (lt_of_le_of_lt hle h.bound) hk' _ _ _
        · refine iff_of_false ?_ fun hlone' => hlone hlone'.1
          rintro ⟨r, hr, hholds⟩
          push Not at hlone
          obtain ⟨j, hev, hjk⟩ := hlone
          rw [awokeEventAdd_eq, Option.some_inj] at hr
          rw [← hr, Registry.add_self] at hholds
          have htable : Function.update (ctx.deleted k event m).events k (some data) j =
              Function.update (reg.del event) k (some data) j := (hholds.at' j).table
          rw [Function.update_of_ne hjk, Function.update_of_ne hjk] at htable
          exact deleted_stays hjk (h.at' j) hev htable

/-- **When a call leaves the registry right.** -/
theorem kept_iff {s : EventCtx ι × Registry ι} (h : Holds s.1 s.2) (hs : Sound s.1) (op : Op ι) :
    Kept s op ↔ Safe s op := by
  cases op with
  | add fd type mask data => exact kept_add h fd type mask data
  | del event => exact kept_del h hs event
  | changeMask event and or data => exact kept_changeMask h hs event and or data

/-! ### The events -/

theorem awokeEventAdd_sound {ctx : EventCtx ι} (hs : Sound ctx) {fd type : Int} {mask : BitVec 32}
    {data : Option ι} {r : EventCtx ι × ErrType}
    (h : awokeEventAdd ctx fd type mask data = some r) :
    Sound r.1 := by
  by_cases hdata : data = none ∨ fd > fdSetsize
  · rw [(awokeEventAdd_refused hdata ctx (fun _ => none) type mask).1, Option.some_inj] at h
    rw [← h]
    exact hs
  push Not at hdata
  obtain ⟨event, rfl⟩ := Option.ne_none_iff_exists'.mp hdata.1
  by_cases hrange : 0 ≤ fd ∧ fd < fdSetsize
  · obtain ⟨k, rfl⟩ := fdIndex_of_range hrange
    rw [awokeEventAdd_eq, Option.some_inj] at h
    rw [← h]
    have hmem : ∀ e, e = event ∧ ((ctx.added k type mask event).mem e).registered = true ∧
        ((ctx.added k type mask event).mem e).fd = k ∨
        e ≠ event ∧ (ctx.added k type mask event).mem e = ctx.mem e := by
      intro e
      by_cases he : e = event
      · subst he
        have hself : (ctx.added k type mask e).mem e =
            { fd := (k : Int), type := type, mask := mask, status := eventRegistered } :=
          Function.update_self _ _ _
        have hreg : maskExst eventRegistered eventRegistered = true := by decide
        rw [hself]
        exact .inl ⟨rfl, hreg, rfl⟩
      · exact .inr ⟨he, Function.update_of_ne he _ _⟩
    refine ⟨fun e he => ?_, fun j e hj => ?_⟩
    · rcases hmem e with ⟨-, -, hfd⟩ | ⟨-, hsame⟩
      · simp only [hfd]
        exact hrange
      · simp only [hsame] at he ⊢
        exact hs.fd e he
    · rcases hmem e with ⟨-, hreg, -⟩ | ⟨hne, hsame⟩
      · exact hreg
      · change Function.update ctx.events k (some event) j = some e at hj
        have hjk : j ≠ k := by
          rintro rfl
          rw [Function.update_self] at hj
          exact hne (Option.some_inj.mp hj).symm
        rw [Function.update_of_ne hjk] at hj
        simp only [hsame]
        exact hs.live j e hj
  · rw [awokeEventAdd, if_neg (not_lt.mpr hdata.2), fdIndex_eq_none hrange] at h
    exact absurd h.symm (Option.some_ne_none r)

/-- It stands nowhere once it is deleted, so that every event in the table is registered. -/
theorem awokeEventDel_sound {ctx c : EventCtx ι} {reg : Registry ι} (h : Holds ctx reg)
    (hs : Sound ctx) {event : ι}
    (hlone : (ctx.mem event).registered = true →
      ∀ j, ctx.events j = some event → (j : Int) = (ctx.mem event).fd)
    (hdel : awokeEventDel ctx event = some c) : Sound c := by
  rcases awokeEventDel_cases h hs event with ⟨-, hsame⟩ | ⟨k, m, hr, hk, hdone, -⟩
  · rw [Option.some_inj.mp (hdel.symm.trans hsame)]
    exact hs
  · obtain rfl := Option.some_inj.mp (hdel.symm.trans hdone)
    have hlone' : ∀ j, ctx.events j = some event → j = k := fun j hj => by
      have := hlone hr j hj
      omega
    have hgone := deleted_nowhere (m := m) hlone'
    have hmem : ∀ e, e ≠ event → (ctx.deleted k event m).mem e = ctx.mem e :=
      fun e he => Function.update_of_ne he _ _
    refine ⟨fun e he => ?_, fun j e hj => ?_⟩
    · by_cases heq : e = event
      · subst heq
        rw [deleted_mem] at he ⊢
        exact hs.fd e hr
      · rw [hmem e heq] at he ⊢
        exact hs.fd e he
    · have hne : e ≠ event := fun heq => hgone j (heq ▸ hj)
      change Function.update ctx.events k none j = some e at hj
      have hjk : j ≠ k := by
        rintro rfl
        rw [Function.update_self] at hj
        exact Option.some_ne_none e hj.symm
      rw [Function.update_of_ne hjk] at hj
      rw [hmem e hne]
      exact hs.live j e hj

theorem masked_sound {ctx : EventCtx ι} (hs : Sound ctx) (event : ι) (mask : BitVec 32) :
    Sound (ctx.masked event mask) := by
  have hmem : ∀ e, ((ctx.masked event mask).mem e).registered = (ctx.mem e).registered ∧
      ((ctx.masked event mask).mem e).fd = (ctx.mem e).fd := by
    intro e
    change (Function.update ctx.mem event _ e).registered = _ ∧
      (Function.update ctx.mem event _ e).fd = _
    by_cases he : e = event
    · subst he
      rw [Function.update_self]
      exact ⟨rfl, rfl⟩
    · rw [Function.update_of_ne he]
      exact ⟨rfl, rfl⟩
  refine ⟨fun e he => ?_, fun j e hj => (hmem e).1.trans (hs.live j e hj)⟩
  rw [(hmem e).2]
  exact hs.fd e ((hmem e).1.symm.trans he)

/-- What is true of the events stays so. -/
theorem step_sound {s : EventCtx ι × Registry ι} (h : Holds s.1 s.2) (hs : Sound s.1) {op : Op ι}
    (hsafe : Safe s op) {s' : EventCtx ι × Registry ι} {o : ErrType}
    (hstep : step s op = some (s', o)) : Sound s'.1 := by
  cases op with
  | add fd type mask data =>
      obtain ⟨r, hr, heq⟩ := Option.map_eq_some_iff.mp hstep
      have hsound := awokeEventAdd_sound hs hr
      rw [← (Prod.mk.inj heq).1]
      exact hsound
  | del event =>
      obtain ⟨c, hc, heq⟩ := Option.map_eq_some_iff.mp hstep
      have hlone := fun hr j hj => (hsafe hr j event hj).mpr rfl
      rw [← (Prod.mk.inj heq).1]
      exact awokeEventDel_sound h hs hlone hc
  | changeMask event and or data =>
      obtain ⟨c, hc, heq⟩ := Option.map_eq_some_iff.mp hstep
      have hlone : (s.1.mem event).registered = true →
          ∀ j, s.1.events j = some event → (j : Int) = (s.1.mem event).fd := by
        cases data with
        | none => exact fun hr j hj => (hsafe hr j event hj).mpr rfl
        | some data => exact hsafe.1
      rw [← (Prod.mk.inj heq).1]
      cases hdel : awokeEventDel s.1 event with
      | none =>
          rw [mtkEventChangeMask, hdel] at hc
          exact absurd hc.symm (Option.some_ne_none c)
      | some d =>
          rw [mtkEventChangeMask_of_del hdel] at hc
          obtain ⟨r, hr, rfl⟩ := Option.map_eq_some_iff.mp hc
          exact awokeEventAdd_sound (masked_sound (awokeEventDel_sound h hs hlone hdel) _ _) hr

/-! ### Every run -/

/-- The loop as `awoke_event_loop_create` leaves it, with events that are not registered. -/
structure Fresh (ctx : EventCtx ι) : Prop where
  maxFd : ctx.maxFd = 0
  rfds : ∀ k, ctx.rfds k = false
  wfds : ∀ k, ctx.wfds k = false
  events : ∀ k, ctx.events k = none
  mem : ∀ e, (ctx.mem e).registered = false

omit [DecidableEq ι] in
theorem Fresh.holds {ctx : EventCtx ι} (h : Fresh ctx) : Holds ctx fun _ => none := by
  refine ⟨fun k => (holdsAt_none (h.events k)).mpr ⟨rfl, h.rfds k, h.wfds k⟩, ?_⟩
  rw [h.maxFd]
  decide

omit [DecidableEq ι] in
theorem Fresh.sound {ctx : EventCtx ι} (h : Fresh ctx) : Sound ctx :=
  ⟨fun e he => absurd ((h.mem e).symm.trans he) Bool.false_ne_true,
    fun k e he => absurd ((h.events k).symm.trans he).symm (Option.some_ne_none e)⟩

/-- **The registry is right in every state of a run exactly when every call is one that keeps
it.** -/
theorem event_registry_iff (ctx : EventCtx ι) (h : Fresh ctx) (ops : List (Op ι)) :
    Holds ctx (fun _ => none) ∧ Machine.Meets step Kept (ctx, fun _ => none) ops ↔
      Machine.Meets step Safe (ctx, fun _ => none) ops := by
  rw [and_iff_right h.holds]
  refine Machine.meets_congr (J := fun s => Holds s.1 s.2 ∧ Sound s.1)
    (fun s op hJ => kept_iff hJ.1 hJ.2 op) (fun s op hJ hsafe s' o hstep => ?_) ops
    ⟨h.holds, h.sound⟩
  obtain ⟨r, hr, hholds⟩ := (kept_iff hJ.1 hJ.2 op).mpr hsafe
  have heq := Option.some_inj.mp (hstep.symm.trans hr)
  rw [← heq] at hholds
  exact ⟨hholds, step_sound hJ.1 hJ.2 hsafe hstep⟩

/-- A loop just created, and zeroed events. -/
def fresh : EventCtx Nat where
  maxFd := 0
  rfds := fun _ => false
  wfds := fun _ => false
  events := fun _ => none
  mem := fun _ => { fd := 0, type := 0, mask := 0, status := 0 }

theorem fresh_fresh : Fresh fresh := by
  have hstatus : maskExst 0#8 eventRegistered = false := by decide
  exact ⟨rfl, fun _ => rfl, fun _ => rfl, fun _ => rfl, fun _ => hstatus⟩

theorem event_registry_iff_fresh : Holds fresh (fun _ => none) ∧
    Machine.Meets step Kept (fresh, fun _ => none) [.add 3 2 eventRead (some 0), .del 0] := by
  refine (event_registry_iff fresh fresh_fresh _).mpr ⟨fun _ => ?_, fun s' o hstep => ⟨?_, ?_⟩⟩
  · exact ⟨by decide, fun k _ => ⟨fun h => absurd h Bool.false_ne_true,
      fun h => absurd h Bool.false_ne_true⟩, fun k _ h => absurd h (Option.some_ne_none 0).symm⟩
  · intro _ k e hk
    have hs' : (fresh.added ⟨3, by decide⟩ 2 eventRead 0, _) = s' :=
      (Prod.mk.inj (Option.some_inj.mp hstep)).1
    subst hs'
    change Function.update (fun _ => none) ⟨3, by decide⟩ (some 0) k = some e at hk
    rw [Function.update_apply] at hk
    split at hk
    · rename_i hk3
      have he : 0 = e := Option.some_inj.mp hk
      subst he hk3
      exact iff_of_true rfl rfl
    · exact absurd hk.symm (Option.some_ne_none e)
  · exact fun _ _ _ => trivial

/-- A descriptor registered again for writing only is still waited on for reading, and
`FD_SETSIZE` is taken for a descriptor. -/
theorem event_registry_stale : Fresh fresh ∧
    ¬Machine.Meets step Kept (fresh, fun _ => none)
      [.add 3 2 (eventRead ||| eventWrite) (some 0), .add 3 2 eventWrite (some 0)] ∧
    step (fresh, fun _ => none) (.add 1024 2 eventRead (some 0)) = none := by
  refine ⟨fresh_fresh, fun hmeets => ?_, rfl⟩
  obtain ⟨⟨r, hr, hholds⟩, -⟩ := hmeets.2 _ _ rfl
  have hr' := Option.some_inj.mp hr
  subst hr'
  obtain ⟨e, he, hmask⟩ := (hholds.at' ⟨3, by decide⟩).read.mp (by decide)
  have he' : 0 = e := Option.some_inj.mp he
  subst he'
  exact absurd hmask (by decide)

end Awoke.Libevent
