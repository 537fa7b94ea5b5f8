/-
A message is packed and unpacked.

All that is packed fits into the message, so what lies in it is the pieces that are pushed, one
behind the other, and the lengths and the number of units always come out right.  But a unit is
unpacked in an order of its own: what comes back as the signal is the percentage and the other way
round, and the time that is packed with every unit is that of the header.
-/
import Awoke.Proofs.Package
import Awoke.Ry.Message
import Mathlib.Data.List.Flatten
import Mathlib.Tactic.Linarith

namespace Awoke.Ry

open Cells (Pen Lies lies_cons lies_append lies_write)

/-! ### Pushing -/

theorem foldl_pushSafe {stop : Int} (pieces : List (List UInt8)) (p : Pen UInt8)
    (hfits : p.pos + pieces.flatten.length ≤ stop) :
    pieces.foldl (pushSafe stop) p = p.put pieces.flatten :=
  Pen.foldl_fits (fun _ _ hfits => if_pos (by omega)) pieces p hfits

theorem unitPieces_length (h : RyMsgHeader) (du : RyMsgDtunit) (m : RyDataunit) :
    (unitPieces h du m).flatten.length = 23 := rfl

/-- The pieces of all units. -/
def unitsPieces (h : RyMsgHeader) (du : RyMsgDtunit) (ms : List RyDataunit) : List (List UInt8) :=
  ms.flatMap (unitPieces h du)

theorem unitsPieces_length (h : RyMsgHeader) (du : RyMsgDtunit) (ms : List RyDataunit) :
    (unitsPieces h du ms).flatten.length = 23 * ms.length := by
  induction ms with
  | nil => rfl
  | cons m ms ih =>
      have hcons : unitsPieces h du (m :: ms) = unitPieces h du m ++ unitsPieces h du ms := rfl
      rw [hcons, List.flatten_append, List.length_append, unitPieces_length, ih, List.length_cons]
      ring

theorem headerPieces_length (h : RyMsgHeader) (dtunitLen : Int) :
    (headerPieces h dtunitLen).flatten.length = 26 := by
  have himei : h.imei.toList.length = 8 := h.imei.length_toList
  simp [headerPieces, datePieces, pushHtons, himei]

theorem foreach_length (q : RyQueue) : (q.foreach.length : Int) = q.size := by
  have hlower := q.lower
  rw [RyQueue.foreach, List.length_map, List.length_reverse, List.length_range, RyQueue.size]
  omega

theorem foreach_length_le (q : RyQueue) : q.foreach.length ≤ 15 := by
  have hupper : q.curr < 15 := q.upper
  have hlength := foreach_length q
  rw [RyQueue.size] at hlength
  omega

/-! ### What lies in a message -/

/-- The message with its units, behind the order type. -/
def withUnits (q : RyQueue) (msg : RyMessage) : RyMessage :=
  { msg with
    originalBuf := Cells.write (Cells.write msg.originalBuf 26 [msg.dtunit.orderType]) 27
      (unitsPieces msg.header msg.dtunit q.foreach).flatten
    dtunitLen := 23 * q.foreach.length + 1 }

theorem dtunitPackage (q : RyQueue) (msg : RyMessage)
    (horder : msg.dtunit.orderType = orderRpMONITOR) :
    ryMsgDtunitPackage q msg = some (.etOk, withUnits q msg) := by
  have hlength := foreach_length_le q
  have hunits := unitsPieces_length msg.header msg.dtunit q.foreach
  have hfirst : pushSafe (pktSize - 1) ⟨msg.originalBuf, duOffset⟩ [msg.dtunit.orderType] =
      ⟨Cells.write msg.originalBuf 26 [msg.dtunit.orderType], 27⟩ :=
    if_pos (show (1 : Int) ≤ 1024 - 1 - 26 by decide)
  have hloop : q.foreach.foldl
        (fun p m => (unitPieces msg.header msg.dtunit m).foldl (pushSafe (pktSize - 1)) p)
        ⟨Cells.write msg.originalBuf 26 [msg.dtunit.orderType], 27⟩ =
      Pen.put ⟨Cells.write msg.originalBuf 26 [msg.dtunit.orderType], 27⟩
        (unitsPieces msg.header msg.dtunit q.foreach).flatten := by
    rw [← List.foldl_flatMap]
    refine foldl_pushSafe _ _ ?_
    show 27 + ((unitsPieces msg.header msg.dtunit q.foreach).flatten.length : Int) ≤ 1024 - 1
    rw [hunits]
    omega
  rw [ryMsgDtunitPackage, hfirst, if_pos horder, ryMsgDuMonitorPackage, hloop]
  have hlen : (27 : Int) + (unitsPieces msg.header msg.dtunit q.foreach).flatten.length - 27 + 1 =
      23 * q.foreach.length + 1 := by
    rw [hunits]
    omega
  rw [Pen.put_pos, hlen]
  rfl

/-- The header in front of them, and the checksum and the mark of the end behind them. -/
theorem headerPackage (msg : RyMessage) (hlen : msg.dtunitLen + 29 ≤ 1024) :
    ryMsgHeaderPackage msg = (.etOk,
      { msg with
        header := { msg.header with checksum := 0x99 }
        originalBuf := Cells.write
          (Cells.write msg.originalBuf 0 (headerPieces msg.header msg.dtunitLen).flatten)
          (26 + msg.dtunitLen) [[0x99], pushHtons msg.header.hdrPostfix].flatten
        originalLen := 26 + msg.dtunitLen + 3 }) := by
  have hheader := headerPieces_length msg.header msg.dtunitLen
  have hfront : (headerPieces msg.header msg.dtunitLen).foldl (pushSafe 1024)
        ⟨msg.originalBuf, 0⟩ =
      ⟨Cells.write msg.originalBuf 0 (headerPieces msg.header msg.dtunitLen).flatten, 26⟩ := by
    rw [foldl_pushSafe _ _ (by rw [hheader]; exact (by decide : (0 : Int) + 26 ≤ 1024)), Pen.put,
      hheader]
    rfl
  have hback : ∀ m : Cells UInt8,
      [[0x99], pushHtons msg.header.hdrPostfix].foldl (pushSafe 1024) ⟨m, 26 + msg.dtunitLen⟩ =
        Pen.put ⟨m, 26 + msg.dtunitLen⟩ [[0x99], pushHtons msg.header.hdrPostfix].flatten := by
    intro m
    refine foldl_pushSafe _ _ ?_
    show 26 + msg.dtunitLen + 3 ≤ 1024
    omega
  rw [ryMsgHeaderPackage, hfront, Pen.skip, hback]
  rfl

/-- What is built of a header, of what is the same in all units, and of the units. -/
structure Built (h : RyMsgHeader) (du : RyMsgDtunit) (ms : List RyDataunit) (msg : RyMessage) :
    Prop where
  originalLen : msg.originalLen = 29 + 1 + 23 * ms.length
  front : Lies msg.originalBuf 0 (headerPieces h (23 * ms.length + 1))
  order : msg.originalBuf 26 = du.orderType
  units : Lies msg.originalBuf 27 (unitsPieces h du ms)
  back : Lies msg.originalBuf (27 + 23 * ms.length) [[0x99], pushHtons h.hdrPostfix]

/-- **All that is packed lies in the message**, one piece behind the other. -/
theorem construstMsg_built (q : RyQueue) (msg : RyMessage)
    (horder : msg.dtunit.orderType = orderRpMONITOR) :
    ∃ msg', ryConstrustMsg q msg = some (.etOk, msg') ∧
      Built msg.header msg.dtunit q.foreach msg' := by
  have hlength := foreach_length_le q
  have hunits := unitsPieces_length msg.header msg.dtunit q.foreach
  have hheader := headerPieces_length (withUnits q msg).header (withUnits q msg).dtunitLen
  have hlen : (withUnits q msg).dtunitLen = 23 * q.foreach.length + 1 := rfl
  have hbuilt : ryConstrustMsg q msg = some (ryMsgHeaderPackage (withUnits q msg)) := by
    rw [ryConstrustMsg, dtunitPackage q msg horder]
    rfl
  rw [headerPackage (withUnits q msg) (by rw [hlen]; omega)] at hbuilt
  refine ⟨_, hbuilt, ?_, ?_, ?_, ?_, ?_⟩
  · show 26 + (withUnits q msg).dtunitLen + 3 = _
    rw [hlen]
    ring
  · refine (lies_write _ 0 _).write_outside (.inl ?_)
    rw [hheader, hlen]
    omega
  · show Cells.write (Cells.write (Cells.write (Cells.write _ 26 _) 27 _) 0 _)
      (26 + (withUnits q msg).dtunitLen) _ 26 = _
    rw [Cells.write_outside _ _ _ (.inl (by rw [hlen]; omega)),
      Cells.write_outside _ _ _ (.inr (by rw [hheader]; decide)),
      Cells.write_outside _ _ _ (.inl (by decide))]
    exact Cells.write_inside _ 26 [msg.dtunit.orderType] Nat.zero_lt_one
  · refine ((lies_write _ 27 _).write_outside (.inr ?_)).write_outside (.inl ?_)
    · rw [hheader]
      decide
    · rw [hunits, hlen]
      omega
  · have hback : (27 : Int) + 23 * q.foreach.length = 26 + (withUnits q msg).dtunitLen := by
      rw [hlen]
      ring
    rw [hback]
    exact lies_write _ _ _

/-! ### Unpacking -/

/-- A date as six bytes give it back. -/
def asBytes (date : Tm) : Tm :=
  { tmSec := (UInt8.ofInt date.tmSec).toNat
    tmMin := (UInt8.ofInt date.tmMin).toNat
    tmHour := (UInt8.ofInt date.tmHour).toNat
    tmMday := (UInt8.ofInt date.tmMday).toNat
    tmMon := (UInt8.ofInt date.tmMon).toNat
    tmYear := (UInt8.ofInt date.tmYear).toNat }

/-- A unit as it comes back: the signal and its percentage are in each other's place, and the time
is that of the header. -/
def cameBack (h : RyMsgHeader) (m : RyDataunit) : RyDataunit :=
  { m with
    rssi := m.rssiPercent.toUInt16
    rssiPercent := m.rssi.toInt16
    occurTime := asBytes h.date }

variable {buf : Cells UInt8} {p : Int}

theorem slice_one {b : UInt8} : Cells.slice buf p 1 = [b] ↔ buf p = b := by
  rw [Cells.slice_succ, Cells.slice_zero, List.cons.injEq]
  exact and_iff_left rfl

theorem pushHtons_length (x : UInt16) : (pushHtons x).length = 2 := rfl

theorem pullDate_of_lies {date : Tm} (h : Lies buf p (datePieces date)) :
    pullDate buf p = asBytes date := by
  simp only [datePieces, lies_cons, List.length_singleton, slice_one, Int.add_assoc] at h
  obtain ⟨h₀, h₁, h₂, h₃, h₄, h₅, -⟩ := h
  ext
  · exact congrArg (fun b : UInt8 => (b.toNat : Int)) h₀
  · exact congrArg (fun b : UInt8 => (b.toNat : Int)) h₁
  · exact congrArg (fun b : UInt8 => (b.toNat : Int)) h₂
  · exact congrArg (fun b : UInt8 => (b.toNat : Int)) h₃
  · exact congrArg (fun b : UInt8 => (b.toNat : Int)) h₄
  · exact congrArg (fun b : UInt8 => (b.toNat : Int)) h₅

theorem pullUnit_of_lies {h : RyMsgHeader} {du : RyMsgDtunit} {m : RyDataunit}
    (hlies : Lies buf p (unitPieces h du m)) :
    pullUnit du.orderType buf p = (du, cameBack h m) := by
  rw [unitPieces, lies_append] at hlies
  obtain ⟨hfields, hdate⟩ := hlies
  simp only [lies_cons, pushHtons_length, List.length_singleton, slice_one, Int.add_assoc,
    ← htons_pullWord_iff] at hfields
  obtain ⟨h₀, h₁, h₂, h₃, h₄, h₅, h₆, h₇, h₈, h₉, -⟩ := hfields
  have htime : pullDate buf (p + 17) = asBytes h.date := pullDate_of_lies hdate
  refine Prod.ext (RyMsgDtunit.ext rfl h₀ h₁) (RyDataunit.ext h₂ ?_ ?_ ?_ h₇ h₆ h₈ h₉ htime)
  · exact h₃
  · exact congrArg UInt16.toInt16 h₄
  · exact congrArg UInt16.toInt16 h₅

/-- All units are pulled. -/
theorem pullUnits_of_lies {h : RyMsgHeader} {du : RyMsgDtunit} (ms : List RyDataunit) :
    ∀ p : Int, Lies buf p (unitsPieces h du ms) →
      pullUnits du.orderType buf ms.length p =
        (ms.map fun m => (du, cameBack h m), p + 23 * ms.length) := by
  induction ms with
  | nil =>
      intro p _
      show ([], p) = ([], p + 23 * ((0 : Nat) : Int))
      rw [Int.natCast_zero, Int.mul_zero, Int.add_zero]
  | cons m ms ih =>
      intro p hlies
      have hcons : unitsPieces h du (m :: ms) = unitPieces h du m ++ unitsPieces h du ms := rfl
      rw [hcons, lies_append, unitPieces_length] at hlies
      have hrest := ih (p + 23) hlies.2
      rw [List.length_cons, pullUnits, hrest, pullUnit_of_lies hlies.1, List.map_cons]
      refine Prod.ext rfl ?_
      show p + 23 + 23 * (ms.length : Int) = p + 23 * ((ms.length + 1 : Nat) : Int)
      push_cast
      ring

theorem dtunitLen_toNat {n : Nat} (hn : n ≤ 15) :
    (UInt16.ofInt (23 * n + 1)).toNat = 23 * n + 1 := by
  interval_cases n <;> rfl

theorem imei_of_slice {imei : Vector UInt8 8} (h : Cells.slice buf p 8 = imei.toList) :
    (Vector.ofFn fun i : Fin 8 => buf (p + (i : Nat))) = imei := by
  refine Vector.ext fun i hi => ?_
  have hget := List.getElem_of_eq h (by rw [Cells.slice_length]; exact hi)
  rw [Cells.slice_getElem, Vector.getElem_toList] at hget
  rw [Vector.getElem_ofFn]
  exact hget

/-- The header is pulled, with what lies behind the data units. -/
theorem pullHeader_of_lies {h : RyMsgHeader} {dtunitLen : Int}
    (hfront : Lies buf 0 (headerPieces h dtunitLen))
    (hback : Lies buf p [[0x99], pushHtons h.hdrPostfix]) :
    pullHeader buf p = { h with date := asBytes h.date, checksum := 0x99 } ∧
      htons (pullWord buf 24) = UInt16.ofInt dtunitLen := by
  rw [headerPieces, lies_append, lies_append] at hfront
  obtain ⟨⟨hmarks, hdate⟩, hrest⟩ := hfront
  have himeiLength : h.imei.toList.length = 8 := h.imei.length_toList
  simp only [lies_cons, pushHtons_length, List.length_singleton, slice_one, himeiLength,
    ← htons_pullWord_iff] at hmarks hrest hback
  obtain ⟨hmark, hversion, -⟩ := hmarks
  obtain ⟨hmanufacturer, himei, hdevType, hcommand, hfAck, hdtunitLen, -⟩ := hrest
  obtain ⟨hchecksum, hending, -⟩ := hback
  exact ⟨RyMsgHeader.ext hmark hending hversion (pullDate_of_lies hdate) hmanufacturer
    (imei_of_slice himei) hdevType hcommand hfAck hchecksum, hdtunitLen⟩

/-- **What comes back** of a message that is built: the number of units, every unit, and all that
the header holds, to the end of the message. -/
theorem Built.unpack {h : RyMsgHeader} {du : RyMsgDtunit} {ms : List RyDataunit}
    {msg : RyMessage} (hbuilt : Built h du ms msg) (hms : ms.length ≤ 15) :
    ryUnpack msg.originalBuf =
      { header := { h with date := asBytes h.date, checksum := 0x99 }
        dataunitNr := ms.length
        units := ms.map fun m => (du, cameBack h m)
        p := msg.originalLen } := by
  obtain ⟨hheader, hdtunitLen⟩ := pullHeader_of_lies hbuilt.front hbuilt.back
  have hlength : (htons (pullWord msg.originalBuf 24)).toNat = 23 * ms.length + 1 :=
    (congrArg UInt16.toNat hdtunitLen).trans (dtunitLen_toNat hms)
  have hne : htons (pullWord msg.originalBuf 24) ≠ 0 := by
    intro hzero
    rw [hzero] at hlength
    exact nomatch hlength
  have hnr : (((htons (pullWord msg.originalBuf 24)).toNat : Int) - 1).tdiv 23 = ms.length := by
    rw [hlength, show ((23 * ms.length + 1 : Nat) : Int) - 1 = 23 * ms.length by omega]
    exact Int.mul_tdiv_cancel_left _ (by decide)
  have hpull : duUnpack ms.length msg.originalBuf 26 =
      (ms.map fun m => (du, cameBack h m), (27 + 23 * ms.length : Int)) := by
    show pullUnits (msg.originalBuf 26) msg.originalBuf _ 27 = _
    rw [hbuilt.order, Int.toNat_natCast]
    exact pullUnits_of_lies ms 27 hbuilt.units
  have hend : (27 : Int) + 23 * ms.length + 3 = msg.originalLen := by
    rw [hbuilt.originalLen]
    ring
  rw [ryUnpack, hnr, if_pos hne, hpull]
  simp only [hheader, hend]

/-! ### The round trip -/

/-- Every number of a date is one that a byte can hold. -/
structure Tm.InBytes (date : Tm) : Prop where
  sec : 0 ≤ date.tmSec ∧ date.tmSec < 256
  min : 0 ≤ date.tmMin ∧ date.tmMin < 256
  hour : 0 ≤ date.tmHour ∧ date.tmHour < 256
  mday : 0 ≤ date.tmMday ∧ date.tmMday < 256
  mon : 0 ≤ date.tmMon ∧ date.tmMon < 256
  year : 0 ≤ date.tmYear ∧ date.tmYear < 256

theorem ofInt_toNat_eq_iff {x : Int} : ((UInt8.ofInt x).toNat : Int) = x ↔ 0 ≤ x ∧ x < 256 := by
  have hbyte : ((UInt8.ofInt x).toNat : Int) = x % 256 := by
    have hnonneg : 0 ≤ x % 256 := Int.emod_nonneg x (by decide)
    have hlt : x % 256 < 256 := Int.emod_lt_of_pos x (by decide)
    rw [UInt8.ofInt, UInt8.toNat_ofNat']
    show (((x % 256).toNat % 256 : Nat) : Int) = x % 256
    omega
  rw [hbyte]
  omega

theorem asBytes_eq_iff {date : Tm} : asBytes date = date ↔ date.InBytes := by
  rw [Tm.ext_iff]
  simp only [asBytes, ofInt_toNat_eq_iff]
  exact ⟨fun ⟨h₀, h₁, h₂, h₃, h₄, h₅⟩ => ⟨h₀, h₁, h₂, h₃, h₄, h₅⟩,
    fun ⟨h₀, h₁, h₂, h₃, h₄, h₅⟩ => ⟨h₀, h₁, h₂, h₃, h₄, h₅⟩⟩

/-- A unit comes back as it is if its signal and its percentage are the same word, and its time is
the one of the header. -/
theorem cameBack_eq_iff {h : RyMsgHeader} {m : RyDataunit} :
    cameBack h m = m ↔ m.rssi = m.rssiPercent.toUInt16 ∧ m.occurTime = asBytes h.date := by
  constructor
  · intro heq
    exact ⟨(congrArg RyDataunit.rssi heq).symm, (congrArg RyDataunit.occurTime heq).symm⟩
  · rintro ⟨hrssi, htime⟩
    refine RyDataunit.ext rfl hrssi.symm ?_ rfl rfl rfl rfl rfl htime.symm
    show m.rssi.toInt16 = m.rssiPercent
    rw [hrssi, Int16.toInt16_toUInt16]

/-- What is unpacked of the message that is packed: as long as it should be, with as many units as
there are in the queue, and all of it as it was, up to the end. -/
def RoundTrip (q : RyQueue) (msg : RyMessage) : Prop :=
  ∃ msg', ryConstrustMsg q msg = some (.etOk, msg') ∧
    msg'.originalLen = 29 + 1 + 23 * q.size ∧ msg'.originalLen ≤ pktSize ∧
      ryUnpack msg'.originalBuf =
        { header := { msg.header with checksum := 0x99 }
          dataunitNr := q.size
          units := q.foreach.map fun m => (msg.dtunit, m)
          p := msg'.originalLen }

/-- The lengths and the number always come out; the rest is as it was if what comes back is. -/
theorem roundTrip_iff_cameBack (q : RyQueue) (msg : RyMessage)
    (horder : msg.dtunit.orderType = orderRpMONITOR) :
    RoundTrip q msg ↔
      asBytes msg.header.date = msg.header.date ∧ ∀ m ∈ q.foreach, cameBack msg.header m = m := by
  obtain ⟨msg', hmsg', hbuilt⟩ := construstMsg_built q msg horder
  have hunpack := hbuilt.unpack (foreach_length_le q)
  rw [foreach_length] at hunpack
  have hlen : msg'.originalLen = 29 + 1 + 23 * q.size := by
    rw [hbuilt.originalLen, foreach_length]
  have hfits : msg'.originalLen ≤ pktSize := by
    have hupper : q.curr < 15 := q.upper
    rw [hlen, RyQueue.size]
    show (29 + 1 + 23 * (q.curr + 1) : Int) ≤ 1024
    omega
  constructor
  · rintro ⟨msg'', hmsg'', -, -, heq⟩
    obtain rfl : msg' = msg'' :=
      (Prod.mk.inj (Option.some_injective _ (hmsg'.symm.trans hmsg''))).2
    rw [hunpack, Unpacked.mk.injEq] at heq
    obtain ⟨hheader, -, hunits, -⟩ := heq
    exact ⟨congrArg RyMsgHeader.date hheader, fun m hm =>
      (Prod.mk.inj (List.map_inj_left.mp hunits m hm)).2⟩
  · rintro ⟨hdate, hsame⟩
    refine ⟨msg', hmsg', hlen, hfits, ?_⟩
    have hunits : (q.foreach.map fun m => (msg.dtunit, cameBack msg.header m)) =
        q.foreach.map fun m => (msg.dtunit, m) :=
      List.map_congr_left fun m hm => by rw [hsame m hm]
    rw [hunpack, hdate, hunits]

/-- **A message of data units is unpacked as it was packed** exactly if every number of the date in
its header fits a byte and every unit has a signal that is the same word as its percentage, and
the time of the header. -/
theorem roundTrip_iff (q : RyQueue) (msg : RyMessage)
    (horder : msg.dtunit.orderType = orderRpMONITOR) :
    RoundTrip q msg ↔
      msg.header.date.InBytes ∧
        ∀ m ∈ q.foreach, m.rssi = m.rssiPercent.toUInt16 ∧ m.occurTime = msg.header.date := by
  rw [roundTrip_iff_cameBack q msg horder]
  refine ⟨fun ⟨hdate, hsame⟩ => ⟨asBytes_eq_iff.mp hdate, fun m hm => ?_⟩,
    fun ⟨hin, hsame⟩ => ?_⟩
  · have hback := cameBack_eq_iff.mp (hsame m hm)
    rwa [hdate] at hback
  · have hdate := asBytes_eq_iff.mpr hin
    exact ⟨hdate, fun m hm => cameBack_eq_iff.mpr (by rw [hdate]; exact hsame m hm)⟩

/-- Half past eight, on a day in 2019. -/
def someDate : Tm := { tmSec := 0, tmMin := 30, tmHour := 8, tmMday := 9, tmMon := 6, tmYear := 19 }

/-- A queue with one unit of that time. -/
def oneUnit (rssi : UInt16) : RyQueue where
  curr := 0
  queue _ :=
    { battLevel := 0x1221, rssi := rssi, rssiPercent := 75, snr := -3, battPercent := 60, ecl := 1
      pressure := 4, sysState := 0, occurTime := someDate }
  lower := by decide
  upper := by decide

/-- A unit whose signal is its percentage comes back. -/
theorem roundTrip_iff_same : RoundTrip (oneUnit 75) (ryMsgCreate orderRpMONITOR someDate) :=
  (roundTrip_iff (oneUnit 75) (ryMsgCreate orderRpMONITOR someDate) rfl).mpr
    ⟨⟨by decide, by decide, by decide, by decide, by decide, by decide⟩, by decide⟩

/-- A unit with a signal of 99 and a percentage of 75 does not. -/
theorem not_roundTrip_swapped :
    ¬RoundTrip (oneUnit 99) (ryMsgCreate orderRpMONITOR someDate) := by
  rw [roundTrip_iff_cameBack _ _ rfl]
  rintro ⟨-, hsame⟩
  have hunit := hsame _ (List.mem_singleton_self _)
  exact absurd (congrArg RyDataunit.rssi hunit) (by decide)

end Awoke.Ry
