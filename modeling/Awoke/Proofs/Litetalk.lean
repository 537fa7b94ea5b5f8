/-
A SET and the GET that follows.

The fields of a command are those its SET reads, range limits aside, each at its place
in the payload; the response has the same layout behind the header, the type and the
code.  `Kept` says for every field when the response has the bytes of the payload there:
always, when a byte for a field of one bit is a bit, or when what a GET sends instead of
the field happens to be the same.

`set_get_iff` puts the fields of a command together, for whichever of them are asked for.
-/
import Awoke.Cmder.Litetalk
import Awoke.Proofs.Package

namespace Awoke

namespace Cmder

theorem cross_halves (x : UInt32) :
    (x >>> 16).toUInt16.toUInt32 <<< 16 ||| (x &&& 0xffff).toUInt16.toUInt32 = x := by
  apply UInt32.eq_of_toBitVec_eq
  apply BitVec.eq_of_getLsbD_eq
  intro i hi
  simp only [UInt32.toBitVec_or, UInt32.toBitVec_shiftLeft, UInt16.toBitVec_toUInt32,
    UInt32.toBitVec_toUInt16, UInt32.toBitVec_shiftRight, UInt32.toBitVec_and,
    UInt32.toBitVec_ofNat]
  interval_cases i <;> simp

/-- The halves of `iffparam` are pushed low byte first. -/
theorem iff_bytes (x : UInt32) :
    (x >>> 16 &&& 0xffff).toUInt16.toUInt8 = (x >>> 16).toUInt8 ∧
      ((x >>> 16 &&& 0xffff).toUInt16 >>> 8).toUInt8 = (x >>> 24).toUInt8 ∧
      (x &&& 0xffff).toUInt16.toUInt8 = x.toUInt8 ∧
      ((x &&& 0xffff).toUInt16 >>> 8).toUInt8 = (x >>> 8).toUInt8 := by
  refine ⟨?_, ?_, ?_, ?_⟩
  all_goals
    apply UInt8.eq_of_toBitVec_eq
    apply BitVec.eq_of_getLsbD_eq
    intro i hi
    simp only [UInt16.toBitVec_toUInt8, UInt16.toBitVec_shiftRight, UInt32.toBitVec_toUInt16,
      UInt32.toBitVec_toUInt8, UInt32.toBitVec_and, UInt32.toBitVec_shiftRight,
      UInt32.toBitVec_ofNat]
    interval_cases i <;> simp

/-! ### Fields -/

/-- The fields of the commands. -/
inductive LitetalkField : LitetalkCmd → Type
  | regaddr : LitetalkField .sensorReg
  | regvalue : LitetalkField .sensorReg
  | gain : LitetalkField .exposure
  | expo : LitetalkField .exposure
  | aeEnable : LitetalkField .exposure
  | goalMax : LitetalkField .exposure
  | goalMin : LitetalkField .exposure
  | aeFrame : LitetalkField .exposure
  | fps : LitetalkField .display
  | clTest : LitetalkField .display
  | frontTest : LitetalkField .display
  | crossEn : LitetalkField .display
  | crossCp : LitetalkField .display
  | vinvs : LitetalkField .display
  | hinvs : LitetalkField .display
  | dpcEn : LitetalkField .isp
  | psnuEn : LitetalkField .isp
  | iffEn : LitetalkField .isp
  | iffth : LitetalkField .isp
  | iffdiv : LitetalkField .isp
  | gamEn : LitetalkField .isp
  | blcEn : LitetalkField .isp
  | tempCapEn : LitetalkField .tempctl
  | tecEn : LitetalkField .tempctl
  | target : LitetalkField .tempctl
  | x : LitetalkField .roi0
  | y : LitetalkField .roi0
  | w : LitetalkField .roi0
  | h : LitetalkField .roi0
  | enable : LitetalkField .roi0

namespace LitetalkField

variable {cmd : LitetalkCmd}

/-- Where the SET handler reads the field, and how many bytes. -/
def place : LitetalkField cmd → Nat × Nat
  | .regaddr => (0, 2)
  | .regvalue => (2, 1)
  | .gain => (0, 2)
  | .expo => (6, 4)
  | .aeEnable => (18, 1)
  | .goalMax => (19, 1)
  | .goalMin => (20, 1)
  | .aeFrame => (21, 1)
  | .fps => (0, 1)
  | .clTest => (3, 1)
  | .frontTest => (4, 1)
  | .crossEn => (5, 1)
  | .crossCp => (6, 4)
  | .vinvs => (10, 1)
  | .hinvs => (11, 1)
  | .dpcEn => (0, 1)
  | .psnuEn => (1, 1)
  | .iffEn => (2, 1)
  | .iffth => (3, 2)
  | .iffdiv => (5, 2)
  | .gamEn => (7, 1)
  | .blcEn => (8, 1)
  | .tempCapEn => (0, 1)
  | .tecEn => (1, 1)
  | .target => (2, 1)
  | .x => (0, 2)
  | .y => (2, 2)
  | .w => (4, 2)
  | .h => (6, 2)
  | .enable => (8, 1)

/-- The bytes of the field in a payload. -/
def sent (f : LitetalkField cmd) (payload : Cells UInt8) : List UInt8 :=
  Cells.slice payload f.place.1 f.place.2

/-- The bytes of the field in a response. -/
def returned (f : LitetalkField cmd) (response : List UInt8) : List UInt8 :=
  (response.drop (litetalkHeaderlen + 2 + f.place.1)).take f.place.2

/-- When the response has the bytes of the payload. -/
def Kept (uc : Uartcmder) (payload : Cells UInt8) (junk : UInt8) : LitetalkField cmd → Prop
  | .aeEnable => payload 18 ≤ 1
  | .goalMax => payload 19 = uc.config.goalMax.toUInt8
  | .goalMin => payload 20 = uc.config.goalMin.toUInt8
  | .aeFrame => payload 21 = uc.config.aeFrame
  | .clTest => payload 3 ≤ 1
  | .frontTest => payload 4 ≤ 1
  | .crossEn => payload 5 ≤ 1
  | .dpcEn => payload 0 ≤ 1
  | .psnuEn => payload 1 ≤ 1
  | .iffEn => payload 2 ≤ 1
  | .iffth => payload 3 = (uc.config.iffparam >>> 16).toUInt8 ∧
      payload 4 = (uc.config.iffparam >>> 24).toUInt8
  | .iffdiv => payload 5 = uc.config.iffparam.toUInt8 ∧
      payload 6 = (uc.config.iffparam >>> 8).toUInt8
  | .gamEn => payload 7 = bitValue uc.config.gammEn
  | .blcEn => payload 8 = junk
  | .tecEn => payload 1 ≤ 1
  | _ => True

end LitetalkField

/-! ### Storing a value -/

theorem store_ne {α : Type} [DecidableEq α] (old new : α) :
    (if new ≠ old then new else old) = new := by
  split
  · rfl
  · rename_i h
    exact (not_not.mp h).symm

theorem bitValue_bit (b : UInt8) : bitValue (bit b) = b ↔ b ≤ 1 := by
  have hand : (b &&& 1).toNat = b.toNat % 2 := by
    rw [UInt8.toNat_and]
    exact Nat.and_one_is_mod _
  rw [← UInt8.toNat_inj, UInt8.le_iff_toNat_le]
  unfold bit bitValue
  by_cases hzero : b &&& 1 = 0
  · rw [hzero] at hand
    simp [hzero] at hand ⊢
    omega
  · have hne : (b &&& 1).toNat ≠ 0 := fun h => hzero (UInt8.toNat_inj.mp h)
    simp [hzero]
    omega

theorem bitValue_le (b : Bool) : bitValue b ≤ 1 := by
  cases b <;> decide

theorem bitValue_store (old : Bool) (b : UInt8) :
    bitValue (if bitValue old ≠ b then bit b else old) = b ↔ b ≤ 1 := by
  split
  · exact bitValue_bit b
  · rename_i h
    rw [not_not.mp h]
    exact iff_of_true rfl (not_not.mp h ▸ bitValue_le old)

theorem bitValue_store' (old : Bool) (b : UInt8) :
    bitValue (if b ≠ bitValue old then bit b else old) = b ↔ b ≤ 1 := by
  rw [← bitValue_store old b]
  simp only [ne_comm]

theorem bitValue_store_one (old : Bool) (b : UInt8) :
    bitValue (if bitValue old ≠ b then b == 1 else old) = b ↔ b ≤ 1 := by
  split
  · rw [← UInt8.toNat_inj, UInt8.le_iff_toNat_le]
    by_cases hone : b = 1
    · rw [hone]
      decide
    · have hne : b.toNat ≠ 1 := fun h => hone (UInt8.toNat_inj.mp h)
      simp [bitValue, hone]
      omega
  · rename_i h
    rw [not_not.mp h]
    exact iff_of_true rfl (not_not.mp h ▸ bitValue_le old)

/-! ### A field after SET and GET -/

namespace LitetalkField

variable {cmd : LitetalkCmd}

theorem returned_response (f : LitetalkField cmd) (cmdtype : UInt8) (fields : List UInt8) :
    f.returned (response cmdtype fields) = (fields.drop f.place.1).take f.place.2 := by
  have hdrop : (response cmdtype fields).drop (litetalkHeaderlen + 2 + f.place.1) =
      fields.drop f.place.1 := by
    rw [← List.drop_drop]
    rfl
  rw [returned, hdrop]

theorem singleton_iff {a b : UInt8} {p : Prop} (h : a = b ↔ p) : [a] = [b] ↔ p :=
  List.singleton_inj.trans h

theorem pair_iff {a b c d : UInt8} : [a, b] = [c, d] ↔ c = a ∧ d = b := by
  rw [List.cons.injEq, List.singleton_inj, eq_comm, @eq_comm _ b]

variable (uc : Uartcmder) (payload : Cells UInt8) (junk : UInt8)

theorem sensorReg_back (f : LitetalkField .sensorReg) {uc' : Uartcmder}
    (h : ltkSensorRegSet uc payload = some uc') :
    f.returned (ltkSensorRegGet uc') = f.sent payload ↔ f.Kept uc payload junk := by
  obtain rfl := Option.some.inj h
  rw [ltkSensorRegGet, returned_response]
  simp only [pushHtons_htons_pullWord]
  cases f with
  | regaddr => exact iff_of_true rfl trivial
  | regvalue => exact iff_of_true rfl trivial

theorem exposure_back (f : LitetalkField .exposure) {uc' : Uartcmder}
    (h : ltkExposureSet uc payload = some uc') :
    f.returned (ltkExposureGet uc') = f.sent payload ↔ f.Kept uc payload junk := by
  obtain rfl := Option.some.inj h
  rw [ltkExposureGet, returned_response]
  simp only [store_ne, pushHtons_htons_pullWord, pushHtonl_htonl_pullDwrd]
  cases f with
  | gain => exact iff_of_true rfl trivial
  | expo => exact iff_of_true rfl trivial
  | aeEnable => exact singleton_iff (bitValue_store _ _)
  | goalMax => exact singleton_iff eq_comm
  | goalMin => exact singleton_iff eq_comm
  | aeFrame => exact singleton_iff eq_comm

/-- The frame rate is stored unless that takes a division by zero. -/
theorem setFps_eq_none (cfg : CmderConfig) (fps : UInt8) :
    setFps cfg fps = none ↔ fps = 0 ∧ cfg.fps ≠ 0 := by
  unfold setFps
  by_cases hdiff : cfg.fps = fps
  · rw [if_neg (not_not.mpr hdiff)]
    exact iff_of_false (Option.some_ne_none _) fun h => h.2 (hdiff.trans h.1)
  · rw [if_pos hdiff]
    by_cases hzero : fps = 0
    · rw [if_pos hzero]
      exact iff_of_true rfl ⟨hzero, fun h => hdiff (h.trans hzero.symm)⟩
    · rw [if_neg hzero]
      exact iff_of_false (Option.some_ne_none _) fun h => hzero h.1

theorem setFps_fps {cfg cfg' : CmderConfig} {fps : UInt8} (h : setFps cfg fps = some cfg') :
    cfg'.fps = fps := by
  unfold setFps at h
  by_cases hdiff : cfg.fps = fps
  · rw [if_neg (not_not.mpr hdiff)] at h
    rw [← Option.some.inj h]
    exact hdiff
  · rw [if_pos hdiff] at h
    by_cases hzero : fps = 0
    · rw [if_pos hzero] at h
      exact nomatch h
    · rw [if_neg hzero] at h
      rw [← Option.some.inj h]

theorem display_back (f : LitetalkField .display) {uc' : Uartcmder}
    (h : ltkDisplaySet uc payload = some uc') :
    f.returned (ltkDisplayGet uc') = f.sent payload ↔ f.Kept uc payload junk := by
  obtain ⟨cfg, hcfg, rfl⟩ := Option.map_eq_some_iff.mp h
  have hfps := setFps_fps hcfg
  rw [ltkDisplayGet, returned_response]
  simp only [cross_halves, pushHtonl_htonl_pullDwrd, hfps]
  cases f with
  | fps => exact iff_of_true rfl trivial
  | clTest => exact singleton_iff (bitValue_bit _)
  | frontTest => exact singleton_iff (bitValue_bit _)
  | crossEn => exact singleton_iff (bitValue_bit _)
  | crossCp => exact iff_of_true rfl trivial
  | vinvs => exact iff_of_true rfl trivial
  | hinvs => exact iff_of_true rfl trivial

theorem isp_back (f : LitetalkField .isp) {uc' : Uartcmder}
    (h : ltkIspSet uc payload = some uc') :
    f.returned (ltkIspGet uc' junk) = f.sent payload ↔ f.Kept uc payload junk := by
  obtain ⟨hth₀, hth₁, hdiv₀, hdiv₁⟩ := iff_bytes uc.config.iffparam
  obtain rfl := Option.some.inj h
  rw [ltkIspGet, returned_response]
  simp only [pushWord, hth₀, hth₁, hdiv₀, hdiv₁]
  cases f with
  | dpcEn => exact singleton_iff (bitValue_store_one _ _)
  | psnuEn => exact singleton_iff (bitValue_store_one _ _)
  | iffEn => exact singleton_iff (bitValue_store_one _ _)
  | iffth => exact pair_iff
  | iffdiv => exact pair_iff
  | gamEn => exact singleton_iff eq_comm
  | blcEn => exact singleton_iff eq_comm

theorem tempctl_back (f : LitetalkField .tempctl) {uc' : Uartcmder}
    (h : ltkTempCapSet uc payload = some uc') :
    f.returned (ltkTempCapGet uc') = f.sent payload ↔ f.Kept uc payload junk := by
  obtain rfl := Option.some.inj h
  rw [ltkTempCapGet, returned_response]
  simp only [store_ne]
  cases f with
  | tempCapEn => exact iff_of_true rfl trivial
  | tecEn => exact singleton_iff (bitValue_store' _ _)
  | target =>
      refine iff_of_true (congrArg (fun b => [b]) ?_) trivial
      show (payload 2).toUInt32.toInt32.toUInt32.toUInt8 = payload 2
      simp

theorem roi0_back (f : LitetalkField .roi0) {uc' : Uartcmder}
    (h : ltkRoi0Set uc payload = some uc') :
    f.returned (ltkRoi0Get uc') = f.sent payload ↔ f.Kept uc payload junk := by
  obtain rfl := Option.some.inj h
  rw [ltkRoi0Get, returned_response]
  simp only [pushWord_pullWord, UInt8.toUInt8_toUInt32]
  cases f with
  | x => exact iff_of_true rfl trivial
  | y => exact iff_of_true rfl trivial
  | w => exact iff_of_true rfl trivial
  | h => exact iff_of_true rfl trivial
  | enable => exact iff_of_true rfl trivial

end LitetalkField

/-! ### SET and GET -/

namespace LitetalkCmd

/-- When the SET handler gets to its end. -/
def Completes : LitetalkCmd → Uartcmder → Cells UInt8 → Prop
  | .display, uc, payload => payload 0 = 0 → uc.config.fps = 0
  | _, _, _ => True

variable (cmd : LitetalkCmd) (uc : Uartcmder) (payload : Cells UInt8) (junk : UInt8)

theorem set_eq_none_iff : cmd.set uc payload = none ↔ ¬cmd.Completes uc payload := by
  cases cmd with
  | display =>
      show Option.map _ _ = none ↔ _
      rw [Option.map_eq_none_iff, LitetalkField.setFps_eq_none]
      exact (Classical.not_imp).symm
  | sensorReg => exact iff_of_false (Option.some_ne_none _) (not_not.mpr trivial)
  | exposure => exact iff_of_false (Option.some_ne_none _) (not_not.mpr trivial)
  | isp => exact iff_of_false (Option.some_ne_none _) (not_not.mpr trivial)
  | tempctl => exact iff_of_false (Option.some_ne_none _) (not_not.mpr trivial)
  | roi0 => exact iff_of_false (Option.some_ne_none _) (not_not.mpr trivial)

/-- **One field**: the GET after a SET gives it back exactly when it is kept. -/
theorem back_iff_kept {cmd : LitetalkCmd} {uc uc' : Uartcmder} {payload : Cells UInt8}
    (h : cmd.set uc payload = some uc') (f : LitetalkField cmd) :
    f.returned (cmd.get uc' junk) = f.sent payload ↔ f.Kept uc payload junk := by
  cases cmd with
  | sensorReg => exact f.sensorReg_back uc payload junk h
  | exposure => exact f.exposure_back uc payload junk h
  | display => exact f.display_back uc payload junk h
  | isp => exact f.isp_back uc payload junk h
  | tempctl => exact f.tempctl_back uc payload junk h
  | roi0 => exact f.roi0_back uc payload junk h

/-- The SET handler gets to its end, and the GET that follows gives the fields back. -/
def SetGet (fields : List (LitetalkField cmd)) : Prop :=
  ∃ uc', cmd.set uc payload = some uc' ∧
    ∀ f ∈ fields, f.returned (cmd.get uc' junk) = f.sent payload

/-- **SET and GET.**  Whichever fields are asked for, they come back exactly when the SET
handler gets to its end and every one of them is kept. -/
theorem set_get_iff (fields : List (LitetalkField cmd)) :
    cmd.SetGet uc payload junk fields ↔
      cmd.Completes uc payload ∧ ∀ f ∈ fields, f.Kept uc payload junk := by
  constructor
  · rintro ⟨uc', hset, hall⟩
    refine ⟨?_, fun f hf => (back_iff_kept junk hset f).mp (hall f hf)⟩
    by_contra hnot
    rw [← set_eq_none_iff, hset] at hnot
    exact nomatch hnot
  · rintro ⟨hcompletes, hkept⟩
    cases hset : cmd.set uc payload with
    | none => exact absurd hcompletes ((set_eq_none_iff cmd uc payload).mp hset)
    | some uc' => exact ⟨uc', hset, fun f hf => (back_iff_kept junk hset f).mpr (hkept f hf)⟩

/-- The fields of a command. -/
def fields : (cmd : LitetalkCmd) → List (LitetalkField cmd)
  | .sensorReg => [.regaddr, .regvalue]
  | .exposure => [.gain, .expo, .aeEnable, .goalMax, .goalMin, .aeFrame]
  | .display => [.fps, .clTest, .frontTest, .crossEn, .crossCp, .vinvs, .hinvs]
  | .isp => [.dpcEn, .psnuEn, .iffEn, .iffth, .iffdiv, .gamEn, .blcEn]
  | .tempctl => [.tempCapEn, .tecEn, .target]
  | .roi0 => [.x, .y, .w, .h, .enable]

/-- A configuration that is all zero. -/
def zeroConfig : CmderConfig :=
  { goalMin := 0, goalMax := 0, expo := 0, expoMin := 0, expoMax := 0, gain := 0, gainMin := 0,
    gainMax := 0, fps := 0, fpsMin := 0, fpsMax := 0, hinvs := 0, vinvs := 0, aeFrame := 0,
    tecTarget := 0, tecTargetMin := 0, tecTargetMax := 0, iffTh := 0, iffDiv := 0,
    aeEnable := false, crossviewEnable := false, tecEnable := false, cltestEnable := false,
    frtestEnable := false, dpcEnable := false, psnuEnable := false, iffEnable := false,
    gammEn := false, crossviewX := 0, crossviewY := 0, iffparam := 0 }

/-- With nothing else set either. -/
def zeroCmder : Uartcmder :=
  { regaddr := 0
    regvalue := 0
    config := zeroConfig
    tempCapEn := 0
    roi0 := { x := 0, y := 0, w := 0, h := 0, enable := 0 } }

/-- A threshold of 1 that was set reads 0. -/
theorem isp_threshold_lost :
    ¬isp.SetGet zeroCmder (fun i => if i = 4 then 1 else 0) 0 isp.fields := by
  rintro ⟨uc', hset, hall⟩
  have hback := hall .iffth (by simp [fields])
  rw [back_iff_kept 0 hset] at hback
  exact absurd hback.2 (by decide)

end LitetalkCmd

end Cmder

end Awoke
