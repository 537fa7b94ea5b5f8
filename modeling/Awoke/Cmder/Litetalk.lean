/-
The commands of litetalk that set and get, `cmder.c`.

A SET reads its fields from the payload and puts them into the configuration, a GET
builds a response from the configuration.  The fields of one bit are `Bool`s, so that
storing a byte there keeps its lowest bit.  A SET that divides by zero has no result.

`ltk_isp_get` sends a variable it never sets: `junk` is what it holds.  The work that
`ltk_temp_cap_set` schedules is not part of the state here.
-/
import Awoke.Util.Package

namespace Awoke.Cmder

/-- `struct cmder_config`, the fields the commands use, with the two of
`crossview_point`. -/
structure CmderConfig where
  goalMin : UInt16
  goalMax : UInt16
  expo : UInt32
  expoMin : UInt32
  expoMax : UInt32
  gain : UInt16
  gainMin : UInt16
  gainMax : UInt16
  fps : UInt8
  fpsMin : UInt8
  fpsMax : UInt8
  hinvs : UInt8
  vinvs : UInt8
  aeFrame : UInt8
  tecTarget : Int32
  tecTargetMin : UInt32
  tecTargetMax : UInt32
  iffTh : UInt16
  iffDiv : UInt16
  aeEnable : Bool
  crossviewEnable : Bool
  tecEnable : Bool
  cltestEnable : Bool
  frtestEnable : Bool
  dpcEnable : Bool
  psnuEnable : Bool
  iffEnable : Bool
  gammEn : Bool
  crossviewX : UInt16
  crossviewY : UInt16
  iffparam : UInt32

/-- `struct roi_struct`. -/
structure RoiStruct where
  x : UInt16
  y : UInt16
  w : UInt16
  h : UInt16
  enable : UInt32

/-- `struct uartcmder`, the fields the commands use. -/
structure Uartcmder where
  regaddr : UInt16
  regvalue : UInt8
  config : CmderConfig
  tempCapEn : UInt8
  roi0 : RoiStruct

/-- What a field of one bit keeps of a byte. -/
def bit (b : UInt8) : Bool := b &&& 1 != 0

/-- The value of a field of one bit. -/
def bitValue (b : Bool) : UInt8 := if b then 1 else 0

/-! ### Responses -/

/-- `LITETALK_MARK`. -/
def litetalkMark : UInt32 := 0x13356789

/-- `LITETALK_HEADERLEN`. -/
def litetalkHeaderlen : Nat := 10

/-- `litetalk_pack_header` for a command. -/
def litetalkPackHeader (length : Nat) : List UInt8 :=
  pushHtonl litetalkMark ++ [0, 0] ++ pushHtonl (UInt32.ofNat length)

/-- A response: the header, the type of the command, the code for success and the fields. -/
def response (cmdtype : UInt8) (fields : List UInt8) : List UInt8 :=
  litetalkPackHeader (2 + fields.length) ++ cmdtype :: 0 :: fields

/-! ### The handlers -/

/-- `ltk_sensor_reg_set`. -/
def ltkSensorRegSet (uc : Uartcmder) (payload : Cells UInt8) : Option Uartcmder :=
  some { uc with regaddr := htons (pullWord payload 0), regvalue := payload 2 }

/-- `ltk_sensor_reg_get`. -/
def ltkSensorRegGet (uc : Uartcmder) : List UInt8 :=
  response 5 (pushHtons uc.regaddr ++ [uc.regvalue])

/-- `ltk_exposure_set`.  It reads `goal_max`, `goal_min` and `ae_frame` at 19, 20 and 21
and leaves them there. -/
def ltkExposureSet (uc : Uartcmder) (payload : Cells UInt8) : Option Uartcmder :=
  let cfg := uc.config
  let gain := htons (pullWord payload 0)
  let expo := htonl (pullDwrd payload 6)
  let aeEnable := payload 18
  some { uc with config := { cfg with
    gain := if gain ≠ cfg.gain then gain else cfg.gain
    expo := if expo ≠ cfg.expo then expo else cfg.expo
    aeEnable := if bitValue cfg.aeEnable ≠ aeEnable then bit aeEnable else cfg.aeEnable } }

/-- `ltk_exposure_get`. -/
def ltkExposureGet (uc : Uartcmder) : List UInt8 :=
  let cfg := uc.config
  response 6 (pushHtons cfg.gain ++ pushHtons cfg.gainMin ++ pushHtons cfg.gainMax ++
    pushHtonl cfg.expo ++ pushHtonl cfg.expoMin ++ pushHtonl cfg.expoMax ++
    [bitValue cfg.aeEnable, cfg.goalMax.toUInt8, cfg.goalMin.toUInt8, cfg.aeFrame])

/-- The `fps` of `ltk_display_set`, with the range of `expo` that goes with it. -/
def setFps (cfg : CmderConfig) (fps : UInt8) : Option CmderConfig :=
  if cfg.fps ≠ fps then
    if fps = 0 then none
    else some { cfg with
      fps := fps
      expoMin := 936 / fps.toUInt32 + 7
      expoMax := 936 * 1053 / fps.toUInt32 + 7 }
  else some cfg

/-- `ltk_display_set`.  `fps_min` and `fps_max` at 1 and 2 are read and not used. -/
def ltkDisplaySet (uc : Uartcmder) (payload : Cells UInt8) : Option Uartcmder :=
  let crossCp := htonl (pullDwrd payload 6)
  (setFps uc.config (payload 0)).map fun cfg =>
    { uc with config := { cfg with
      cltestEnable := bit (payload 3)
      frtestEnable := bit (payload 4)
      crossviewEnable := bit (payload 5)
      crossviewX := (crossCp >>> 16).toUInt16
      crossviewY := (crossCp &&& 0xffff).toUInt16
      vinvs := payload 10
      hinvs := payload 11 } }

/-- `ltk_display_get`. -/
def ltkDisplayGet (uc : Uartcmder) : List UInt8 :=
  let cfg := uc.config
  let crossCp := cfg.crossviewX.toUInt32 <<< 16 ||| cfg.crossviewY.toUInt32
  response 7 ([cfg.fps, cfg.fpsMin, cfg.fpsMax, bitValue cfg.cltestEnable,
    bitValue cfg.frtestEnable, bitValue cfg.crossviewEnable] ++ pushHtonl crossCp ++
    [cfg.vinvs, cfg.hinvs])

/-- `ltk_isp_set`.  It reads `gam_en` and `blc_en` at 7 and 8 and leaves them there. -/
def ltkIspSet (uc : Uartcmder) (payload : Cells UInt8) : Option Uartcmder :=
  let cfg := uc.config
  let iffth := htons (pullWord payload 3)
  let iffdiv := htons (pullWord payload 5)
  some { uc with config := { cfg with
    dpcEnable := if bitValue cfg.dpcEnable ≠ payload 0 then payload 0 == 1 else cfg.dpcEnable
    psnuEnable := if bitValue cfg.psnuEnable ≠ payload 1 then payload 1 == 1 else cfg.psnuEnable
    iffEnable := if bitValue cfg.iffEnable ≠ payload 2 then payload 2 == 1 else cfg.iffEnable
    iffTh := if cfg.iffTh ≠ iffth then iffth else cfg.iffTh
    iffDiv := if cfg.iffDiv ≠ iffdiv then iffdiv else cfg.iffDiv } }

/-- `ltk_isp_get`, with what `blc_en` holds. -/
def ltkIspGet (uc : Uartcmder) (junk : UInt8) : List UInt8 :=
  let cfg := uc.config
  let iffth := (cfg.iffparam >>> 16 &&& 0xffff).toUInt16
  let iffdiv := (cfg.iffparam &&& 0xffff).toUInt16
  response 8 ([bitValue cfg.dpcEnable, bitValue cfg.psnuEnable, bitValue cfg.iffEnable] ++
    pushWord iffth ++ pushWord iffdiv ++ [bitValue cfg.gammEn, junk])

/-- `ltk_temp_cap_set`. -/
def ltkTempCapSet (uc : Uartcmder) (payload : Cells UInt8) : Option Uartcmder :=
  let tempCapEn := payload 0
  let tecEn := payload 1
  let target := (payload 2).toUInt32.toInt32
  some { uc with
    tempCapEn := if tempCapEn ≠ uc.tempCapEn then tempCapEn else uc.tempCapEn
    config := { uc.config with
      tecEnable :=
        if tecEn ≠ bitValue uc.config.tecEnable then bit tecEn else uc.config.tecEnable
      tecTarget := if target ≠ uc.config.tecTarget then target else uc.config.tecTarget } }

/-- `ltk_temp_cap_get`. -/
def ltkTempCapGet (uc : Uartcmder) : List UInt8 :=
  let cfg := uc.config
  response 9 [uc.tempCapEn, bitValue cfg.tecEnable, cfg.tecTarget.toUInt32.toUInt8,
    cfg.tecTargetMin.toUInt8, cfg.tecTargetMax.toUInt8]

/-- `ltk_roi0_set`: the words go through variables of 32 bits, whose upper half it never
sets and drops. -/
def ltkRoi0Set (uc : Uartcmder) (payload : Cells UInt8) : Option Uartcmder :=
  some { uc with roi0 :=
    { x := pullWord payload 0
      y := pullWord payload 2
      w := pullWord payload 4
      h := pullWord payload 6
      enable := (payload 8).toUInt32 } }

/-- `ltk_roi0_get`. -/
def ltkRoi0Get (uc : Uartcmder) : List UInt8 :=
  response 12 (pushWord uc.roi0.x ++ pushWord uc.roi0.y ++ pushWord uc.roi0.w ++
    pushWord uc.roi0.h ++ [uc.roi0.enable.toUInt8])

/-! ### The commands -/

/-- The commands that have both handlers. -/
inductive LitetalkCmd
  | sensorReg
  | exposure
  | display
  | isp
  | tempctl
  | roi0
  deriving DecidableEq, Repr

/-- The SET handler of a command. -/
def LitetalkCmd.set : LitetalkCmd → Uartcmder → Cells UInt8 → Option Uartcmder
  | .sensorReg => ltkSensorRegSet
  | .exposure => ltkExposureSet
  | .display => ltkDisplaySet
  | .isp => ltkIspSet
  | .tempctl => ltkTempCapSet
  | .roi0 => ltkRoi0Set

/-- The GET handler of a command. -/
def LitetalkCmd.get : LitetalkCmd → Uartcmder → UInt8 → List UInt8
  | .sensorReg, uc, _ => ltkSensorRegGet uc
  | .exposure, uc, _ => ltkExposureGet uc
  | .display, uc, _ => ltkDisplayGet uc
  | .isp, uc, junk => ltkIspGet uc junk
  | .tempctl, uc, _ => ltkTempCapGet uc
  | .roi0, uc, _ => ltkRoi0Get uc

end Awoke.Cmder
