/-
The feedback flow, `bk_fbkflow.c`.

A flow waits for the events of a round, one after the other, and updates after the last of them.
Events are bits that gather between two runs, and a run takes all of them, whatever it waits for.

The flow is one that waits by itself, so `wait` is null as `bk_fbkflow_init` leaves it, and has an
`update`, which leaves the flow alone; what `update` returns comes with the run.
-/
import Awoke.Error

namespace Awoke.Fbkflow

/-- `fbkflow_state`. -/
inductive FbkflowState
  | init
  | idle
  | set
  | expo
  | frame
  deriving DecidableEq, Repr

/-- `FBKFLOW_F_ENABLE`. -/
def flagEnable : BitVec 16 := 0x0001

/-- `FBKFLOW_E_SET`. -/
def eventSet : BitVec 32 := 0x00000001

/-- `FBKFLOW_E_EXPO`. -/
def eventExpo : BitVec 32 := 0x00000002

/-- `FBKFLOW_E_FRAME`. -/
def eventFrame : BitVec 32 := 0x00000004

/-- `struct _bk_feedback_flow`. -/
structure Flow where
  state : FbkflowState
  flags : BitVec 16
  event : BitVec 32
  deriving DecidableEq

/-- `bk_fbkflow_init`. -/
def bkFbkflowInit (enable : Bool) : Flow where
  state := .init
  flags := if enable then maskPush 0 flagEnable else 0
  event := 0

/-- The `switch` of `fbkflow_wait`: what it finds valid, and the state it goes on in. -/
def fbkflowSwitch (flow : Flow) : Bool × FbkflowState :=
  match flow.state with
  | .init => (true, .idle)
  | .idle => (false, if maskExst flow.event eventSet then .set else .idle)
  | .set => (false, if maskExst flow.event eventExpo then .expo else .set)
  | .expo => (false, if maskExst flow.event eventFrame then .frame else .expo)
  | .frame => (true, .idle)

/-- `fbkflow_wait`. -/
def fbkflowWait (flow : Flow) : Bool × Flow :=
  ((fbkflowSwitch flow).1, { flow with state := (fbkflowSwitch flow).2, event := 0 })

/-- `bk_fbkflow_run`, where `update` returns `updateRet`: its code, and whether it updates. -/
def bkFbkflowRun (flow : Flow) (updateRet : ErrType) : Flow × ErrType × Bool :=
  if maskExst flow.flags flagEnable then
    let (vaild, flow) := fbkflowWait flow
    (flow, if vaild then updateRet else .etOk, vaild)
  else (flow, .etOk, false)

/-- `bk_fbkflow_enable`. -/
def bkFbkflowEnable (flow : Flow) (enable : Bool) : Flow :=
  if enable then { flow with flags := maskPush flow.flags flagEnable }
  else { state := .init, flags := maskPull flow.flags flagEnable, event := 0 }

/-- `bk_fbkflow_notify`. -/
def bkFbkflowNotify (flow : Flow) (event : BitVec 32) : Flow :=
  if maskExst flow.flags flagEnable then { flow with event := maskPush flow.event event }
  else flow

/-- A call from outside. -/
inductive Call
  | enable (on : Bool)
  | notify (event : BitVec 32)
  | run (updateRet : ErrType)
  deriving DecidableEq

/-- One call, and whether it updates. -/
def Flow.call (flow : Flow) : Call → Flow × Bool
  | .enable on => (bkFbkflowEnable flow on, false)
  | .notify event => (bkFbkflowNotify flow event, false)
  | .run updateRet =>
      let (flow, _, updated) := bkFbkflowRun flow updateRet
      (flow, updated)

end Awoke.Fbkflow
