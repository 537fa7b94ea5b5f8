/-
The history of positions, `gps_infpcomp.c`.

Points that were not stored wait in a queue, the cache, and when a course changes they are copied
to the points to be stored.  `Queue.length` there is `awoke_queue_size`; what the queues answer is
looked at nowhere.
-/
import Awoke.Lib.Search
import Awoke.Lib.WhileLoop
import Awoke.Util.Queue

namespace Awoke.Gps

/-- `gps_point`. -/
structure GpsPoint where
  isInfp : Bool
  history : Bool
  time : Int
  data : UInt8
deriving DecidableEq

instance : Zero GpsPoint := ⟨{ isInfp := false, history := false, time := 0, data := 0 }⟩

/-- `gps_history`. -/
structure GpsHistory where
  locked : Bool
  selectNr : Int
  qCache : Queue GpsPoint

/-- The loop of `history_copy_one` that looks for a later point. -/
def laterIndex (q : Queue GpsPoint) (p : GpsPoint) : Int :=
  match Search.first (fun i => p.time < (q.get i).2.time) 0 q.size.toNat with
  | some i => i - 1
  | none => -1

/-- What `history_copy_one` does with the point it has taken from the cache. -/
def storePoint (q : Queue GpsPoint) (p : GpsPoint) : Queue GpsPoint :=
  if q.empty then (q.enq p).2
  else
    let see := q.last.2
    if see.time = p.time then q
    else if see.time < p.time then (q.enq p).2
    else if 0 < laterIndex q p then (q.insertAfter (laterIndex q p) p).2
    else q

/-- `history_copy_one`. -/
def historyCopyOne (history : GpsHistory) (q : Queue GpsPoint) : GpsHistory × Queue GpsPoint :=
  let (_, p, qCache) := history.qCache.deq
  ({ history with qCache := qCache }, storePoint q p)

/-- What `history_points_copy` does behind its loop. -/
def selectClean (history : GpsHistory) : GpsHistory :=
  if history.qCache.empty ∧ history.selectNr ≠ 0 then { history with selectNr := 0 } else history

/-- `history_points_copy`, in so many turns at most. -/
def historyPointsCopy (n : Nat) (history : GpsHistory) (q : Queue GpsPoint) :
    Option (GpsHistory × Queue GpsPoint) :=
  WhileLoop.run (fun s => !s.2.full && !s.1.qCache.empty)
    (fun s => .next (historyCopyOne s.1 s.2)) (fun s => (selectClean s.1, s.2)) n (history, q)

end Awoke.Gps
