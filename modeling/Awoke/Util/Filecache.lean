/-
The file a log is written to and its cache files, `awoke_log.c` and `bk_filecache.c`.

The log goes to one file.  When that has reached `maxsize` bytes it becomes the cache file
`name.1`, and each cache file before it moves on by one number.  What cache files there are
is also kept in memory, as a list and a counter, which a restart has to find again.

The two source files have the same functions under two names; they are here once, with the
two configurations.  They differ in their log lines, which are left out: `filecahce_init` of
`bk_filecache.c` prints "file:%s exist" and "file:%s not exist" without the name, so that where
these lines are shown it reads an argument that was not passed.  Memory for an item is always
found, and files can be opened and moved.
-/
import Mathlib.Data.UInt
import Mathlib.Logic.Function.Basic
import Mathlib.Tactic.Ring

namespace Awoke.Filecache

/-! ### Files -/

/-- What is in the files: `0` is the log itself, `k` the cache file `name.k`. -/
abbrev Files := Nat → Option (List UInt8)

/-- `rename`, which fails where there is no file to rename. -/
def rename (fs : Files) (old new : Nat) : Files :=
  match fs old with
  | none => fs
  | some content => Function.update (Function.update fs old none) new (some content)

/-- `remove`. -/
def remove (fs : Files) (k : Nat) : Files := Function.update fs k none

/-- `log_file_exist`. -/
def logFileExist (fs : Files) (k : Nat) : Bool := (fs k).isSome

/-- `log_file_size`: `-1` for no file, and otherwise the size in an `int`. -/
def logFileSize (fs : Files) (k : Nat) : Int :=
  match fs k with
  | none => -1
  | some content => (content.length : Int).bmod (2 ^ 32)

/-! ### Cache files -/

/-- `struct _hqlog_filecache`; the items of `caches` by their ids. -/
structure LogFilecache where
  maxsize : Int
  cachemax : Nat
  cachenum : Nat := 0
  caches : List Nat := []
  initFinish : Bool := false
  deriving DecidableEq

/-- The one in `logctx`. -/
def logctxFc : LogFilecache := { maxsize := 8 * 1024, cachemax := 3 }

/-- The one in `bk_filecache.c`. -/
def filecache : LogFilecache := { maxsize := 64 * 1024, cachemax := 3 }

/-- `log_filecahce_item_add`. -/
def logFilecahceItemAdd (fc : LogFilecache) (fs : Files) (id : Nat) : LogFilecache × Files :=
  ({ fc with caches := fc.caches ++ [id], cachenum := fc.cachenum + 1 }, rename fs 0 id)

/-- The loop of `log_filecahce_init`, from `i` down to `1`. -/
def initLoop : Nat → LogFilecache → Files → LogFilecache × Files
  | 0, fc, fs => (fc, fs)
  | i + 1, fc, fs =>
      if logFileExist fs (i + 1) then
        let r := logFilecahceItemAdd fc fs (i + 1)
        initLoop i r.1 r.2
      else
        initLoop i fc fs

/-- `log_filecahce_init`. -/
def logFilecahceInit (fc : LogFilecache) (fs : Files) : LogFilecache × Files :=
  let r := initLoop fc.cachemax { fc with caches := [] } fs
  ({ r.1 with initFinish := true }, r.2)

/-- `log_filecache_full`. -/
def logFilecacheFull (fc : LogFilecache) (fs : Files) : Bool := logFileSize fs 0 ≥ fc.maxsize

/-- The loop of `log_filecahce_update` over the list, on the files. -/
def moveAll : List Nat → Files → Files
  | [], fs => fs
  | id :: ids, fs => moveAll ids (rename fs id (id + 1))

/-- The removal in `log_filecahce_update`.  Of an empty list it would free the list's head. -/
def removeLast (fc : LogFilecache) (fs : Files) : Option (LogFilecache × Files) :=
  if fc.cachenum ≥ fc.cachemax then
    match fc.caches with
    | [] => none
    | id :: ids => some ({ fc with caches := ids }, remove fs id)
  else
    some (fc, fs)

/-- `log_filecahce_update`. -/
def logFilecahceUpdate (fc : LogFilecache) (fs : Files) : Option (LogFilecache × Files) :=
  (removeLast fc fs).map fun r =>
    logFilecahceItemAdd { r.1 with caches := r.1.caches.map (· + 1) } (moveAll r.1.caches r.2) 1

/-- `log_filecache_write`: the file is opened to append, and made if there is none. -/
def logFilecacheWrite (fs : Files) (message : List UInt8) : Files :=
  Function.update fs 0 (some ((fs 0).getD [] ++ message))

/-- `awoke_log_file_write`, first part: what was there at the start is looked up once. -/
def checkInit (fc : LogFilecache) (fs : Files) : LogFilecache × Files :=
  if fc.initFinish then (fc, fs) else logFilecahceInit fc fs

/-- The second: a full log goes to the cache files. -/
def checkFull (fc : LogFilecache) (fs : Files) : Option (LogFilecache × Files) :=
  if logFilecacheFull fc fs then logFilecahceUpdate fc fs else some (fc, fs)

/-- `awoke_log_file_write`; `bk_filecache_write` is the same. -/
def awokeLogFileWrite (fc : LogFilecache) (fs : Files) (message : List UInt8) :
    Option (LogFilecache × Files) :=
  let r := checkInit fc fs
  (checkFull r.1 r.2).map fun r => (r.1, logFilecacheWrite r.2 message)

/-! ### Runs -/

/-- The memory and the files, with everything that was ever logged. -/
structure Log where
  fc : LogFilecache
  files : Files
  logged : List UInt8

/-- A message to log, after a restart of the program or not. -/
structure Write where
  restart : Bool
  message : List UInt8
  deriving DecidableEq

/-- What the program starts with. -/
def LogFilecache.fresh (fc : LogFilecache) : LogFilecache :=
  { maxsize := fc.maxsize, cachemax := fc.cachemax }

/-- The memory a write finds. -/
def Log.memory (s : Log) (w : Write) : LogFilecache := if w.restart then s.fc.fresh else s.fc

/-- One write. -/
def Log.step (s : Log) (w : Write) : Option (Log × Unit) :=
  (awokeLogFileWrite (s.memory w) s.files w.message).map fun r =>
    ({ fc := r.1, files := r.2, logged := s.logged ++ w.message }, ())

end Awoke.Filecache
