import Jcode.Support.RecordLog
import Jcode.Support.Runs

/-!
# Storage — Files

`write_bytes_inner` and `read_json_with_recovery_handler` of `jcode-storage`, for one path, as they
are on Unix.  A file is replaced by renaming a temporary one over it, and the one before keeps a
second name, the backup, as a hard link.  Any number of calls are under way, in any number of
processes.  Each operation of the file system is a step of its own, which may fail, and a process
that dies takes no more steps.
-/

namespace Jcode.Storage
open RecordLog

/-! ### Files -/

/-- A file; the call `i` of a writer makes `temp i`, and the copy of the reader `j` may make
`restored j`. -/
inductive Inode where
  | original (n : ℕ)
  | temp (i : ℕ)
  | restored (j : ℕ)
  deriving DecidableEq, Repr

/-- The directory, and the data of its files.  The name of a temporary file has the process and a
nonce in it, so that no two calls have the same. -/
structure Dir where
  primary : Option Inode
  backup : Option Inode
  temps : ℕ → Bool
  data : Inode → List UInt8

namespace Dir

def createTemp (d : Dir) (i : ℕ) : Dir :=
  { d with temps := Function.update d.temps i true, data := Function.update d.data (.temp i) [] }

def setData (d : Dir) (inode : Inode) (bytes : List UInt8) : Dir :=
  { d with data := Function.update d.data inode bytes }

theorem setData_data_of_ne {d : Dir} {inode inode' : Inode} (h : inode' ≠ inode) (bytes : List UInt8) :
    (d.setData inode bytes).data inode' = d.data inode' := Function.update_of_ne h _ _

def removeTemp (d : Dir) (i : ℕ) : Dir := { d with temps := Function.update d.temps i false }

/-- `rename`: the file of the call `i` takes the place of the primary one. -/
def rename (d : Dir) (i : ℕ) : Dir := { d.removeTemp i with primary := some (.temp i) }

/-- `fs::copy` of the backup over the primary file, up to `n` bytes of it.  The file is emptied
first, and both names may be of one file. -/
def restore (d : Dir) (j n : ℕ) : Dir :=
  match d.backup with
  | none => d
  | some b =>
      match d.primary with
      | none => { d.setData (.restored j) ((d.data b).take n) with primary := some (.restored j) }
      | some p => d.setData p (if p = b then [] else (d.data b).take n)

end Dir

/-! ### Writing -/

/-- What a call of `write_bytes_inner` does next. -/
inductive Phase where
  | ensureDir
  | create
  | write
  | sync
  | check
  | removeBackup
  | link
  | rename
  | syncDir
  | removeTemp
  | returned (ok : Bool)
  deriving DecidableEq, Repr

structure Write where
  bytes : List UInt8
  durable : Bool
  phase : Phase

/-- The next operation of the call `i`; `ok` is what comes of it. -/
def Write.act (call : Write) (i : ℕ) (ok : Bool) (d : Dir) : Option (Phase × Dir) :=
  match call.phase with
  | .ensureDir => some (if ok then .create else .returned false, d)
  | .create => some (if ok then (.write, d.createTemp i) else (.removeTemp, d))
  | .write =>
      some (if ok then (if call.durable then .sync else .check, d.setData (.temp i) call.bytes)
        else (.removeTemp, d))
  | .sync => some (if ok then .check else .removeTemp, d)
  | .check => some (if ok && d.primary.isSome then .removeBackup else .rename, d)
  | .removeBackup => some (.link, if ok then { d with backup := none } else d)
  | .link => some (.rename, if ok && d.backup.isNone then { d with backup := d.primary } else d)
  | .rename =>
      some (if ok && d.temps i then (if call.durable then .syncDir else .returned true, d.rename i)
        else (.removeTemp, d))
  | .syncDir => some (.returned true, d)
  | .removeTemp => some (.returned false, if ok then d.removeTemp i else d)
  | .returned _ => none

/-! ### Reading -/

inductive ReadError where
  | notFound
  | io
  | corrupt
  | bothCorrupt
  deriving DecidableEq, Repr

/-- `serde_json`, for the values of one type. -/
structure Format (α : Type) where
  toVec : α → List UInt8
  fromStr : List Char → Option α
  /-- What is written is read back. -/
  roundTrip : ∀ value, ∃ text, fromUtf8 (toVec value) = some text ∧ fromStr text = some value

variable {α : Type} (format : Format α)

/-- `read_to_string`, and then `from_str`. -/
def Format.parse (bytes : List UInt8) : Except ReadError α :=
  match fromUtf8 bytes with
  | none => .error .io
  | some text =>
      match format.fromStr text with
      | some value => .ok value
      | none => .error .corrupt

/-- What a call of `read_json` does next. -/
inductive Read (α : Type) where
  | checkBackup
  | readBackup
  | restore (value : α)
  | returned (result : Except ReadError α)

/-- The next operation of the reader `j`, which first reads the file; `n` is how far the copy of the
backup gets. -/
def readStep (j : ℕ) (ok : Bool) (n : ℕ) (d : Dir) : Option (Read α) → Option (Read α × Dir)
  | none =>
      some (match d.primary with
        | none => .returned (.error .notFound)
        | some p =>
            if ok then
              match format.parse (d.data p) with
              | .error .corrupt => .checkBackup
              | result => .returned result
            else .returned (.error .io), d)
  | some .checkBackup =>
      some (if ok && d.backup.isSome then .readBackup else .returned (.error .corrupt), d)
  | some .readBackup =>
      some (match d.backup with
        | none => .returned (.error .notFound)
        | some b =>
            if ok then
              match format.parse (d.data b) with
              | .ok value => .restore value
              | .error .corrupt => .returned (.error .bothCorrupt)
              | .error e => .returned (.error e)
            else .returned (.error .io), d)
  | some (.restore value) => some (.returned (.ok value), if ok then d.restore j n else d)
  | some (.returned _) => none

/-! ### Steps -/

structure State (α : Type) where
  dir : Dir
  writes : ℕ → Option Write
  reads : ℕ → Option (Read α)

inductive Event (α : Type) where
  /-- The call `i` of `write_json` (`durable`) or `write_json_fast`. -/
  | write (i : ℕ) (value : α) (durable : Bool)
  /-- A part of its bytes is in the temporary file. -/
  | part (i n : ℕ)
  | act (i : ℕ) (ok : Bool)
  | read (j : ℕ) (ok : Bool) (n : ℕ)

def step (s : State α) : Event α → Option (State α)
  | .write i value durable =>
      match s.writes i with
      | none =>
          let call : Write := ⟨format.toVec value, durable, .ensureDir⟩
          some { s with writes := Function.update s.writes i (some call) }
      | some _ => none
  | .part i n =>
      match s.writes i with
      | some call =>
          if call.phase = .write then
            some { s with dir := s.dir.setData (.temp i) (call.bytes.take n) }
          else none
      | none => none
  | .act i ok =>
      (s.writes i).bind fun call => (call.act i ok s.dir).map fun (phase, dir) =>
        { s with dir, writes := Function.update s.writes i (some { call with phase }) }
  | .read j ok n =>
      (readStep format j ok n s.dir (s.reads j)).map fun (read, dir) =>
        { s with dir, reads := Function.update s.reads j (some read) }

end Jcode.Storage
