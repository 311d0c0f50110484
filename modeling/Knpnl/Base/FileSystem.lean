import Knpnl.Base.Buffer

/-!
# `base/FileSystem`: a file mapped into memory

A `FileSystem` keeps the length it read last and the mapping it made last, if any. What the
system answers to a call of `Open` is up to the system.
-/
namespace Knpnl.Base

open Lib.CString (Bytes)

/-- An address outside the buffers: null, the `MAP_FAILED` of `mmap`, or one from
which on `bytes` are mapped. -/
inductive Addr where
  | null
  | failed
  | mapped (bytes : Bytes)
  deriving DecidableEq

namespace Addr

def bytes : Addr → Bytes
  | mapped bs => bs
  | null | failed => []

/-- `addr + n` -/
def add (n : Nat) : Addr → Addr
  | mapped bs => mapped (bs.drop n)
  | a => a

end Addr

/-- A call of `mmap` and the length it was asked for. -/
structure FileAddr where
  mAddr : Addr
  mFileLength : Nat
  deriving DecidableEq

structure FileSystem where
  mFileLength : Nat := 0
  mFile : Option FileAddr := none
  deriving DecidableEq

inductive FILE_STATE where
  | IS_FILE
  | IS_DIR
  | NO_FILE
  | CANNOT_ACCESS
  deriving DecidableEq

def S_IROTH : Nat := 0o4

def S_ISDIR (mode : Nat) : Bool := mode &&& 0o170000 = 0o040000

/-- What `stat` says of a file. A size is not negative. -/
structure Stat where
  st_mode : Nat
  st_size : Nat
  deriving DecidableEq

/-- The answers of the system during a call: `stat` may fail, a descriptor below 0 is a failure
of `open`, and a mapping is made with the length that was asked for or not at all. -/
structure System where
  stat : Bytes → Option Stat
  openRdonly : Bytes → Int
  mmap : Int → (len : Nat) → Option { bytes : Bytes // bytes.length = len }

def FileAddr.new (sys : System) (fd : Int) (len : Nat) : FileAddr :=
  ⟨match sys.mmap fd len with
    | some mapping => .mapped mapping.val
    | none => .failed, len⟩

namespace FileSystem

def Open (F : FileSystem) (sys : System) (path : Bytes) : FileSystem × FILE_STATE :=
  match sys.stat path with
  | none => (F, .NO_FILE)
  | some mFileStat =>
      if mFileStat.st_mode &&& S_IROTH = 0 then (F, .CANNOT_ACCESS)
      else if S_ISDIR mFileStat.st_mode then (F, .IS_DIR)
      else
        let F := { F with mFileLength := mFileStat.st_size }
        let fd := sys.openRdonly path
        if fd < 0 then (F, .CANNOT_ACCESS)
        else ({ F with mFile := some (.new sys fd F.mFileLength) }, .IS_FILE)

def getAddr (F : FileSystem) : Addr :=
  match F.mFile with
  | some file => file.mAddr
  | none => .null

def getLength (F : FileSystem) : Nat := F.mFileLength

end FileSystem
end Knpnl.Base
