import Knpnl.Base.FileSystem
import Knpnl.Lib.Reach

/-!
# A file and its mapping

`Open` stores the length of a file before it has opened it, and the mapping whether or not it
was made. So a `FileSystem` describes what it has mapped as long as no file is refused after its
length was stored and no mapping fails.
-/
namespace Knpnl.Base

open Lib
open Lib.CString (Bytes ascii)

/-- The file that `Open` goes on to open: there, readable for others and not a directory. -/
def System.target (sys : System) (path : Bytes) : Option Stat :=
  (sys.stat path).filter fun st => st.st_mode &&& S_IROTH ≠ 0 ∧ ¬ S_ISDIR st.st_mode

/-- A directory that is readable for others. -/
def System.Directory (sys : System) (path : Bytes) : Prop :=
  ∃ st ∈ sys.stat path, st.st_mode &&& S_IROTH ≠ 0 ∧ S_ISDIR st.st_mode

instance (sys : System) (path : Bytes) : Decidable (sys.Directory path) :=
  inferInstanceAs (Decidable (∃ st ∈ sys.stat path, _))

theorem System.target_of_directory {sys : System} {path : Bytes} (h : sys.Directory path) :
    sys.target path = none := by
  obtain ⟨st, hstat, _, hdir⟩ := h
  rw [target, Option.mem_def.mp hstat, Option.filter_some, if_neg]
  simp [hdir]

namespace FileSystem

variable {F : FileSystem} {sys : System} {path : Bytes} {st : Stat}

/-- Without a file to open nothing changes. -/
theorem Open_none (F : FileSystem) (h : sys.target path = none) : F.Open sys path =
    (F,
      if sys.Directory path then .IS_DIR
      else if (sys.stat path).isNone then .NO_FILE else .CANNOT_ACCESS) := by
  by_cases hdir : sys.Directory path
  · obtain ⟨st, hstat, hread, hmode⟩ := id hdir
    rw [if_pos hdir, Open, Option.mem_def.mp hstat]
    dsimp only
    rw [if_neg hread, if_pos hmode]
  · rw [if_neg hdir, Open]
    cases hstat : sys.stat path with
    | none => rfl
    | some st =>
      -- it is not readable for others
      have hread : st.st_mode &&& S_IROTH = 0 := by
        by_contra hread
        have hmode : S_ISDIR st.st_mode = true := by simpa [System.target, hstat, hread] using h
        exact hdir ⟨st, hstat, hread, hmode⟩
      dsimp only
      rw [if_pos hread]
      rfl

/-- The length is stored before the file is opened, the mapping as it comes. -/
theorem Open_some (F : FileSystem) (h : sys.target path = some st) : F.Open sys path =
    if sys.openRdonly path < 0 then ({ F with mFileLength := st.st_size }, .CANNOT_ACCESS)
    else (⟨st.st_size, some (.new sys (sys.openRdonly path) st.st_size)⟩, .IS_FILE) := by
  obtain ⟨hstat, hst⟩ := Option.filter_eq_some_iff.mp h
  obtain ⟨hread, hdir⟩ := of_decide_eq_true hst
  unfold Open
  rw [hstat]
  dsimp only
  rw [if_neg hread, if_neg hdir]

/-- The address is null, or that of a mapping that has the length. -/
def DescribesMapped (F : FileSystem) : Prop :=
  F.getAddr ≠ .null → ∃ bytes, F.getAddr = .mapped bytes ∧ bytes.length = F.getLength

/-- An `Open` of a path, and what the system answers. -/
structure OpenCall where
  sys : System
  path : Bytes

def opened (F : FileSystem) (c : OpenCall) : FileSystem := (F.Open c.sys c.path).1

/-- After the call the address still goes with the length, and if no file was opened, both are
what they were. -/
def Truthful (F : FileSystem) (c : OpenCall) : Prop :=
  (F.opened c).DescribesMapped ∧ ((F.Open c.sys c.path).2 ≠ .IS_FILE →
    (F.opened c).getAddr = F.getAddr ∧ (F.opened c).getLength = F.getLength)

/-- If there is a file to open, it is opened and its mapping is made, or it cannot be opened and
has the length that is already stored. -/
def MapsOrKeeps (F : FileSystem) (c : OpenCall) : Prop :=
  ∀ st ∈ c.sys.target c.path,
    if c.sys.openRdonly c.path < 0 then st.st_size = F.getLength
    else (c.sys.mmap (c.sys.openRdonly c.path) st.st_size).isSome

theorem describesMapped_new : ({} : FileSystem).DescribesMapped := fun h => absurd rfl h

theorem describesMapped_mapping (sys : System) (fd : Int) (len : Nat) :
    (⟨len, some (.new sys fd len)⟩ : FileSystem).DescribesMapped ↔ (sys.mmap fd len).isSome := by
  unfold DescribesMapped getAddr getLength FileAddr.new
  cases sys.mmap fd len with
  | none => simp
  | some mapping => simpa using mapping.property

theorem truthful_iff (h : F.DescribesMapped) (c : OpenCall) : F.Truthful c ↔ F.MapsOrKeeps c := by
  unfold Truthful MapsOrKeeps opened
  cases htarget : c.sys.target c.path with
  | none =>
    rw [F.Open_none htarget]
    exact ⟨fun _ st hst => (by cases hst), fun _ => ⟨h, fun _ => ⟨rfl, rfl⟩⟩⟩
  | some st =>
    rw [F.Open_some htarget]
    simp only [Option.mem_def, Option.some.injEq, forall_eq']
    by_cases hfd : c.sys.openRdonly c.path < 0
    · rw [if_pos hfd, if_pos hfd]
      constructor
      · exact fun htruth => (htruth.2 fun hstate => (by cases hstate)).2
      · intro hlen
        have hsame : { F with mFileLength := st.st_size } = F := by rw [hlen]; rfl
        rw [hsame]
        exact ⟨h, fun _ => ⟨rfl, rfl⟩⟩
    · rw [if_neg hfd, if_neg hfd, ← describesMapped_mapping]
      exact ⟨And.left, fun hmapped => ⟨hmapped, fun hstate => absurd rfl hstate⟩⟩

/-- In a run of `Open` on a new object the address goes with the length after every call, and
changes with an opened file only, if and only if every file that is found is opened and mapped, or
cannot be opened and has the length that is already stored. -/
theorem truthful_run (calls : List OpenCall) :
    Along opened Truthful {} calls ↔ Along opened MapsOrKeeps {} calls :=
  along_iff_along (I := DescribesMapped) (fun _ c h (_ : True) => truthful_iff h c)
    (fun _ _ _ _ htruth => htruth.1) describesMapped_new (along_of_forall (fun _ _ _ => trivial) _)

/-- Whatever is opened and whatever the system answers, the address goes with the length. -/
def AlwaysTruthful : Prop := ∀ calls : List OpenCall, Along opened Truthful {} calls

/-- A file of no bytes, of which `mmap` makes no mapping. -/
def emptyFile : System where
  stat _ := some ⟨0o100644, 0⟩
  openRdonly _ := 3
  mmap _ _ := none

/-- The address is `MAP_FAILED`, and not null. -/
theorem alwaysTruthful_empty : ¬ AlwaysTruthful := by
  intro hclaim
  obtain ⟨⟨hmapped, _⟩, _⟩ := hclaim [⟨emptyFile, ascii "/empty"⟩]
  obtain ⟨bytes, haddr, _⟩ := hmapped (by decide)
  have hfailed : (opened {} ⟨emptyFile, ascii "/empty"⟩).getAddr = .failed := by decide
  rw [hfailed] at haddr
  cases haddr

end FileSystem
end Knpnl.Base
