import Knpnl.Base.FileMapping
import Knpnl.Http.Response

/-!
# The outcome of `openFile`

A response lives as long as its connection, and each `openFile` finds what an earlier one has
left. The status code is set at the end of every call, and a file that is attached stays.
-/
namespace Knpnl.Http

open Lib Lib.CString
open Base (FileSystem FILE_STATE System Addr signed)
open Base.FileSystem (OpenCall)

/-- A response, and the lengths of the files that were opened with it. -/
structure Serving where
  resp : HttpResponse
  files : List Nat

/-- `openFile`, `setStatusCode`, and assignments to the public fields, by their setters or not. -/
inductive ResponseStep where
  | openFile (c : OpenCall)
  | setStatusCode (StatusCode : STATUS_CODE)
  | fields (Headers : SortedMap Bytes Bytes) (isAlive : Bool) (ContentLength : Int) (Body : Bytes)

namespace Serving

variable {s : Serving} {c : OpenCall}

/-- `HttpResponse(STATUS_CODE)`. The default constructor takes `CLIENT_ERROR_NOT_FOUND`. -/
def new (StateCode : STATUS_CODE) : Serving := ⟨{ mStatusCode := StateCode }, []⟩

def opened (s : Serving) (c : OpenCall) : HttpResponse × FILE_STATE := s.resp.openFile c.sys c.path

def step (s : Serving) : ResponseStep → Serving
  | .openFile c =>
      let (resp, ret) := s.opened c
      ⟨resp, if ret = .IS_FILE then s.files ++ [resp.mFile.getLength] else s.files⟩
  | .setStatusCode StatusCode => { s with resp := s.resp.setStatusCode StatusCode }
  | .fields Headers isAlive ContentLength Body =>
      { s with resp := { s.resp with
        Headers := Headers, isAlive := isAlive, ContentLength := ContentLength, Body := Body } }

/-- After the call the response describes what came of it. -/
structure DescribesOutcome (s : Serving) (c : OpenCall) : Prop where
  file : (s.opened c).2 = .IS_FILE →
    (s.opened c).1.mStatusCode = s.resp.mStatusCode ∧
      (∃ st ∈ c.sys.stat c.path, (s.opened c).1.ContentLength = st.st_size) ∧
      (s.opened c).1.hasFile ∧ (s.opened c).1.ContentLength = (s.opened c).1.mFile.getLength
  forbidden : (s.opened c).2 = .CANNOT_ACCESS → (s.opened c).1.mStatusCode = .CLIENT_ERROR_FORBIDDEN
  missing : (s.opened c).2 = .NO_FILE → (s.opened c).1.mStatusCode = .CLIENT_ERROR_NOT_FOUND
  noFile : (s.opened c).2 ≠ .IS_FILE →
    ¬ (s.opened c).1.hasFile ∧ ∀ len ∈ s.files, (s.opened c).1.ContentLength ≠ len

/-- The status code was the one that is set in the end and there is a file to open, no larger than
an `int` can be, or there is a directory and no file is attached. -/
def FindsDescribed (s : Serving) (c : OpenCall) : Prop :=
  (s.resp.mStatusCode = .CLIENT_ERROR_BAD_REQUEST ∧ 0 ≤ c.sys.openRdonly c.path ∧
    ∃ st ∈ c.sys.target c.path, st.st_size < 2 ^ 31) ∨
  c.sys.Directory c.path ∧ ¬ s.resp.hasFile

def StepDescribes (s : Serving) : ResponseStep → Prop
  | .openFile c => s.DescribesOutcome c
  | .setStatusCode _ | .fields _ _ _ _ => True

def StepFindsDescribed (s : Serving) : ResponseStep → Prop
  | .openFile c => s.FindsDescribed c
  | .setStatusCode _ | .fields _ _ _ _ => True

/-- Without a file to open only the status code changes. -/
theorem opened_none (s : Serving) (h : c.sys.target c.path = none) : s.opened c =
    (s.resp.setStatusCode .CLIENT_ERROR_BAD_REQUEST,
      if c.sys.Directory c.path then .IS_DIR
      else if (c.sys.stat c.path).isNone then .NO_FILE else .CANNOT_ACCESS) := by
  unfold opened HttpResponse.openFile
  rw [s.resp.mFile.Open_none h]
  by_cases hdir : c.sys.Directory c.path
  · rw [if_pos hdir]
  · rw [if_neg hdir]
    cases c.sys.stat c.path <;> rfl

theorem opened_refused (s : Serving) {st : Base.Stat} (h : c.sys.target c.path = some st)
    (hfd : c.sys.openRdonly c.path < 0) :
    (s.opened c).2 = .CANNOT_ACCESS ∧ (s.opened c).1.mStatusCode = .CLIENT_ERROR_BAD_REQUEST ∧
      (s.opened c).1.hasFile = s.resp.hasFile := by
  have hopen := (s.resp.mFile.Open_some h).trans (if_pos hfd)
  unfold opened HttpResponse.openFile
  rw [hopen]
  exact ⟨rfl, rfl, rfl⟩

/-- What `mmap` gives is not null, even if it fails. -/
theorem hasFile_of_new {r : HttpResponse} {sys : System} {fd : Int} {len : Nat}
    (h : r.mFile = ⟨len, some (.new sys fd len)⟩) : r.hasFile = true := by
  rw [HttpResponse.hasFile, h, FileSystem.getAddr, Base.FileAddr.new]
  cases sys.mmap fd len <;> rfl

theorem ContentLength_set (r : HttpResponse) (len : Int) (code : STATUS_CODE) :
    ((r.setContentLength len).setStatusCode code).ContentLength = len := rfl

theorem opened_file (s : Serving) {st : Base.Stat} (h : c.sys.target c.path = some st)
    (hfd : ¬ c.sys.openRdonly c.path < 0) :
    (s.opened c).2 = .IS_FILE ∧ (s.opened c).1.mStatusCode = .CLIENT_ERROR_BAD_REQUEST ∧
      (s.opened c).1.ContentLength = signed 32 st.st_size ∧ (s.opened c).1.mFile.getLength = st.st_size ∧
      (s.opened c).1.hasFile = true := by
  have hopen := (s.resp.mFile.Open_some h).trans (if_neg hfd)
  unfold opened HttpResponse.openFile
  rw [hopen]
  exact ⟨rfl, rfl, ContentLength_set _ _ _, rfl, hasFile_of_new rfl⟩

/-- Files that were opened have left one attached. -/
def StaysAttached (s : Serving) : Prop := ¬ s.resp.hasFile → s.files = []

theorem files_openFile (h : (s.opened c).2 ≠ .IS_FILE) : (s.step (.openFile c)).files = s.files := if_neg h

theorem staysAttached_step (h : s.StaysAttached) (a : ResponseStep) : (s.step a).StaysAttached := by
  cases a with
  | openFile c =>
    intro hnone
    have hresp : ¬ (s.opened c).1.hasFile := hnone
    cases htarget : c.sys.target c.path with
    | none =>
      have hopened := s.opened_none htarget
      have hret : (s.opened c).2 ≠ .IS_FILE := by
        rw [hopened]
        dsimp only
        split
        · simp
        · split <;> simp
      rw [hopened] at hresp
      rw [files_openFile hret]
      exact h hresp
    | some st =>
      by_cases hfd : c.sys.openRdonly c.path < 0
      · obtain ⟨hret, _, hsame⟩ := s.opened_refused htarget hfd
        rw [files_openFile (by simp [hret])]
        exact h (hsame ▸ hresp)
      · exact absurd (s.opened_file htarget hfd).2.2.2.2 hresp
  | setStatusCode code => exact h
  | fields Headers isAlive ContentLength Body => exact h

/-- Only a length below 2^31 is the same as an `int`. -/
theorem signed_eq_self_iff {n : Nat} : signed 32 n = n ↔ n < 2 ^ 31 := by
  refine ⟨fun heq => ?_, Base.signed_of_lt⟩
  have hlt : signed 32 n < 2 ^ 31 := by
    unfold signed
    exact Int.bmod_lt (by decide)
  omega

theorem not_describes_none (htarget : c.sys.target c.path = none) (hdir : ¬ c.sys.Directory c.path) :
    ¬ s.DescribesOutcome c := by
  intro hdescribes
  have hopened := s.opened_none htarget
  rw [if_neg hdir] at hopened
  by_cases hstat : (c.sys.stat c.path).isNone
  · rw [if_pos hstat] at hopened
    have hmissing := hdescribes.missing (by rw [hopened])
    rw [hopened] at hmissing
    cases hmissing
  · rw [if_neg hstat] at hopened
    have hforbidden := hdescribes.forbidden (by rw [hopened])
    rw [hopened] at hforbidden
    cases hforbidden

theorem describes_directory (h : s.StaysAttached) (hdir : c.sys.Directory c.path) :
    s.DescribesOutcome c ↔ ¬ s.resp.hasFile := by
  have hopened := s.opened_none (Base.System.target_of_directory hdir)
  rw [if_pos hdir] at hopened
  have hret : (s.opened c).2 = .IS_DIR := by rw [hopened]
  have hsame : (s.opened c).1.hasFile = s.resp.hasFile := by
    rw [hopened]
    rfl
  constructor
  · intro hdescribes
    rw [← hsame]
    exact (hdescribes.noFile (by simp [hret])).1
  · intro hnone
    refine ⟨by simp [hret], by simp [hret], by simp [hret], fun _ => ⟨by rwa [hsame], ?_⟩⟩
    rw [h hnone]
    exact fun len hlen => absurd hlen List.not_mem_nil

theorem describes_file {st : Base.Stat} (htarget : c.sys.target c.path = some st)
    (hfd : ¬ c.sys.openRdonly c.path < 0) :
    s.DescribesOutcome c ↔ s.resp.mStatusCode = .CLIENT_ERROR_BAD_REQUEST ∧ st.st_size < 2 ^ 31 := by
  obtain ⟨hret, hcode, hlen, hsize, hfile⟩ := s.opened_file htarget hfd
  obtain ⟨hstat, _⟩ := Option.filter_eq_some_iff.mp htarget
  rw [← signed_eq_self_iff, ← hlen]
  constructor
  · intro hdescribes
    obtain ⟨hsame, _, _, heq⟩ := hdescribes.file hret
    exact ⟨hsame.symm.trans hcode, by rw [heq, hsize]⟩
  · rintro ⟨hbefore, heq⟩
    refine ⟨fun _ => ?_, by simp [hret], by simp [hret], by simp [hret]⟩
    exact ⟨hcode.trans hbefore.symm, ⟨st, hstat, heq⟩, hfile, by rw [heq, hsize]⟩

theorem describesOutcome_iff (h : s.StaysAttached) (c : OpenCall) :
    s.DescribesOutcome c ↔ s.FindsDescribed c := by
  unfold FindsDescribed
  cases htarget : c.sys.target c.path with
  | none =>
    by_cases hdir : c.sys.Directory c.path
    · rw [describes_directory h hdir]
      simp [hdir]
    · simp [hdir, not_describes_none htarget hdir]
  | some st =>
    have hdir : ¬ c.sys.Directory c.path := fun hdir => by
      rw [Base.System.target_of_directory hdir] at htarget
      cases htarget
    by_cases hfd : c.sys.openRdonly c.path < 0
    · obtain ⟨hret, hcode, _⟩ := s.opened_refused htarget hfd
      have hforbidden : ¬ s.DescribesOutcome c := fun hdescribes =>
        absurd (hcode.symm.trans (hdescribes.forbidden hret)) (by decide)
      have hnegative : ¬ 0 ≤ c.sys.openRdonly c.path := Int.not_le.mpr hfd
      simp [hdir, hforbidden, hnegative]
    · rw [describes_file htarget hfd]
      simp [hdir, Int.not_lt.mp hfd]

/-- In a run of a new response every call of `openFile` leaves it describing the outcome if and
only if each call finds the status code `400` and opens a file no larger than an `int` can be, or
finds a directory while no file is attached. -/
theorem describesOutcome_run (StateCode : STATUS_CODE) (steps : List ResponseStep) :
    Along step StepDescribes (new StateCode) steps ↔ Along step StepFindsDescribed (new StateCode) steps := by
  refine along_iff_along (I := StaysAttached) (fun s a h (_ : True) => ?_)
    (fun s a h _ _ => staysAttached_step h a) (fun _ => rfl) (along_of_forall (fun _ _ _ => trivial) _)
  cases a with
  | openFile c => exact describesOutcome_iff h c
  | setStatusCode code => exact Iff.rfl
  | fields Headers isAlive ContentLength Body => exact Iff.rfl

/-- Whatever is opened, the response describes what came of it. -/
def AlwaysDescribes : Prop :=
  ∀ (StateCode : STATUS_CODE) (steps : List ResponseStep), Along step StepDescribes (new StateCode) steps

/-- A file of one byte. -/
def oneByte : System where
  stat _ := some ⟨0o100644, 1⟩
  openRdonly _ := 3
  mmap _ len := some ⟨List.replicate len 97, List.length_replicate⟩

/-- The file is opened, and the code `200` is replaced. -/
theorem alwaysDescribes_ok : ¬ AlwaysDescribes := by
  intro hclaim
  have hdescribes := (hclaim .SUCCESS_OK [.openFile ⟨oneByte, ascii "/a"⟩]).1
  exact absurd (hdescribes.file (by decide)).1 (by decide)

end Serving
end Knpnl.Http
