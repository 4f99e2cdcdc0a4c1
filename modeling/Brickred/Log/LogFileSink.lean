import Brickred.Text.StringUtil

/-!
# The file sink (`log_file_sink.cc`)

A path is a format for `strftime`; every call of `log` expands it for the current time and
opens another file when the name has changed. `openFile` records the new name before it
knows that the file can be opened, so a name that could not be opened is not tried again:
the next call for it finds the name recorded, and writes through the handle that was there
before. Which runs of calls do not meet this is said by the calls alone.
-/

namespace Brickred

/-- `LogFileSink::Impl`. Of an open file it is known by which name it was opened. -/
structure LogFileSink where
  filePath : Bytes
  actualFilePath : Bytes
  /-- `none` is the null pointer. -/
  fp : Option Bytes

namespace LogFileSink

/-- `LogFileSink::Impl::Impl` -/
def create (filePath : Bytes) : LogFileSink := ⟨filePath, [], none⟩

/-- A call of `log`: the time at which it is made, whether `fopen` would open the file
then, and what is logged. -/
structure Call where
  now : Int
  fopens : Bool
  /-- What the array `actual_file_path` holds if the expansion does not fit into it:
  `strftime` leaves that open. -/
  array : Bytes
  buffer : Bytes

/-- What a call does. -/
structure Effect where
  /-- The name that is given to `fopen`, if it is called. -/
  tried : Option Bytes
  /-- An error is logged. -/
  reported : Bool
  /-- The handle and the bytes that are given to `fwrite`, if it is called. -/
  written : Option (Option Bytes × Bytes)
deriving DecidableEq

/-- What `strftime` makes of a format at a time, in the local time zone. -/
abbrev Strftime := Bytes → Int → Bytes

variable (strftime : Strftime)

/-- The pattern expanded for the time of a call. -/
def expanded (filePath : Bytes) (c : Call) : Bytes := strftime (cstr filePath) c.now

/-- What `Timestamp::format` leaves in the array of 2048 bytes. -/
def formatted (filePath : Bytes) (c : Call) : Bytes :=
  if (expanded strftime filePath c).length < 2048 then expanded strftime filePath c else c.array

/-- `LogFileSink::Impl::openFile`: the result, and the name given to `fopen`. -/
def openFile (s : LogFileSink) (c : Call) : Bool × Option Bytes × LogFileSink :=
  let actualFilePath := formatted strftime s.filePath c
  if s.actualFilePath = actualFilePath then
    (true, none, s)
  else
    let s := { s with actualFilePath }
    if c.fopens = false then
      (false, some actualFilePath, s)
    else
      (true, some actualFilePath, { s with fp := some actualFilePath })

/-- `LogFileSink::Impl::log` -/
def log (s : LogFileSink) (c : Call) : Effect × LogFileSink :=
  match openFile strftime s c with
  | (false, tried, s) => (⟨tried, true, none⟩, s)
  | (true, tried, s) => (⟨tried, false, some (s.fp, c.buffer)⟩, s)

/-- The calls of a run with what they do. -/
def run : LogFileSink → List Call → List (Call × Effect)
  | _, [] => []
  | s, c :: calls => (c, (log strftime s c).1) :: run (log strftime s c).2 calls

/-! ## What is asked of a run -/

variable (filePath : Bytes)

/-- The bytes are appended to the file of the current name. -/
def Appends (c : Call) (e : Effect) : Prop :=
  e.reported = false ∧ e.written = some (some (expanded strftime filePath c), c.buffer)

/-- An error is reported and nothing is written. -/
def Fails (e : Effect) : Prop := e.reported = true ∧ e.written = none

/-- Every call appends its bytes or fails, and after a failure the next call tries to
open its file. -/
def Lawful : List (Call × Effect) → Prop
  | [] => True
  | (c, e) :: rest =>
    (Appends strftime filePath c e ∨
      Fails e ∧ ∀ n ∈ rest.head?, n.2.tried = some (expanded strftime filePath n.1)) ∧
    Lawful rest

/-- A call for which `fopen` is called and fails is not followed by a call for the same
name; `last` is the name of the call before. -/
def Unrepeated : Bytes → List Call → Prop
  | _, [] => True
  | last, c :: calls =>
    (expanded strftime filePath c ≠ last → c.fopens = false →
      ∀ n ∈ calls.head?, expanded strftime filePath n ≠ expanded strftime filePath c) ∧
    Unrepeated (expanded strftime filePath c) calls

/-- The first name is not empty, as the one recorded by the constructor is. -/
def Named (calls : List Call) : Prop := ∀ c ∈ calls.head?, expanded strftime filePath c ≠ []

/-! ## One call -/

variable {strftime} {filePath} {s : LogFileSink} {c : Call} {calls : List Call}

theorem formatted_eq (hfit : (expanded strftime filePath c).length < 2048) :
    formatted strftime filePath c = expanded strftime filePath c := if_pos hfit

/-- The name is the one recorded: the handle is used as it is. -/
theorem log_same (hfit : (expanded strftime s.filePath c).length < 2048)
    (hsame : expanded strftime s.filePath c = s.actualFilePath) :
    log strftime s c = (⟨none, false, some (s.fp, c.buffer)⟩, s) := by
  rw [log, openFile, formatted_eq hfit, hsame, if_pos rfl]

/-- Another name, whose file is opened. -/
theorem log_opened (hfit : (expanded strftime s.filePath c).length < 2048)
    (hother : expanded strftime s.filePath c ≠ s.actualFilePath) (hopens : c.fopens = true) :
    log strftime s c =
      (⟨some (expanded strftime s.filePath c), false,
        some (some (expanded strftime s.filePath c), c.buffer)⟩,
        ⟨s.filePath, expanded strftime s.filePath c, some (expanded strftime s.filePath c)⟩) := by
  rw [log, openFile, formatted_eq hfit, if_neg (Ne.symm hother), hopens]
  rfl

/-- Another name, whose file is not opened: the name is recorded all the same. -/
theorem log_failed (hfit : (expanded strftime s.filePath c).length < 2048)
    (hother : expanded strftime s.filePath c ≠ s.actualFilePath) (hfails : c.fopens = false) :
    log strftime s c =
      (⟨some (expanded strftime s.filePath c), true, none⟩,
        ⟨s.filePath, expanded strftime s.filePath c, s.fp⟩) := by
  rw [log, openFile, formatted_eq hfit, if_neg (Ne.symm hother), if_pos hfails]

/-- A call tries to open its file exactly if the name is not recorded. -/
theorem tried_log_iff (hfit : (expanded strftime s.filePath c).length < 2048) :
    (log strftime s c).1.tried = some (expanded strftime s.filePath c) ↔
      expanded strftime s.filePath c ≠ s.actualFilePath := by
  by_cases hsame : expanded strftime s.filePath c = s.actualFilePath
  · rw [log_same hfit hsame]
    exact ⟨nofun, fun h => absurd hsame h⟩
  · cases hopens : c.fopens with
    | true =>
      rw [log_opened hfit hsame hopens]
      exact ⟨fun _ => hsame, fun _ => rfl⟩
    | false =>
      rw [log_failed hfit hsame hopens]
      exact ⟨fun _ => hsame, fun _ => rfl⟩

/-! ## Runs -/

theorem head_run_iff (hfit : ∀ c ∈ calls, (expanded strftime s.filePath c).length < 2048) :
    (∀ n ∈ (run strftime s calls).head?, n.2.tried = some (expanded strftime s.filePath n.1)) ↔
      ∀ n ∈ calls.head?, expanded strftime s.filePath n ≠ s.actualFilePath := by
  cases calls with
  | nil => exact ⟨nofun, nofun⟩
  | cons c calls =>
    simp only [run, List.head?_cons, Option.mem_def, Option.some.injEq, forall_eq']
    exact tried_log_iff (hfit c (by simp))

/-- From a state in which the recorded file is the open one, or the next call is for
another. -/
theorem lawful_run_iff (hfit : ∀ c ∈ calls, (expanded strftime s.filePath c).length < 2048)
    (hopen : s.fp = some s.actualFilePath ∨
      ∀ n ∈ calls.head?, expanded strftime s.filePath n ≠ s.actualFilePath) :
    Lawful strftime s.filePath (run strftime s calls) ↔
      Unrepeated strftime s.filePath s.actualFilePath calls := by
  induction calls generalizing s with
  | nil => exact ⟨fun _ => trivial, fun _ => trivial⟩
  | cons c calls ih =>
    have hfitc := hfit c (by simp)
    have hfit' : ∀ c ∈ calls, (expanded strftime s.filePath c).length < 2048 :=
      fun c hc => hfit c (by simp [hc])
    rw [run, Lawful, Unrepeated]
    by_cases hsame : expanded strftime s.filePath c = s.actualFilePath
    · -- nothing is opened, and what is open is the file of this name
      have hfp : s.fp = some s.actualFilePath :=
        hopen.resolve_right fun h => h c rfl hsame
      rw [log_same hfitc hsame, ih hfit' (.inl hfp), hsame]
      refine and_congr_left fun _ => ⟨fun _ h => absurd rfl h, fun _ => .inl ⟨rfl, ?_⟩⟩
      rw [hfp, hsame]
    · cases hopens : c.fopens with
      | true =>
        rw [log_opened hfitc hsame hopens]
        refine and_congr ⟨fun _ _ => nofun, fun _ => .inl ⟨rfl, rfl⟩⟩ ?_
        exact ih (s := ⟨s.filePath, expanded strftime s.filePath c,
          some (expanded strftime s.filePath c)⟩) hfit' (.inl rfl)
      | false =>
        rw [log_failed hfitc hsame hopens]
        let s' : LogFileSink := ⟨s.filePath, expanded strftime s.filePath c, s.fp⟩
        constructor
        · rintro ⟨happends | ⟨-, htried⟩, hrest⟩
          · cases happends.1
          · have hnext := (head_run_iff (s := s') hfit').mp htried
            exact ⟨fun _ _ => hnext, (ih (s := s') hfit' (.inr hnext)).mp hrest⟩
        · rintro ⟨hnext, hrest⟩
          have hnext := hnext hsame rfl
          exact ⟨.inr ⟨⟨rfl, rfl⟩, (head_run_iff (s := s') hfit').mpr hnext⟩,
            (ih (s := s') hfit' (.inr hnext)).mpr hrest⟩

/-- Where the expansions fit into the array, a run is as it should be exactly if the first
name is not empty and no call is for the name that has just failed to open. -/
theorem lawful_iff (hfit : ∀ c ∈ calls, (expanded strftime filePath c).length < 2048) :
    Lawful strftime filePath (run strftime (create filePath) calls) ↔
      Named strftime filePath calls ∧ Unrepeated strftime filePath [] calls := by
  by_cases hnamed : Named strftime filePath calls
  · rw [and_iff_right hnamed]
    exact lawful_run_iff (s := create filePath) hfit (.inr hnamed)
  · refine iff_of_false ?_ fun h => hnamed h.1
    cases calls with
    | nil => exact absurd nofun hnamed
    | cons c calls =>
      -- the name is that of no file, and the null handle is written through
      have hempty : expanded strftime filePath c = [] := by
        by_contra hne
        exact hnamed fun n hn => Option.some.inj hn ▸ hne
      rw [run, log_same (s := create filePath) (hfit c (by simp)) hempty]
      rintro ⟨⟨-, hwritten⟩ | ⟨⟨hreported, -⟩, -⟩, -⟩
      · cases hwritten
      · cases hreported

/-- A name that changes once, with both files opened. -/
theorem lawful_midnight :
    Lawful (fun _ now => if now < 86400 then bytes "01" else bytes "02") (bytes "%d")
      (run (fun _ now => if now < 86400 then bytes "01" else bytes "02") (create (bytes "%d"))
        [⟨86399, true, [], bytes "x"⟩, ⟨86400, true, [], bytes "y"⟩]) :=
  (lawful_iff (by decide)).mpr ⟨by simp [Named, expanded, bytes], by simp [Unrepeated]⟩

/-- In a directory that is not there, the second call writes through the null handle. -/
theorem not_lawful_unopened :
    ¬ Lawful (fun format _ => format) (bytes "log/a") (run (fun format _ => format)
      (create (bytes "log/a")) [⟨0, false, [], bytes "x"⟩, ⟨0, true, [], bytes "y"⟩]) := by
  rintro ⟨-, ⟨-, hwritten⟩ | ⟨⟨hreported, -⟩, -⟩, -⟩
  · revert hwritten
    decide
  · revert hreported
    decide

end LogFileSink

end Brickred
