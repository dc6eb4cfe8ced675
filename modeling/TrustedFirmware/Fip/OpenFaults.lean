import TrustedFirmware.Fip.Format

/-!
# `fip_file_open` over a backend that fails

The walk reads each entry into the record of the open file, and a read that fails leaves the record
as it is then. A non-zero offset there stands for an open file.
-/

namespace TrustedFirmware.Fip.OpenFaults

/-- The record of the open file, and the number of backend handles that are allocated. -/
structure State where
  filePos : BitVec 32
  entry : TocEntry
  handles : Nat

/-- What the calls of the backend return: for each read also what is in the record after it. -/
structure Backend where
  ioOpen : Bool
  ioSeek : Bool
  ioRead : List (Bool × TocEntry)

/-- How a walk ends. -/
inductive Walk
  | failed
  | found
  | notFound

/-- The loop of `fip_file_open`; `none` is a loop that has not ended. -/
def fipFileOpenLoop (uuid : Uuid) : List (Bool × TocEntry) → State → Option (State × Walk)
  | [], _ => none
  | (ok, entry) :: reads, s =>
    if !ok then some ({ s with entry }, .failed)
    else if entry.uuid = uuid then some ({ s with entry }, .found)
    else if entry.uuid ≠ uuidNull then fipFileOpenLoop uuid reads { s with entry }
    else some ({ s with entry }, .notFound)

/-- `io_close` of the backend. -/
def State.ioClose (s : State) : State :=
  { s with handles := s.handles - 1 }

/-- `fip_file_open` once the backend is open, and whether it succeeds. -/
def fipFileOpenOpened (b : Backend) (uuid : Uuid) (s : State) : Option (State × Bool) :=
  if !b.ioSeek then some (s.ioClose, false)
  else
    (fipFileOpenLoop uuid b.ioRead s).map fun walked =>
      match walked.2 with
      | .failed => (walked.1.ioClose, false)
      | .found => ({ walked.1 with filePos := 0 }.ioClose, true)
      | .notFound => ({ walked.1 with entry.offsetAddress := 0 }.ioClose, false)

/-- `fip_file_open`, and whether it succeeds. -/
def fipFileOpen (b : Backend) (s : State) (uuid : Uuid) : Option (State × Bool) :=
  if s.entry.offsetAddress ≠ 0 then some (s, false)
  else if !b.ioOpen then some (s, false)
  else fipFileOpenOpened b uuid { s with handles := s.handles + 1 }

/-- A read at which a walk ends. -/
def ends (uuid : Uuid) (read : Bool × TocEntry) : Bool :=
  !read.1 || read.2.uuid = uuid || read.2.uuid = uuidNull

/-- The backend works, and the UUID is in the package. -/
def Backend.Finds (b : Backend) (uuid : Uuid) : Prop :=
  b.ioOpen = true ∧ b.ioSeek = true ∧
    ∃ entry, b.ioRead.find? (ends uuid) = some (true, entry) ∧ entry.uuid = uuid

/-- A read that ends the walk by failing leaves an offset of 0 in the record. -/
def Backend.FailsCleanly (b : Backend) (uuid : Uuid) : Prop :=
  b.ioOpen = true → b.ioSeek = true → ∀ entry,
    b.ioRead.find? (ends uuid) = some (false, entry) → entry.offsetAddress = 0

variable {b : Backend} {s s' : State} {uuid : Uuid} {reads : List (Bool × TocEntry)}

/-- The walk ends at the first read that it can end at. -/
theorem fipFileOpenLoop_eq : fipFileOpenLoop uuid reads s =
    (reads.find? (ends uuid)).map fun read => ({ s with entry := read.2 },
      if !read.1 then .failed else if read.2.uuid = uuid then .found else .notFound) := by
  induction reads generalizing s with
  | nil => rfl
  | cons read reads ih =>
    obtain ⟨ok, entry⟩ := read
    rw [fipFileOpenLoop, ih]
    cases ok <;> by_cases huuid : entry.uuid = uuid <;> by_cases hnull : entry.uuid = uuidNull <;>
      simp_all [ends]

theorem fipFileOpen_of_finds (hcl : s.entry.offsetAddress = 0) (h : b.Finds uuid) :
    ∃ s', fipFileOpen b s uuid = some (s', true) := by
  obtain ⟨hopen, hseek, entry, hfind, huuid⟩ := h
  simp [fipFileOpen, fipFileOpenOpened, hcl, hopen, hseek, fipFileOpenLoop_eq, hfind, huuid]

/-- What an error leaves in the record and of the handles. -/
theorem fipFileOpen_error (hcl : s.entry.offsetAddress = 0)
    (h : fipFileOpen b s uuid = some (s', false)) :
    s'.handles = s.handles ∧ (s'.entry.offsetAddress = 0 ↔ b.FailsCleanly uuid) := by
  cases hopen : b.ioOpen with
  | false =>
    obtain rfl : s = s' := by simpa [fipFileOpen, hcl, hopen] using h
    simp [Backend.FailsCleanly, hcl, hopen]
  | true =>
    cases hseek : b.ioSeek with
    | false =>
      obtain rfl : _ = s' := by
        simpa [fipFileOpen, fipFileOpenOpened, hcl, hopen, hseek] using h
      simp [Backend.FailsCleanly, State.ioClose, hcl, hseek]
    | true =>
      simp only [fipFileOpen, fipFileOpenOpened, hcl, hopen, hseek, fipFileOpenLoop_eq] at h
      cases hfind : b.ioRead.find? (ends uuid) with
      | none => simp [hfind] at h
      | some read =>
        obtain ⟨ok, entry⟩ := read
        cases ok with
        | false =>
          obtain rfl : _ = s' := by simpa [hfind] using h
          simp [Backend.FailsCleanly, State.ioClose, hopen, hseek, hfind]
        | true =>
          by_cases huuid : entry.uuid = uuid
          · simp [hfind, huuid] at h
          · obtain rfl : _ = s' := by simpa [hfind, huuid] using h
            simp [Backend.FailsCleanly, State.ioClose, hfind]

/-- **An error leaves no file open**, and a later call succeeds, if and only if none was open before
and a read that ends the walk by failing leaves an offset of 0. -/
theorem error_leaves_closed_iff (h : fipFileOpen b s uuid = some (s', false)) :
    (s'.entry.offsetAddress = 0 ∧ s'.handles = s.handles ∧ ∀ later uuid', later.Finds uuid' →
        ∃ s'', fipFileOpen later s' uuid' = some (s'', true)) ↔
      s.entry.offsetAddress = 0 ∧ b.FailsCleanly uuid := by
  by_cases hcl : s.entry.offsetAddress = 0
  · obtain ⟨hhan, hoff⟩ := fipFileOpen_error hcl h
    rw [← hoff]
    constructor
    · intro hrt
      exact ⟨hcl, hrt.1⟩
    · intro hzero
      exact ⟨hzero.2, hhan, fun later uuid' hfin => fipFileOpen_of_finds hzero.2 hfin⟩
  · rw [fipFileOpen, if_pos hcl] at h
    cases h
    exact iff_of_false (fun hrt => hcl hrt.1) fun hcond => hcl hcond.1

def closed : State := ⟨0, ⟨uuidNull, 0, 0, 0⟩, 0⟩

def firstEntry : TocEntry := ⟨fun _ => 1, 0x100, 1, 0⟩

theorem error_leaves_closed_absent :
    ∃ s', fipFileOpen ⟨true, true, [(true, firstEntry), (true, closed.entry)]⟩ closed (fun _ => 2) =
      some (s', false) ∧ ∀ later uuid, later.Finds uuid →
        ∃ s'', fipFileOpen later s' uuid = some (s'', true) := by
  obtain ⟨s', h⟩ : ∃ s', fipFileOpen ⟨true, true, [(true, firstEntry), (true, closed.entry)]⟩
      closed (fun _ => 2) = some (s', false) := ⟨_, rfl⟩
  refine ⟨s', h, ((error_leaves_closed_iff h).mpr ⟨rfl, ?_⟩).2.2⟩
  intro _ _ entry hfind
  cases hfind

/-- **A failed read locks the driver**: the second read of the walk fails, and with a backend that
works the first image can then not be opened. -/
theorem failed_read_locks :
    ∃ s' s'', fipFileOpen ⟨true, true, [(true, firstEntry), (false, firstEntry)]⟩ closed
        (fun _ => 2) = some (s', false) ∧
      fipFileOpen ⟨true, true, [(true, firstEntry)]⟩ s' firstEntry.uuid = some (s'', false) :=
  ⟨_, _, rfl, rfl⟩

end TrustedFirmware.Fip.OpenFaults
