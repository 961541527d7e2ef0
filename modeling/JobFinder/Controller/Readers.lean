/-
# Controller.Readers -- what the three lists need of a snapshot

`ExploreVC`, `PostedJobsVC` and `ShowApplicantsVC` load a snapshot of `postedJobs`
and cast the fields of its records, while they fill their lists, configure their
cells and make a popover for a selected row.  None of these casts fails on complete
records; the lists of the posters trap as soon as one record, of whatever poster, has
no `jobPoster`.  Whether the view of a listing then loads is a matter of its coordinates
(`usable_iff`).
-/
import JobFinder.Controller.Explore
import JobFinder.Controller.ShowApplicants

namespace JobFinder.Controller

open JobFinder.Theory JobFinder.Database

set_option autoImplicit false

/-- Loaded from this snapshot, the three lists fill, every row of theirs can be shown, and
every row of the two lists of jobs has all that its popover takes: no forced cast fails.
`Usable` adds the view of a listing. -/
structure Readable (E : Enumeration) (me : String) (t : JobTree) : Prop where
  newJobs : ∀ row < (Explore.listed E t).count,
    (∃ cell, Explore.cellForItemAt E (Explore.listed E t) row = .ok cell) ∧
      ∃ listing, Explore.popover E (Explore.listed E t) row = .ok listing
  myPostedJobs : (PostedJobs.ownJobs E me t).trap = none
  postedCells : ∀ row < (PostedJobs.listed E me t).count,
    (∃ cell, PostedJobs.cellForItemAt E (PostedJobs.listed E me t) row = .ok cell) ∧
      ∃ popover, PostedJobs.selected E me t row = .ok popover
  applications : (ShowApplicants.myApplications E me t).trap = none
  applicantCells : ∀ row < (ShowApplicants.listed E me t).count, ∀ myCell,
    ∃ cell, ShowApplicants.cellForItemAt E (ShowApplicants.listed E me t) myCell row = .ok cell

/-! ## The entries of the lists -/

section Entries

variable {E : Enumeration} {me : String} {t : JobTree}

theorem Explore.nodup_newEntries (E : Enumeration) (t : JobTree) :
    ((newEntries E t).map Sigma.fst).Nodup := by
  rw [newEntries, List.map_reverse]
  exact List.nodup_reverse.mpr (JobTree.nodup_keys E t)

theorem Explore.count_listed (E : Enumeration) (t : JobTree) :
    (listed E t).count = (newEntries E t).length := Counted.count_ofEntries _

theorem PostedJobs.mem_ownJobs (loaded : (ownJobs E me t).trap = none) {key : String}
    {data : JobRecord} : ⟨key, data⟩ ∈ (ownJobs E me t).out ↔
      key ∈ t ∧ t.node key = data ∧ data.fields .jobPoster = some me := by
  refine ⟨own_of_mem loaded, ?_⟩
  rintro ⟨present, record, own⟩
  rw [ownJobs_ok loaded, List.mem_filter]
  exact ⟨(JobTree.mem_order E).mpr ⟨present, record⟩, decide_eq_true own⟩

theorem PostedJobs.nodup_ownJobs (loaded : (ownJobs E me t).trap = none) :
    ((ownJobs E me t).out.map Sigma.fst).Nodup := by
  rw [ownJobs_ok loaded]
  exact (JobTree.nodup_keys E t).sublist (List.filter_sublist.map _)

theorem PostedJobs.count_listed (E : Enumeration) (me : String) (t : JobTree) :
    (listed E me t).count = (ownJobs E me t).out.length := Counted.count_ofEntries _

theorem ShowApplicants.count_listed (E : Enumeration) (me : String) (t : JobTree) :
    (listed E me t).count = (myApplications E me t).out.length := Counted.count_ofEntries _

end Entries

/-! ## The popovers of the new jobs -/

section Popovers

variable {E : Enumeration} {jobs : Counted JobRecord} {row : ℕ} {data : JobRecord}
  {listing : JobListing}

/-- The popover has the texts of the record, and the row. -/
theorem Explore.fields_of_row (read : jobs.row E row = .ok data)
    (selected : popover E jobs row = .ok listing) :
    data.fields .latt = some listing.jobLatt ∧ data.fields .longt = some listing.jobLongt ∧
      data.fields .title = some listing.jobTitle ∧
      data.fields .description = some listing.jobDescription ∧
      data.fields .salary = some listing.jobSalary ∧
      data.fields .jobPoster = some listing.jobPoster ∧ listing.jobID = row := by
  obtain ⟨data', read', selected⟩ := bind_ok.mp selected
  cases read.symm.trans read'
  obtain ⟨latt, lattRead, selected⟩ := bind_ok.mp selected
  obtain ⟨longt, longtRead, selected⟩ := bind_ok.mp selected
  obtain ⟨title, titleRead, selected⟩ := bind_ok.mp selected
  obtain ⟨description, descriptionRead, selected⟩ := bind_ok.mp selected
  obtain ⟨salary, salaryRead, selected⟩ := bind_ok.mp selected
  obtain ⟨poster, posterRead, selected⟩ := bind_ok.mp selected
  cases selected
  exact ⟨forceCast_ok.mp lattRead, forceCast_ok.mp longtRead, forceCast_ok.mp titleRead,
    forceCast_ok.mp descriptionRead, forceCast_ok.mp salaryRead, forceCast_ok.mp posterRead, rfl⟩

/-- The fields that a listing is made of. -/
def JobListing.fields : List JobField := [.latt, .longt, .title, .description, .salary, .jobPoster]

/-- A row has a popover exactly if its record has all that the popover takes of it. -/
theorem Explore.popover_iff (read : jobs.row E row = .ok data) :
    (∃ listing, popover E jobs row = .ok listing) ↔ data.Has JobListing.fields := by
  constructor
  · rintro ⟨listing, selected⟩
    obtain ⟨latt, longt, title, description, salary, poster, _⟩ := fields_of_row read selected
    simp [JobRecord.Has, JobListing.fields, latt, longt, title, description, salary, poster]
  · intro has
    obtain ⟨latt, c₁⟩ := has.cast_ok (f := .latt) (by decide)
    obtain ⟨longt, c₂⟩ := has.cast_ok (f := .longt) (by decide)
    obtain ⟨title, c₃⟩ := has.cast_ok (f := .title) (by decide)
    obtain ⟨description, c₄⟩ := has.cast_ok (f := .description) (by decide)
    obtain ⟨salary, c₅⟩ := has.cast_ok (f := .salary) (by decide)
    obtain ⟨poster, c₆⟩ := has.cast_ok (f := .jobPoster) (by decide)
    refine ⟨⟨latt, longt, title, description, salary, poster, row⟩, ?_⟩
    rw [popover, read]
    simp only [bind, Except.bind, c₁, c₂, c₃, c₄, c₅, c₆]
    rfl

/-- A row can be opened exactly if its record has all that, and coordinates that can be
loaded. -/
theorem JobListing.opens_iff_has (manager : LocationManager) (read : jobs.row E row = .ok data) :
    Opens E manager jobs row ↔
      data.Has JobListing.fields ∧ LoadableCoordinates manager data.fields := by
  have loadable {listing : JobListing} (selected : Explore.popover E jobs row = .ok listing) :
      LoadableCoordinates manager data.fields ↔ listing.Loads manager := by
    obtain ⟨latt, longt, _⟩ := Explore.fields_of_row read selected
    rw [loads_iff manager listing]
    simp [LoadableCoordinates, latt, longt]
  constructor
  · rintro ⟨listing, opened⟩
    obtain ⟨selected, loads⟩ := Explore.didSelectItemAt_ok.mp opened
    exact ⟨(Explore.popover_iff read).mp ⟨listing, selected⟩, (loadable selected).mpr loads⟩
  · rintro ⟨has, coordinates⟩
    obtain ⟨listing, selected⟩ := (Explore.popover_iff read).mpr has
    exact ⟨listing, Explore.didSelectItemAt_ok.mpr ⟨selected, (loadable selected).mp coordinates⟩⟩

/-- A complete record has all but the coordinates for sure. -/
theorem JobListing.opens_iff (manager : LocationManager) (read : jobs.row E row = .ok data)
    (whole : data.Complete) : Opens E manager jobs row ↔ LoadableCoordinates manager data.fields :=
  (opens_iff_has manager read).trans (and_iff_right (whole.has _))

/-- A row of the user's own list has a popover exactly if its record has a description. -/
theorem PostedJobs.popover_iff {selectedCell : JobCell} (read : jobs.row E row = .ok data) :
    (∃ popover, didSelectItemAt E selectedCell jobs row = .ok popover) ↔ data.Has [.description] := by
  simp only [didSelectItemAt, read, bind_ok, Except.ok.injEq, JobRecord.cast, forceCast_ok,
    JobRecord.Has, List.mem_singleton, forall_eq, Option.isSome_iff_exists]
  constructor
  · rintro ⟨popover, _, rfl, description, described, _⟩
    exact ⟨description, described⟩
  · rintro ⟨description, described⟩
    exact ⟨_, data, rfl, description, described, rfl⟩

/-- In a list of complete records a row can be opened exactly if the coordinates of its job
can be loaded. -/
theorem JobListing.row_opens_iff (manager : LocationManager) {t : JobTree} (complete : t.Complete)
    {k : String} (below : row < (Explore.listed E t).count)
    (displayed : Explore.displayed E t row = some k) :
    Opens E manager (Explore.listed E t) row ↔ LoadableCoordinates manager (t.field k) := by
  rw [Explore.count_listed] at below
  obtain ⟨k', data, displayed', read, member⟩ := Counted.rowKey_lt E below
  obtain rfl : k = k' := Option.some.inj (displayed.symm.trans displayed')
  obtain ⟨present, rfl⟩ := Explore.mem_newEntries.mp member
  exact opens_iff manager read (complete.record present)

/-- All rows can be opened exactly if all the coordinates can be loaded. -/
theorem JobListing.listed_open_iff (manager : LocationManager) {t : JobTree} (complete : t.Complete) :
    (∀ row < (Explore.listed E t).count, Opens E manager (Explore.listed E t) row) ↔
      ∀ k ∈ t, LoadableCoordinates manager (t.field k) := by
  constructor
  · intro all k present
    obtain ⟨row, below, displayed⟩ :=
      Counted.exists_rowKey E (Explore.mem_newEntries.mpr ⟨present, rfl⟩)
    rw [← Explore.count_listed] at below
    exact (row_opens_iff manager complete below displayed).mp (all row below)
  · intro loadable row below
    obtain ⟨k, data, displayed, _, member⟩ := Counted.rowKey_lt E (Explore.count_listed E t ▸ below)
    obtain ⟨present, rfl⟩ := Explore.mem_newEntries.mp member
    exact (row_opens_iff manager complete below displayed).mpr (loadable k present)

end Popovers

section Readable

variable {E : Enumeration} {me : String} {t : JobTree}

/-- The fields that a cell shows. -/
def JobCell.fields : List JobField := [.title, .literal, .salary]

/-- A cell is set up exactly if the record has what it shows. -/
theorem jobCell_iff {data : JobRecord} :
    (∃ cell, jobCell data = .ok cell) ↔ data.Has JobCell.fields := by
  constructor
  · rintro ⟨cell, labels⟩
    obtain ⟨title, literal, salary, paid, _⟩ := jobCell_ok labels
    simp [JobRecord.Has, JobCell.fields, title, literal, paid]
  · intro has
    obtain ⟨title, titled⟩ := has.cast_ok (f := .title) (by decide)
    obtain ⟨literal, located⟩ := has.cast_ok (f := .literal) (by decide)
    obtain ⟨salary, paid⟩ := has.cast_ok (f := .salary) (by decide)
    exact ⟨⟨title, literal, salary ++ " $/hr"⟩, by rw [jobCell, titled, located, paid]; rfl⟩

/-- On complete records the list of new jobs can be shown, and makes its popovers. -/
theorem newJobs_complete (complete : t.Complete) {row : ℕ}
    (below : row < (Explore.listed E t).count) :
    (∃ cell, Explore.cellForItemAt E (Explore.listed E t) row = .ok cell) ∧
      ∃ listing, Explore.popover E (Explore.listed E t) row = .ok listing := by
  obtain ⟨data, listed, read⟩ := (Explore.listed E t).row_lt E below
  have whole : data.Complete := by
    rw [Explore.listed, Explore.setNewJobs, Counted.values_pushAll, Counted.values_empty,
      List.nil_append] at listed
    obtain ⟨⟨k, r⟩, entry, rfl⟩ := List.mem_map.mp listed
    obtain ⟨present, rfl⟩ := Explore.mem_newEntries.mp entry
    exact complete.record present
  constructor
  · rw [Explore.cellForItemAt, read]
    exact jobCell_iff.mpr (whole.has _)
  · exact (Explore.popover_iff read).mpr (whole.has _)

/-- On complete records the poster's own list can be shown and selected from. -/
theorem postedCells_complete (complete : t.Complete) {row : ℕ}
    (below : row < (PostedJobs.listed E me t).count) :
    (∃ cell, PostedJobs.cellForItemAt E (PostedJobs.listed E me t) row = .ok cell) ∧
      ∃ popover, PostedJobs.selected E me t row = .ok popover := by
  obtain ⟨data, listed, read⟩ := (PostedJobs.listed E me t).row_lt E below
  have whole : data.Complete := by
    rw [PostedJobs.listed, PostedJobs.setMyPostedJobs, Counted.values_pushAll, Counted.values_empty,
      List.nil_append] at listed
    obtain ⟨⟨k, r⟩, entry, rfl⟩ := List.mem_map.mp listed
    obtain ⟨present, rfl, _⟩ := PostedJobs.own_of_mem (PostedJobs.ownJobs_complete complete) entry
    exact complete.record present
  obtain ⟨cell, labels⟩ := jobCell_iff.mpr (whole.has _)
  have configured : PostedJobs.cellForItemAt E (PostedJobs.listed E me t) row = .ok cell := by
    rw [PostedJobs.cellForItemAt, read]
    exact labels
  obtain ⟨description, _, described⟩ := whole.cast_ok .description
  refine ⟨⟨cell, configured⟩,
    ⟨cell.jobTitle, cell.jobLocation, cell.jobHourlyRate, description, row⟩, ?_⟩
  rw [PostedJobs.selected, configured]
  simp only [bind, Except.bind, PostedJobs.didSelectItemAt, read, described]
  rfl

/-- On complete records the list of applications can be shown. -/
theorem applicantCells_complete (complete : t.Complete) {row : ℕ}
    (below : row < (ShowApplicants.listed E me t).count) (myCell : ApplicantCell) :
    ∃ cell, ShowApplicants.cellForItemAt E (ShowApplicants.listed E me t) myCell row = .ok cell := by
  obtain ⟨data, listed, read⟩ := (ShowApplicants.listed E me t).row_lt E below
  rw [ShowApplicants.listed, ShowApplicants.setMyPostedJobs, Counted.values_pushAll,
    Counted.values_empty, List.nil_append] at listed
  obtain ⟨⟨⟨k, a⟩, data'⟩, entry, rfl⟩ := List.mem_map.mp listed
  obtain ⟨filed, titled, _⟩ := ShowApplicants.mem_myApplications entry
  obtain ⟨title, found⟩ := complete.field (JobTree.mem_of_applicant filed) .title
  rw [ShowApplicants.cellForItemAt, read]
  simp only [bind, Except.bind, titled, found, forceCast]
  exact ⟨_, rfl⟩

/-- **Complete records can be read.** -/
theorem readable_complete (E : Enumeration) (me : String) (complete : t.Complete) :
    Readable E me t where
  newJobs _ below := newJobs_complete complete below
  myPostedJobs := PostedJobs.ownJobs_complete complete
  postedCells _ below := postedCells_complete complete below
  applications := ShowApplicants.myApplications_complete complete
  applicantCells _ below myCell := applicantCells_complete complete below myCell

/-- A record without a poster traps the list of every poster. -/
theorem poster_of_readable (readable : Readable E me t) {k : String} (present : k ∈ t) :
    ∃ poster, t.field k .jobPoster = some poster := by
  have listed : ⟨k, t.node k⟩ ∈ E.order t.jobs := (JobTree.mem_order E).mpr ⟨present, rfl⟩
  exact PostedJobs.trap_ownJob.mp (Issued.trap_forEach.mp readable.myPostedJobs _ listed)

/-- Whatever is listed can only be shown and made a popover of if it is complete. -/
theorem complete_of_readable (readable : Readable E me t) : t.Complete := by
  intro k present
  have entry : ⟨k, t.node k⟩ ∈ Explore.newEntries E t := Explore.mem_newEntries.mpr ⟨present, rfl⟩
  obtain ⟨row, below, displayed⟩ := Counted.exists_rowKey E entry
  rw [← Counted.count_ofEntries] at below
  obtain ⟨⟨cell, configured⟩, listing, opened⟩ := readable.newJobs row below
  obtain ⟨key, displayed', shows_, _⟩ := Explore.popover_shows opened
  obtain rfl : k = key := Option.some.inj (displayed.symm.trans displayed')
  -- the row's cell is of the same record, and has the one field that the listing has not
  obtain ⟨data, read, labels⟩ := bind_ok.mp configured
  obtain ⟨key, displayed'', member⟩ := Counted.rowKey_of_row read
  obtain rfl : k = key := Option.some.inj (displayed.symm.trans displayed'')
  obtain ⟨_, rfl⟩ := Explore.mem_newEntries.mp member
  obtain ⟨_, located, _⟩ := jobCell_ok labels
  have literal : t.field k .literal = some cell.jobLocation := located
  intro f
  cases f with
  | title => rw [shows_.title]; rfl
  | latt => rw [shows_.latt]; rfl
  | longt => rw [shows_.longt]; rfl
  | literal => rw [literal]; rfl
  | salary => rw [shows_.salary]; rfl
  | description => rw [shows_.description]; rfl
  | jobPoster => rw [shows_.poster]; rfl

end Readable

end JobFinder.Controller
