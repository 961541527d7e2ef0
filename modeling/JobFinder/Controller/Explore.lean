/-
# Controller.Explore -- the list of new jobs

`ExploreVC.SetNewJobs` lists all the posted jobs in the reverse of the order in
which their dictionary is enumerated, each under the count at which it was
appended; the keys under which the jobs are posted are dropped.  Selecting a row
opens a listing with the data of the job in that row, and with the row itself as
the job's only identification; adding the listing to the screen loads its view.
-/
import JobFinder.Controller.ListingView
import JobFinder.Controller.PostedJobs

namespace JobFinder.Controller

open JobFinder.Theory JobFinder.Database

set_option autoImplicit false

namespace Explore

/-- The entries a delivered read of `SetNewJobs` appends. -/
def newEntries (E : Enumeration) (snapshot : JobTree) : List (Σ _ : String, JobRecord) :=
  (E.order snapshot.jobs).reverse

/-- `SetNewJobs` when its read is delivered.  An empty tree is no dictionary, and
nothing is appended. -/
def setNewJobs (E : Enumeration) (snapshot : JobTree) (newJobs : Counted JobRecord) :
    Counted JobRecord :=
  newJobs.pushAll ((newEntries E snapshot).map Sigma.snd)

/-- `collectionView(_:cellForItemAt:)`. -/
def cellForItemAt (E : Enumeration) (newJobs : Counted JobRecord) (row : ℕ) :
    Except Trap JobCell :=
  newJobs.row E row >>= jobCell

/-- The popover of `collectionView(_:didSelectItemAt:)`, before it is added to the screen. -/
def popover (E : Enumeration) (newJobs : Counted JobRecord) (row : ℕ) : Except Trap JobListing := do
  let data ← newJobs.row E row
  let latt ← data.cast .latt
  let longt ← data.cast .longt
  let title ← data.cast .title
  let description ← data.cast .description
  let salary ← data.cast .salary
  let poster ← data.cast .jobPoster
  return ⟨latt, longt, title, description, salary, poster, row⟩

/-- `collectionView(_:didSelectItemAt:)`.  To frame the view of the popover is to load it. -/
def didSelectItemAt (E : Enumeration) (manager : LocationManager) (newJobs : Counted JobRecord)
    (row : ℕ) : Except Trap JobListing := do
  let listing ← popover E newJobs row
  let _ ← listing.viewDidLoad manager
  return listing

/-- The list after a single load. -/
def listed (E : Enumeration) (t : JobTree) : Counted JobRecord := setNewJobs E t .empty

/-- The key of the job displayed in a row; the list itself does not hold it. -/
def displayed (E : Enumeration) (t : JobTree) (row : ℕ) : Option String :=
  Counted.rowKey E (newEntries E t) row

/-- The listing shows the data of the job at `key`. -/
structure Shows (t : JobTree) (key : String) (listing : JobListing) : Prop where
  latt : t.field key .latt = some listing.jobLatt
  longt : t.field key .longt = some listing.jobLongt
  title : t.field key .title = some listing.jobTitle
  description : t.field key .description = some listing.jobDescription
  salary : t.field key .salary = some listing.jobSalary
  poster : t.field key .jobPoster = some listing.jobPoster

section Rows

variable {E : Enumeration} {t : JobTree} {row : ℕ} {listing : JobListing}

theorem mem_newEntries {key : String} {data : JobRecord} :
    ⟨key, data⟩ ∈ newEntries E t ↔ key ∈ t ∧ t.node key = data := by
  rw [newEntries, List.mem_reverse, JobTree.mem_order]

theorem didSelectItemAt_ok {manager : LocationManager} {newJobs : Counted JobRecord} :
    didSelectItemAt E manager newJobs row = .ok listing ↔
      popover E newJobs row = .ok listing ∧ listing.Loads manager := by
  simp only [didSelectItemAt, bind_ok, JobListing.Loads]
  constructor
  · rintro ⟨listing', opened, view, loaded, same⟩
    cases same
    exact ⟨opened, view, loaded⟩
  · rintro ⟨opened, view, loaded⟩
    exact ⟨listing, opened, view, loaded, rfl⟩

/-- **What a selected row displays** is a posted job, and the listing keeps its row. -/
theorem popover_shows (opened : popover E (listed E t) row = .ok listing) :
    ∃ key, displayed E t row = some key ∧ Shows t key listing ∧ listing.jobID = row := by
  obtain ⟨data, read, opened⟩ := bind_ok.mp opened
  obtain ⟨latt, lattRead, opened⟩ := bind_ok.mp opened
  obtain ⟨longt, longtRead, opened⟩ := bind_ok.mp opened
  obtain ⟨title, titleRead, opened⟩ := bind_ok.mp opened
  obtain ⟨description, descriptionRead, opened⟩ := bind_ok.mp opened
  obtain ⟨salary, salaryRead, opened⟩ := bind_ok.mp opened
  obtain ⟨poster, posterRead, opened⟩ := bind_ok.mp opened
  cases opened
  obtain ⟨key, displayed, member⟩ := Counted.rowKey_of_row read
  obtain ⟨_, rfl⟩ := mem_newEntries.mp member
  exact ⟨key, displayed,
    ⟨forceCast_ok.mp lattRead, forceCast_ok.mp longtRead, forceCast_ok.mp titleRead,
      forceCast_ok.mp descriptionRead, forceCast_ok.mp salaryRead, forceCast_ok.mp posterRead⟩,
    rfl⟩

end Rows

end Explore

/-- A tap on the row opens a listing, and its view loads. -/
def JobListing.Opens (E : Enumeration) (manager : LocationManager) (newJobs : Counted JobRecord)
    (row : ℕ) : Prop :=
  ∃ listing, Explore.didSelectItemAt E manager newJobs row = .ok listing

end JobFinder.Controller
