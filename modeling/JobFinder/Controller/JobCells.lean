/-
# Controller.JobCells -- the job cells on the screen, and what a tap on one opens

`ExploreVC` and `PostedJobsVC` show their jobs in the cells of a collection view.  A cell
is set up from the list when it comes on the screen; the tap on it reads the list again.
`PostedJobsVC` also takes three of the four texts from the labels of the tapped cell, and
the description from the list.

Both change the list only where they reload the collection view in the same turn: on a
call, and on a delivery.  A reload takes every cell off the screen.  So a cell on the
screen always shows what the list still holds at its row (`InSync`).  Whatever is loaded,
in whatever order, and whichever cells are displayed and tapped, no row is ever out of
range, and what a tap opens is all of one job, the one the cell shows
(`postedJobs_popovers`, `explore_listings`).
-/
import JobFinder.Controller.Readers
import JobFinder.Theory.Run

namespace JobFinder.Controller

open JobFinder.Theory JobFinder.Database

set_option autoImplicit false

/-- A screen that lists jobs: what a load appends to its list, and what a tap on a cell
opens. -/
structure JobsVC (Popover : Type) where
  load : JobTree → Issued (Σ _ : String, JobRecord)
  didSelectItemAt : JobCell → Counted JobRecord → ℕ → Except Trap Popover

/-- The screen of `PostedJobsVC`. -/
def PostedJobs.vc (E : Enumeration) (me : String) : JobsVC EditJob where
  load := PostedJobs.ownJobs E me
  didSelectItemAt := PostedJobs.didSelectItemAt E

/-- The screen of `ExploreVC`.  It takes nothing from the cell. -/
def Explore.vc (E : Enumeration) (manager : LocationManager) : JobsVC JobListing where
  load snapshot := .done (Explore.newEntries E snapshot)
  didSelectItemAt _ := Explore.didSelectItemAt E manager

/-- A collection view of jobs: the list, the loads outstanding, the number of items the
view was told of, the cells on the screen with their rows, what has been opened from which
cell, and the trap that has ended the app. -/
structure JobsCV (Popover : Type) where
  jobs : Counted JobRecord
  loads : ℕ
  items : ℕ
  onScreen : List (ℕ × JobCell)
  opened : List (ℕ × JobCell × Popover)
  trapped : Option Trap

namespace JobsCV

variable {Popover : Type}

/-- The view has loaded, and its first load is outstanding. -/
def viewDidLoad : JobsCV Popover := ⟨.empty, 1, 0, [], [], none⟩

/-- `reloadData`. -/
def reloadData (cv : JobsCV Popover) : JobsCV Popover :=
  { cv with items := cv.jobs.count, onScreen := [] }

inductive Event where
  /-- The list is cleared, and loaded anew. -/
  | call
  /-- The read of a load is delivered. -/
  | deliver (snapshot : JobTree)
  /-- A row comes on the screen, in a cell that is new or reused. -/
  | display (row : ℕ)
  /-- A cell leaves the screen. -/
  | endDisplaying (cell : ℕ)
  /-- A cell on the screen is tapped. -/
  | select (cell : ℕ)

/-- One event.  An empty tree is no dictionary, and reloads nothing. -/
def step (E : Enumeration) (vc : JobsVC Popover) (cv : JobsCV Popover) :
    Event → Option (JobsCV Popover)
  | .call =>
      if cv.trapped = none then some { cv with jobs := .empty, loads := cv.loads + 1 }.reloadData
      else none
  | .deliver snapshot =>
      if cv.trapped = none ∧ 0 < cv.loads then
        if snapshot.jobs.entries = [] then some { cv with loads := cv.loads - 1 }
        else
          match (vc.load snapshot).trap with
          | none =>
              some { cv with
                jobs := cv.jobs.pushAll ((vc.load snapshot).out.map Sigma.snd)
                loads := cv.loads - 1 }.reloadData
          | some trap => some { cv with trapped := some trap }
      else none
  | .display row =>
      if cv.trapped = none ∧ row < cv.items then
        match cv.jobs.row E row >>= jobCell with
        | .ok cell => some { cv with onScreen := (row, cell) :: cv.onScreen }
        | .error trap => some { cv with trapped := some trap }
      else none
  | .endDisplaying i =>
      if cv.trapped = none then some { cv with onScreen := cv.onScreen.eraseIdx i } else none
  | .select i =>
      if cv.trapped = none then
        cv.onScreen[i]?.map fun (row, selectedCell) =>
          match vc.didSelectItemAt selectedCell cv.jobs row with
          | .ok popover => { cv with opened := cv.opened ++ [(row, selectedCell, popover)] }
          | .error trap => { cv with trapped := some trap }
      else none

/-! ## The list and the cells -/

/-- What the two screens have in common: they append records of the tree, trap in some of
these ways only, forced casts among them, and find whatever they read in a good record,
which is complete. -/
structure Lists (E : Enumeration) (vc : JobsVC Popover) (ways : Trap → Prop)
    (Good : JobRecord → Prop) : Prop where
  mem : ∀ t key data, (vc.load t).trap = none → ⟨key, data⟩ ∈ (vc.load t).out →
    key ∈ t ∧ t.node key = data
  cast : ways .forcedCast
  complete : ∀ data, Good data → data.Complete
  load : ∀ t trap, (vc.load t).trap = some trap → trap = .forcedCast
  select : ∀ cell jobs row data, Counted.row E jobs row = .ok data →
    TrapsIn ways (vc.didSelectItemAt cell jobs row)
  load_complete : ∀ t : JobTree, t.Complete → (vc.load t).trap = none
  select_good : ∀ cell jobs row data, Counted.row E jobs row = .ok data → Good data →
    ∃ popover, vc.didSelectItemAt cell jobs row = .ok popover

/-- Every record of the tree is good. -/
def AllGood (Good : JobRecord → Prop) (t : JobTree) : Prop := ∀ k ∈ t, Good (t.node k)

/-- The cell shows the record, which was delivered. -/
structure ShowsRecord (vc : JobsVC Popover) (Delivered : JobTree → Prop) (cell : JobCell)
    (data : JobRecord) : Prop where
  cell : jobCell data = .ok cell
  source : ∃ t key, Delivered t ∧ (vc.load t).trap = none ∧ ⟨key, data⟩ ∈ (vc.load t).out

/-- The view knows the list as it is, every cell on the screen shows what stands at its
row, and what has been opened was opened from such a cell. -/
structure InSync (E : Enumeration) (vc : JobsVC Popover) (ways : Trap → Prop)
    (Good : JobRecord → Prop) (Delivered : JobTree → Prop) (cv : JobsCV Popover) : Prop where
  items : cv.items = cv.jobs.count
  source : ∀ data ∈ cv.jobs.values,
    ∃ t key, Delivered t ∧ (vc.load t).trap = none ∧ ⟨key, data⟩ ∈ (vc.load t).out
  onScreen : ∀ row cell, (row, cell) ∈ cv.onScreen →
    ∃ data, cv.jobs.row E row = .ok data ∧ ShowsRecord vc Delivered cell data
  opened : ∀ row cell popover, (row, cell, popover) ∈ cv.opened →
    ∃ jobs data, Counted.row E jobs row = .ok data ∧ ShowsRecord vc Delivered cell data ∧
      vc.didSelectItemAt cell jobs row = .ok popover
  trapped : ∀ trap, cv.trapped = some trap → ways trap
  good : (∀ t, Delivered t → AllGood Good t) → cv.trapped = none

section Runs

variable {E : Enumeration} {vc : JobsVC Popover} {ways : Trap → Prop} {Good : JobRecord → Prop}
  {Delivered : JobTree → Prop} {cv cv' : JobsCV Popover}

theorem trapsIn_jobCell (cast : ways .forcedCast) (data : JobRecord) : TrapsIn ways (jobCell data) :=
  (trapsIn_forceCast cast _).bind fun _ => (trapsIn_forceCast cast _).bind fun _ =>
    (trapsIn_forceCast cast _).bind fun _ => trapsIn_ok _

theorem Lists.complete_tree (lists : Lists E vc ways Good) {t : JobTree} (good : AllGood Good t) :
    t.Complete := fun k present => lists.complete _ (good k present)

theorem inSync_viewDidLoad : InSync E vc ways Good Delivered viewDidLoad where
  items := rfl
  source _ member := absurd member List.not_mem_nil
  onScreen _ _ member := absurd member List.not_mem_nil
  opened _ _ _ member := absurd member List.not_mem_nil
  trapped _ impossible := by cases impossible
  good _ := rfl

/-- The app ends in one of the ways, and not on good records. -/
theorem InSync.trap (inSync : InSync E vc ways Good Delivered cv) {trap : Trap} (way : ways trap)
    (bad : ¬ ∀ t, Delivered t → AllGood Good t) :
    InSync E vc ways Good Delivered { cv with trapped := some trap } where
  items := inSync.items
  source := inSync.source
  onScreen := inSync.onScreen
  opened := inSync.opened
  trapped _ same := by
    cases same
    exact way
  good all := absurd all bad

/-- The list changes, and the view is reloaded. -/
theorem InSync.reloadData (inSync : InSync E vc ways Good Delivered cv)
    {jobs : Counted JobRecord} {loads : ℕ}
    (source : ∀ data ∈ jobs.values,
      ∃ t key, Delivered t ∧ (vc.load t).trap = none ∧ ⟨key, data⟩ ∈ (vc.load t).out) :
    InSync E vc ways Good Delivered { cv with jobs := jobs, loads := loads }.reloadData where
  items := rfl
  source := source
  onScreen _ _ member := absurd member List.not_mem_nil
  opened := inSync.opened
  trapped := inSync.trapped
  good := inSync.good

/-- A record of the list is good if everything delivered is. -/
theorem good_of_source (lists : Lists E vc ways Good) (all : ∀ t, Delivered t → AllGood Good t)
    {data : JobRecord}
    (source : ∃ t key, Delivered t ∧ (vc.load t).trap = none ∧ ⟨key, data⟩ ∈ (vc.load t).out) :
    Good data := by
  obtain ⟨t, key, delivered, loaded, member⟩ := source
  obtain ⟨present, rfl⟩ := lists.mem t key data loaded member
  exact all t delivered key present

/-- The step of the invariant. -/
theorem InSync.step {e : Event} (lists : Lists E vc ways Good)
    (inSync : InSync E vc ways Good Delivered cv)
    (delivered : ∀ t, e = .deliver t → Delivered t) (stepped : cv.step E vc e = some cv') :
    InSync E vc ways Good Delivered cv' := by
  cases e with
  | call =>
      simp only [JobsCV.step] at stepped
      split at stepped
      · cases stepped
        exact inSync.reloadData fun _ member => absurd member List.not_mem_nil
      · cases stepped
  | deliver t =>
      simp only [JobsCV.step] at stepped
      split at stepped
      · split at stepped
        · cases stepped
          exact ⟨inSync.items, inSync.source, inSync.onScreen, inSync.opened, inSync.trapped,
            inSync.good⟩
        · split at stepped
          · rename_i loaded
            cases stepped
            refine inSync.reloadData fun data member => ?_
            rw [Counted.values_pushAll] at member
            rcases List.mem_append.mp member with before | now
            · exact inSync.source data before
            · obtain ⟨⟨key, data'⟩, appended, rfl⟩ := List.mem_map.mp now
              exact ⟨t, key, delivered t rfl, loaded, appended⟩
          · rename_i trap failed
            cases stepped
            cases lists.load t trap failed
            refine inSync.trap lists.cast fun all => ?_
            have complete := lists.complete_tree (all t (delivered t rfl))
            cases (lists.load_complete t complete).symm.trans failed
      · cases stepped
  | display row =>
      simp only [JobsCV.step] at stepped
      split at stepped
      · rename_i shown
        -- the row is one of the list's, since the view knows its count
        obtain ⟨data, value, read⟩ := cv.jobs.row_lt E (inSync.items ▸ shown.2)
        have labels : (cv.jobs.row E row >>= jobCell) = jobCell data := by
          rw [read]
          rfl
        rw [labels] at stepped
        split at stepped
        · rename_i cell configured
          cases stepped
          refine ⟨inSync.items, inSync.source, fun row' cell' member => ?_, inSync.opened,
            inSync.trapped, inSync.good⟩
          rcases List.mem_cons.mp member with same | before
          · cases same
            exact ⟨data, read, configured, inSync.source data value⟩
          · exact inSync.onScreen row' cell' before
        · rename_i trap failed
          cases stepped
          refine inSync.trap (trapsIn_jobCell lists.cast data trap failed) fun all => ?_
          obtain ⟨cell, configured⟩ := jobCell_iff.mpr
            ((lists.complete data (good_of_source lists all (inSync.source data value))).has _)
          cases failed.symm.trans configured
      · cases stepped
  | endDisplaying i =>
      simp only [JobsCV.step] at stepped
      split at stepped
      · cases stepped
        exact ⟨inSync.items, inSync.source,
          fun row cell member => inSync.onScreen row cell (List.mem_of_mem_eraseIdx member),
          inSync.opened, inSync.trapped, inSync.good⟩
      · cases stepped
  | select i =>
      simp only [JobsCV.step] at stepped
      split at stepped
      · obtain ⟨⟨row, cell⟩, at_, stepped⟩ := Option.map_eq_some_iff.mp stepped
        obtain ⟨data, read, shows_⟩ := inSync.onScreen row cell (List.mem_of_getElem? at_)
        simp only at stepped
        split at stepped
        · rename_i popover selected
          cases stepped
          refine ⟨inSync.items, inSync.source, inSync.onScreen, fun row' cell' popover' member => ?_,
            inSync.trapped, inSync.good⟩
          rcases List.mem_append.mp member with before | now
          · exact inSync.opened row' cell' popover' before
          · cases List.mem_singleton.mp now
            exact ⟨cv.jobs, data, read, shows_, selected⟩
        · rename_i trap failed
          cases stepped
          refine inSync.trap (lists.select cell cv.jobs row data read trap failed) fun all => ?_
          obtain ⟨popover, selected⟩ :=
            lists.select_good cell cv.jobs row data read (good_of_source lists all shows_.source)
          cases failed.symm.trans selected
      · cases stepped

theorem InSync.run {es : List Event} (lists : Lists E vc ways Good)
    (ran : run (JobsCV.step E vc) viewDidLoad es = some cv) :
    InSync E vc ways Good (fun t => .deliver t ∈ es) cv :=
  invariant_of_along (C := fun _ e => ∀ t, e = .deliver t → .deliver t ∈ es)
    (fun _ _ _ inSync delivered stepped => inSync.step lists delivered stepped)
    es _ _ inSync_viewDidLoad
    (along_of_forall fun _ member _ _ same => same ▸ member) ran

end Runs

/-! ## The two screens -/

section Screens

variable {E : Enumeration} {me : String} {manager : LocationManager}

theorem lists_postedJobs :
    Lists E (PostedJobs.vc E me) (fun trap => trap = .forcedCast) JobRecord.Complete where
  cast := rfl
  complete _ whole := whole
  mem t key data loaded member := by
    obtain ⟨present, record, _⟩ := PostedJobs.own_of_mem loaded member
    exact ⟨present, record⟩
  load t trap failed := by
    obtain ⟨i, _, body⟩ := Issued.trap_of_forEach failed
    cases read : i.2.cast .jobPoster with
    | error e =>
        rw [PostedJobs.ownJob, read] at body
        cases body
        exact @trapsIn_forceCast _ (fun trap => trap = .forcedCast) rfl _ trap read
    | ok poster =>
        rw [PostedJobs.ownJob, read, Issued.ofExcept_ok] at body
        split at body <;> cases body
  select cell jobs row data read := by
    show TrapsIn _ (PostedJobs.didSelectItemAt E cell jobs row)
    rw [PostedJobs.didSelectItemAt, read]
    refine (trapsIn_ok _).bind fun _ => TrapsIn.bind ?_ fun _ => trapsIn_ok _
    exact @trapsIn_forceCast _ (fun trap => trap = .forcedCast) rfl _
  load_complete t complete := PostedJobs.ownJobs_complete complete
  select_good cell jobs row data read whole := by
    obtain ⟨description, _, described⟩ := whole.cast_ok .description
    refine ⟨⟨cell.jobTitle, cell.jobLocation, cell.jobHourlyRate, description, row⟩, ?_⟩
    show PostedJobs.didSelectItemAt E cell jobs row = _
    rw [PostedJobs.didSelectItemAt, read]
    simp only [bind, Except.bind, described]
    rfl

/-- The record is complete, and the view of its listing loads on this device. -/
def CanOpen (manager : LocationManager) (data : JobRecord) : Prop :=
  data.Complete ∧ JobListing.LoadableCoordinates manager data.fields

theorem lists_explore :
    Lists E (Explore.vc E manager) (fun trap => trap ≠ .indexOutOfRange) (CanOpen manager) where
  cast impossible := by cases impossible
  complete _ good := good.1
  mem t key data _ member := Explore.mem_newEntries.mp member
  load t trap failed := by cases failed
  select cell jobs row data read := by
    show TrapsIn _ (Explore.didSelectItemAt E manager jobs row)
    have casts : TrapsIn (fun trap => trap ≠ .indexOutOfRange) (Explore.popover E jobs row) := by
      rw [Explore.popover, read]
      refine (trapsIn_ok _).bind fun _ => ?_
      iterate 6 refine (trapsIn_forceCast (fun impossible => by cases impossible) _).bind fun _ => ?_
      exact trapsIn_ok _
    refine casts.bind fun listing => TrapsIn.bind ?_ fun _ => trapsIn_ok _
    exact JobListing.trapsIn_viewDidLoad manager listing (fun impossible => by cases impossible)
      fun impossible => by cases impossible
  load_complete _ _ := rfl
  select_good cell jobs row data read good := (JobListing.opens_iff manager read good.1).mpr good.2

end Screens

/-- **What a popover of the poster's list shows.**  Whatever is loaded and reloaded, and
whichever cells are displayed and tapped: if the app ends it is at a forced cast, never at
a row; it does not end if all the records delivered are complete; and every popover that
was opened shows one job of the user, as one delivered tree had it, with all of its texts
from that job and with the row that was tapped. -/
theorem postedJobs_popovers {E : Enumeration} {me : String} {es : List Event} {cv : JobsCV EditJob}
    (ran : Theory.run (step E (PostedJobs.vc E me)) viewDidLoad es = some cv) :
    (∀ trap, cv.trapped = some trap → trap = .forcedCast) ∧
      ((∀ t, .deliver t ∈ es → t.Complete) → cv.trapped = none) ∧
      ∀ row cell popover, (row, cell, popover) ∈ cv.opened →
        ∃ t key, .deliver t ∈ es ∧ PostedJobs.Shows me t key popover ∧ popover.jobIndex = row ∧
          ∃ salary, t.field key .salary = some salary ∧ popover.jobSalary = salary ++ " $/hr" := by
  have inSync := InSync.run lists_postedJobs ran
  refine ⟨inSync.trapped, fun complete => inSync.good fun t delivered k present =>
    (complete t delivered).record present, fun row cell popover member => ?_⟩
  obtain ⟨jobs, data, read, ⟨labels, t, key, delivered, loaded, appended⟩, selected⟩ :=
    inSync.opened row cell popover member
  obtain ⟨_, rfl, own⟩ := PostedJobs.own_of_mem loaded appended
  obtain ⟨titled, located, salary, paid, rate⟩ := jobCell_ok labels
  obtain ⟨data', read', selected⟩ := bind_ok.mp selected
  cases read.symm.trans read'
  obtain ⟨description, described, selected⟩ := bind_ok.mp selected
  cases selected
  exact ⟨t, key, delivered, ⟨titled, located, forceCast_ok.mp described, own⟩, rfl, salary, paid, rate⟩

/-- Ann's list is loaded, her one job displayed and tapped; then the list is loaded anew. -/
def annsTap : List Event :=
  [.deliver (.single "b" (.sample "ann@x")), .display 0, .select 0, .call,
    .deliver (.single "b" (.sample "ann@x"))]

theorem postedJobs_popovers_ann :
    ∃ cv, Theory.run (step .inserted (PostedJobs.vc .inserted "ann@x")) viewDidLoad annsTap = some cv ∧
      cv.opened.length = 1 ∧
      (∀ trap, cv.trapped = some trap → trap = .forcedCast) ∧
      ((∀ t, .deliver t ∈ annsTap → t.Complete) → cv.trapped = none) ∧
      ∀ row cell popover, (row, cell, popover) ∈ cv.opened →
        ∃ t key, .deliver t ∈ annsTap ∧ PostedJobs.Shows "ann@x" t key popover ∧
          popover.jobIndex = row ∧
          ∃ salary, t.field key .salary = some salary ∧ popover.jobSalary = salary ++ " $/hr" :=
  ⟨_, rfl, rfl, @postedJobs_popovers .inserted "ann@x" annsTap _ rfl⟩

/-- **What a listing of the new jobs shows.**  The same for the searcher's list: every
listing that was opened shows the posted job that the tapped cell shows, whoever posted
it, and its view has loaded.  The app never ends at a row, and it does not end if all the
records delivered are complete with coordinates that the device can load. -/
theorem explore_listings {E : Enumeration} {manager : LocationManager} {es : List Event}
    {cv : JobsCV JobListing}
    (ran : Theory.run (step E (Explore.vc E manager)) viewDidLoad es = some cv) :
    (∀ trap, cv.trapped = some trap → trap ≠ .indexOutOfRange) ∧
      ((∀ t, .deliver t ∈ es → AllGood (CanOpen manager) t) → cv.trapped = none) ∧
      ∀ row cell listing, (row, cell, listing) ∈ cv.opened →
        listing.Loads manager ∧
          ∃ t key, .deliver t ∈ es ∧ Explore.Shows t key listing ∧ listing.jobID = row ∧
            cell.jobTitle = listing.jobTitle ∧ t.field key .literal = some cell.jobLocation ∧
            cell.jobHourlyRate = listing.jobSalary ++ " $/hr" := by
  have inSync := InSync.run lists_explore ran
  refine ⟨inSync.trapped, inSync.good, fun row cell listing member => ?_⟩
  obtain ⟨jobs, data, read, ⟨labels, t, key, delivered, _, appended⟩, opened⟩ :=
    inSync.opened row cell listing member
  obtain ⟨_, rfl⟩ := Explore.mem_newEntries.mp appended
  obtain ⟨titled, located, salary, paid, rate⟩ := jobCell_ok labels
  obtain ⟨selected, loads⟩ := Explore.didSelectItemAt_ok.mp opened
  obtain ⟨latt, longt, title, description, salary', poster, sameRow⟩ := Explore.fields_of_row read selected
  refine ⟨loads, t, key, delivered, ⟨latt, longt, title, description, salary', poster⟩, sameRow, ?_,
    located, ?_⟩
  · exact Option.some.inj (titled.symm.trans title)
  · rw [rate, Option.some.inj (paid.symm.trans salary')]

/-- Bob's and Ann's jobs are loaded, and the second row is displayed and tapped. -/
def evesTap : List Event := [.deliver .bobThenAnn, .display 1, .select 0]

theorem explore_listings_eve :
    ∃ cv, Theory.run (step .inserted (Explore.vc .inserted .sample)) viewDidLoad evesTap = some cv ∧
      cv.opened.length = 1 ∧
      (∀ trap, cv.trapped = some trap → trap ≠ .indexOutOfRange) ∧
      ((∀ t, .deliver t ∈ evesTap → AllGood (CanOpen .sample) t) → cv.trapped = none) ∧
      ∀ row cell listing, (row, cell, listing) ∈ cv.opened →
        listing.Loads .sample ∧
          ∃ t key, .deliver t ∈ evesTap ∧ Explore.Shows t key listing ∧ listing.jobID = row ∧
            cell.jobTitle = listing.jobTitle ∧ t.field key .literal = some cell.jobLocation ∧
            cell.jobHourlyRate = listing.jobSalary ++ " $/hr" := by
  refine ⟨_, rfl, ?_, @explore_listings .inserted .sample evesTap _ rfl⟩
  decide +kernel

end JobsCV

end JobFinder.Controller
