/-
# Controller.PostedJobs -- the signed-in poster's list of jobs

`PostedJobsVC.SetMyPostedJobs` clears `myPostedJobs` when it is called, and fills
it when its read of `postedJobs` is delivered, by appending the jobs whose
`jobPoster` is the signed-in user at the current count.  It is called once when
the view loads and once more by every removal, so several of its loads may be
outstanding at a time, all appending to the one list.

The list is a `Counted` dictionary; a row of the collection view is an index into
its enumeration.  The screen simulates the loads of `Theory.Loads` (`step_abs`),
whose exact condition becomes `settled_listsOwnJobsOnce_iff` here: the settled
list is right exactly when the last call found no earlier load outstanding, save
such as deliver no job of the user.
-/
import JobFinder.Database.PostedJobs
import JobFinder.Theory.Loads

namespace JobFinder.Controller

open JobFinder.Theory JobFinder.Database

set_option autoImplicit false

/-- The labels of a job cell. -/
structure JobCell where
  jobTitle : String
  jobLocation : String
  jobHourlyRate : String
deriving DecidableEq, Repr

/-- The casts of `cellForItemAt`, the same for the poster's list and for the list
of new jobs. -/
def jobCell (data : JobRecord) : Except Trap JobCell := do
  let title ← data.cast .title
  let literal ← data.cast .literal
  let salary ← data.cast .salary
  return ⟨title, literal, salary ++ " $/hr"⟩

theorem jobCell_ok {data : JobRecord} {cell : JobCell} (ok : jobCell data = .ok cell) :
    data.fields .title = some cell.jobTitle ∧ data.fields .literal = some cell.jobLocation ∧
      ∃ salary, data.fields .salary = some salary ∧ cell.jobHourlyRate = salary ++ " $/hr" := by
  obtain ⟨title, titled, ok⟩ := bind_ok.mp ok
  obtain ⟨literal, located, ok⟩ := bind_ok.mp ok
  obtain ⟨salary, paid, ok⟩ := bind_ok.mp ok
  cases ok
  exact ⟨forceCast_ok.mp titled, forceCast_ok.mp located, salary, forceCast_ok.mp paid, rfl⟩

/-- What a popover of `EditJobVC` is opened with. -/
structure EditJob where
  jobTitle : String
  jobLocation : String
  jobSalary : String
  jobDescription : String
  jobIndex : ℕ
deriving DecidableEq, Repr

namespace PostedJobs

/-- The body of the loop of `SetMyPostedJobs`: the entry it appends, if any.  The
code appends the value and drops the key. -/
def ownJob (me : String) (i : Σ _ : String, JobRecord) : Issued (Σ _ : String, JobRecord) :=
  .ofExcept (i.2.cast .jobPoster) fun poster => if poster = me then .done [i] else .done []

/-- The entries a delivered read of `SetMyPostedJobs` appends.  An empty tree is
no dictionary, and nothing is appended. -/
def ownJobs (E : Enumeration) (me : String) (snapshot : JobTree) :
    Issued (Σ _ : String, JobRecord) :=
  .forEach (ownJob me) (E.order snapshot.jobs)

/-- `SetMyPostedJobs` when its read is delivered. -/
def setMyPostedJobs (E : Enumeration) (me : String) (snapshot : JobTree)
    (myPostedJobs : Counted JobRecord) : Counted JobRecord :=
  myPostedJobs.pushAll ((ownJobs E me snapshot).out.map Sigma.snd)

/-- `collectionView(_:cellForItemAt:)`. -/
def cellForItemAt (E : Enumeration) (myPostedJobs : Counted JobRecord) (row : ℕ) :
    Except Trap JobCell :=
  myPostedJobs.row E row >>= jobCell

/-- `collectionView(_:didSelectItemAt:)`, on the cell shown in the row. -/
def didSelectItemAt (E : Enumeration) (selectedCell : JobCell) (myPostedJobs : Counted JobRecord)
    (row : ℕ) : Except Trap EditJob := do
  let data ← myPostedJobs.row E row
  let description ← data.cast .description
  return ⟨selectedCell.jobTitle, selectedCell.jobLocation, selectedCell.jobHourlyRate,
    description, row⟩

/-- The jobs a user has posted. -/
def ownRecords (me : String) (t : JobTree) : List JobRecord :=
  (t.jobs.entries.filter fun i => i.2.fields .jobPoster = some me).map Sigma.snd

section Lists

variable {E : Enumeration} {me : String} {t : JobTree}

theorem trap_ownJob {i : Σ _ : String, JobRecord} :
    (ownJob me i).trap = none ↔ ∃ v, i.2.fields .jobPoster = some v := by
  unfold ownJob JobRecord.cast forceCast
  cases i.2.fields .jobPoster with
  | none => simp [Issued.ofExcept, Issued.stop]
  | some v => simp only [Issued.ofExcept_ok]; split_ifs <;> simp

theorem ownJob_ok {i : Σ _ : String, JobRecord} (ok : (ownJob me i).trap = none) :
    ownJob me i = .done (if decide (i.2.fields .jobPoster = some me) then [i] else []) := by
  obtain ⟨v, found⟩ := trap_ownJob.mp ok
  simp only [ownJob, JobRecord.cast, found, forceCast, Issued.ofExcept_ok, Option.some.injEq,
    decide_eq_true_eq]
  split_ifs <;> rfl

/-- A load that is not stopped by a record without a poster appends the user's own
entries, in the order of enumeration. -/
theorem ownJobs_ok (ok : (ownJobs E me t).trap = none) :
    (ownJobs E me t).out =
      (E.order t.jobs).filter fun i => i.2.fields .jobPoster = some me := by
  have bodies := Issued.trap_forEach.mp ok
  have filtered : Issued.forEach (ownJob me) (E.order t.jobs) = .done (((E.order t.jobs).filter
      fun i => decide (i.2.fields .jobPoster = some me)).map id) :=
    Issued.forEach_filter fun i listed => ownJob_ok (bodies i listed)
  rw [ownJobs, filtered, List.map_id, Issued.out_done]

theorem ownJobs_complete (complete : t.Complete) : (ownJobs E me t).trap = none := by
  refine Issued.trap_forEach.mpr fun i listed => trap_ownJob.mpr ?_
  obtain ⟨present, record⟩ := (JobTree.mem_order E).mp listed
  obtain ⟨v, found, _⟩ := (record ▸ complete.record present : i.2.Complete).cast_ok .jobPoster
  exact ⟨v, found⟩

/-- What a load appends is the user's own jobs, each once. -/
theorem ownJobs_perm (ok : (ownJobs E me t).trap = none) :
    ((ownJobs E me t).out.map Sigma.snd).Perm (ownRecords me t) := by
  rw [ownJobs_ok ok]
  exact ((E.perm t.jobs).filter _).map _

end Lists

/-! ## One row of a list loaded from one snapshot -/

/-- The list after a single load. -/
def listed (E : Enumeration) (me : String) (t : JobTree) : Counted JobRecord :=
  setMyPostedJobs E me t .empty

/-- The key of the job displayed in a row; the list itself does not hold it. -/
def displayed (E : Enumeration) (me : String) (t : JobTree) (row : ℕ) : Option String :=
  Counted.rowKey E (ownJobs E me t).out row

/-- Select a row, whose cell is the one configured for it. -/
def selected (E : Enumeration) (me : String) (t : JobTree) (row : ℕ) : Except Trap EditJob := do
  let cell ← cellForItemAt E (listed E me t) row
  didSelectItemAt E cell (listed E me t) row

/-- The popover shows the data of the job at `key`, a job of the user. -/
structure Shows (me : String) (t : JobTree) (key : String) (popover : EditJob) : Prop where
  title : t.field key .title = some popover.jobTitle
  location : t.field key .literal = some popover.jobLocation
  description : t.field key .description = some popover.jobDescription
  poster : t.field key .jobPoster = some me

section Rows

variable {E : Enumeration} {me : String} {t : JobTree} {row : ℕ} {popover : EditJob}

/-- An entry that a load appends is a job of the user. -/
theorem own_of_mem (loaded : (ownJobs E me t).trap = none) {key : String} {data : JobRecord}
    (own : ⟨key, data⟩ ∈ (ownJobs E me t).out) :
    key ∈ t ∧ t.node key = data ∧ data.fields .jobPoster = some me := by
  rw [ownJobs_ok loaded, List.mem_filter] at own
  obtain ⟨present, record⟩ := (JobTree.mem_order E).mp own.1
  exact ⟨present, record, of_decide_eq_true own.2⟩

/-- **What a selected row displays** is one of the user's own jobs, and the popover
keeps its row. -/
theorem selected_shows (loaded : (ownJobs E me t).trap = none)
    (opened : selected E me t row = .ok popover) :
    ∃ key, displayed E me t row = some key ∧ Shows me t key popover ∧ popover.jobIndex = row := by
  obtain ⟨cell, configured, opened⟩ := bind_ok.mp opened
  obtain ⟨data, read, labels⟩ := bind_ok.mp configured
  obtain ⟨data', read', opened⟩ := bind_ok.mp opened
  obtain ⟨description, described, opened⟩ := bind_ok.mp opened
  cases opened
  cases read.symm.trans read'
  obtain ⟨key, displayed, member⟩ := Counted.rowKey_of_row read
  obtain ⟨_, record, own⟩ := own_of_mem loaded member
  obtain ⟨titled, located, _⟩ := jobCell_ok labels
  subst record
  exact ⟨key, displayed, ⟨titled, located, forceCast_ok.mp described, own⟩, rfl⟩

end Rows

/-! ## The screen, and the loads outstanding on it -/

/-- The remote tree, the list, and the loads outstanding. -/
structure Screen where
  postedJobs : JobTree
  myPostedJobs : Counted JobRecord
  loads : List (Option JobTree)

/-- The screen before `viewDidLoad`. -/
def Screen.opened (t : JobTree) : Screen := ⟨t, .empty, []⟩

/-- One event on the screen: `SetMyPostedJobs` is called, the read of a load is
made, a load is delivered, or the remote tree changes.  A delivery that traps ends
the program. -/
def step (E : Enumeration) (me : String) (s : Screen) : Loads.Event JobTree → Option Screen
  | .call => some { s with myPostedJobs := .empty, loads := s.loads ++ [none] }
  | .read i =>
      match s.loads[i]? with
      | some none => some { s with loads := s.loads.set i (some s.postedJobs) }
      | _ => none
  | .deliver i =>
      match s.loads[i]? with
      | some (some snapshot) =>
          if (ownJobs E me snapshot).trap = none then
            some { s with
              myPostedJobs := setMyPostedJobs E me snapshot s.myPostedJobs
              loads := s.loads.eraseIdx i }
          else none
      | _ => none
  | .change t => some { s with postedJobs := t }

/-- The list holds each job of the user exactly once, and nothing else. -/
def ListsOwnJobsOnce (me : String) (s : Screen) : Prop :=
  s.myPostedJobs.values.Perm (ownRecords me s.postedJobs)

instance (me : String) (s : Screen) : Decidable (ListsOwnJobsOnce me s) :=
  inferInstanceAs (Decidable (List.Perm _ _))

/-- The values a delivery appends; `none` when it traps. -/
def delivered (E : Enumeration) (me : String) (snapshot : JobTree) : Option (List JobRecord) :=
  if (ownJobs E me snapshot).trap = none then some ((ownJobs E me snapshot).out.map Sigma.snd)
  else none

/-- The screen as a list with outstanding loads. -/
def Screen.abs (s : Screen) : Loads.State JobTree JobRecord :=
  ⟨s.postedJobs, s.myPostedJobs.values, s.loads⟩

section Overlap

variable {E : Enumeration} {me : String}

/-- **The screen simulates the abstract loads**, event for event. -/
theorem step_abs (s : Screen) (e : Loads.Event JobTree) :
    (step E me s e).map Screen.abs = Loads.step (delivered E me) s.abs e := by
  cases e with
  | call => rfl
  | change t => rfl
  | read i =>
      simp only [step, Loads.step, Screen.abs]
      split <;> simp_all [Screen.abs]
  | deliver i =>
      simp only [step, Loads.step, Screen.abs]
      rcases s.loads[i]? with _ | _ | snapshot
      · rfl
      · rfl
      · by_cases ok : (ownJobs E me snapshot).trap = none
        · simp [ok, delivered, Screen.abs, setMyPostedJobs]
        · simp [ok, delivered]

theorem delivered_perm {t : JobTree} {vs : List JobRecord} (ok : delivered E me t = some vs) :
    vs.Perm (ownRecords me t) := by
  unfold delivered at ok
  split at ok
  · rename_i untrapped
    cases ok
    exact ownJobs_perm untrapped
  · cases ok

/-- **When the settled list is right.**  Once every load has been delivered, and
the tree has not changed since the last call, the list holds each job of the user
exactly once and nothing else if and only if every load that was outstanding at
the last call delivers no job of the user. -/
theorem settled_listsOwnJobsOnce_iff {t : JobTree} {pre post : List (Loads.Event JobTree)}
    {s : Screen} (ran : run (step E me) (.opened t) (pre ++ .call :: post) = some s)
    (quiet : ∀ e ∈ post, e.quiet = true) (settled : s.loads = []) :
    ListsOwnJobsOnce me s ↔
      ∀ s₁, run (step E me) (.opened t) pre = some s₁ →
        ∀ load ∈ s₁.loads, ownRecords me (load.getD s₁.postedJobs) = [] := by
  obtain ⟨s₁, before, after⟩ := run_append_some.mp ran
  have abstract : run (Loads.step (delivered E me)) s₁.abs (.call :: post) = some s.abs := by
    rw [← run_map Screen.abs step_abs, after]
    rfl
  have loaded := Loads.delivered_of_settled quiet abstract settled
  have sameTree : s.postedJobs = s₁.postedJobs := (Loads.settled quiet abstract settled).1
  obtain ⟨vs, last⟩ := loaded none (by simp)
  have right : ListsOwnJobsOnce me s ↔
      ∃ vs, delivered E me s.postedJobs = some vs ∧ s.myPostedJobs.values.Perm vs := by
    rw [Option.getD_none] at last
    unfold ListsOwnJobsOnce
    rw [sameTree]
    have perm := delivered_perm last
    constructor
    · exact fun lists => ⟨vs, last, lists.trans perm.symm⟩
    · rintro ⟨vs', arrives, lists⟩
      exact lists.trans (delivered_perm arrives)
  have nothing : ∀ load ∈ s₁.loads, delivered E me (load.getD s₁.postedJobs) = some [] ↔
      ownRecords me (load.getD s₁.postedJobs) = [] := by
    intro load outstanding
    obtain ⟨vs', arrives⟩ := loaded load (List.mem_append_left _ outstanding)
    have perm := delivered_perm arrives
    have arrives' : delivered E me (load.getD s₁.postedJobs) = some vs' := arrives
    rw [arrives', Option.some.injEq]
    exact ⟨fun none_ => List.perm_nil.mp (none_ ▸ perm).symm,
      fun none_ => List.perm_nil.mp (none_ ▸ perm)⟩
  rw [right]
  refine (Loads.settled_iff quiet abstract settled).trans ⟨?_, ?_⟩
  · intro none_ s₁' before' load outstanding
    cases before.symm.trans before'
    exact (nothing load outstanding).mp (none_ load outstanding)
  · exact fun none_ load outstanding =>
      (nothing load outstanding).mpr (none_ s₁ before load outstanding)

end Overlap

/-- Ann's first load has read the tree when only Bob's job was there, and is delivered while
the second is under way: what it owes the list is none of her jobs. -/
theorem overlapping_load_listsOwnJobsOnce :
    ∃ s, run (step .inserted "ann@x") (.opened (.single "a" (.sample "bob@x")))
        ([.call, .read 0, .change .bobThenAnn] ++ .call :: [.read 1, .deliver 0, .deliver 0]) = some s ∧
      s.myPostedJobs.count = 1 ∧
      (ListsOwnJobsOnce "ann@x" s ↔
        ∀ s₁, run (step .inserted "ann@x") (.opened (.single "a" (.sample "bob@x")))
            [.call, .read 0, .change .bobThenAnn] = some s₁ →
          ∀ load ∈ s₁.loads, ownRecords "ann@x" (load.getD s₁.postedJobs) = []) :=
  ⟨_, rfl, rfl, @settled_listsOwnJobsOnce_iff _ _ _ [.call, .read 0, .change .bobThenAnn]
    [.read 1, .deliver 0, .deliver 0] _ rfl (by decide) rfl⟩

/-- Two overlapping loads list the one job twice. -/
theorem overlapping_loads_list_twice :
    ∃ s, run (step .inserted "ann@x") (.opened (.single "k" (.sample "ann@x")))
        [.call, .call, .read 0, .deliver 0, .read 0, .deliver 0] = some s ∧
      s.loads = [] ∧ s.postedJobs = .single "k" (.sample "ann@x") ∧
      ¬ ListsOwnJobsOnce "ann@x" s := by
  refine ⟨_, rfl, rfl, rfl, fun once => ?_⟩
  exact absurd once.length_eq (by decide +kernel)

end PostedJobs

end JobFinder.Controller
