/-
# Clients.Shown -- from the tap of one user to the screen of another

A job is posted by one user to be found by others, and an application is made to be seen by
the job's poster.  Between the tap and the screen lie the writes, the other clients, and the
list that a screen loads.  When nothing that stands in the tree is still being posted, what
was posted and has not been removed is in one row of every searcher's list and of its
poster's own (`posted_shown`), and what was filed and has not been declined is in one row
of the poster's list of applications (`application_shown`).
-/
import JobFinder.Clients.JobBoard
import JobFinder.Clients.KeptJobs

namespace JobFinder.Clients

open JobFinder.Theory JobFinder.Database JobFinder.Model JobFinder.Controller

set_option autoImplicit false

section Rows

variable {E : Enumeration} {me : String} {t : JobTree} {k a : String}

/-- An application under a complete job of the user is in one row of the list of
applications, in a cell with its email and the title of the job. -/
theorem applicants_row (E : Enumeration) (complete : t.Complete) {email title : String}
    (own : t.field k .jobPoster = some me) (filed : Matches t email title k a) :
    (∃! row, row < (ShowApplicants.listed E me t).count ∧
        ShowApplicants.displayed E me t row = some (k, a)) ∧
      ∀ row < (ShowApplicants.listed E me t).count,
        ShowApplicants.displayed E me t row = some (k, a) → ∀ myCell, ∃ cell,
          ShowApplicants.cellForItemAt E (ShowApplicants.listed E me t) myCell row = .ok cell ∧
            cell.applicantEmail = "Applicant: " ++ email ∧ cell.applicantJob = "Job: " ++ title := by
  constructor
  · rw [ShowApplicants.count_listed]
    exact Counted.existsUnique_rowKey E (ShowApplicants.nodup_myApplications E me complete)
      (ShowApplicants.mem_myApplications_of_own complete own filed)
  · intro row below shown myCell
    rw [ShowApplicants.count_listed] at below
    obtain ⟨entry, data, shown', read, member⟩ := Counted.rowKey_lt E below
    cases shown.symm.trans shown'
    obtain ⟨filed', titled, _⟩ := ShowApplicants.mem_myApplications member
    have emails : data.email = email := Option.some.inj (filed'.symm.trans filed.1)
    refine ⟨{ myCell with
      applicantEmail := "Applicant: " ++ email
      applicantJob := "Job: " ++ title
      applicantJobTag := row
      acceptApplicantTag := row
      declineApplicantTag := row }, ?_, rfl, rfl⟩
    have listed : (ShowApplicants.listed E me t).row E row = .ok data := read
    rw [ShowApplicants.cellForItemAt, listed]
    simp only [bind, Except.bind, titled.trans filed.2, forceCast, emails]
    rfl

end Rows

/-- **An application reaches the poster.**  Let no key of an application be used twice
besides.  At any such moment, an application that has been filed, and that no second read of
`RemoveApplication` has matched, under a job that has not been removed, is in one row of
the list of the job's poster, in a cell with its email and the title of the job. -/
theorem application_shown {E : Enumeration} {t : JobTree} (complete : t.Complete)
    (apart : KeysDistinct t) {es : List (PoolEvent Task)}
    (starts : Along (step E) (fun p e => StartsAnything p e ∧ FilesUnderFreshKeys t p e) (.idle t) es)
    (inTime : Along (step E) InTime (.idle t) es) {p : State}
    (ran : run (step E) (.idle t) es = some p) (settled : ∀ k ∈ p.shared, ¬ BeingPosted p k)
    {k a email me : String} (filed : Filed t p k a email) (uncaught : ¬ Caught p k a email)
    (unremoved : ¬ Removed p k) (poster : p.shared.field k .jobPoster = some me) :
    (∃! row, row < (ShowApplicants.listed E me p.shared).count ∧
        ShowApplicants.displayed E me p.shared row = some (k, a)) ∧
      ∃ title, p.shared.field k .title = some title ∧
        ∀ row < (ShowApplicants.listed E me p.shared).count,
          ShowApplicants.displayed E me p.shared row = some (k, a) → ∀ myCell, ∃ cell,
            ShowApplicants.cellForItemAt E (ShowApplicants.listed E me p.shared) myCell row = .ok cell ∧
              cell.applicantEmail = "Applicant: " ++ email ∧ cell.applicantJob = "Job: " ++ title := by
  have posts : Along (step E) StartsAnything (.idle t) es := starts.mono fun _ _ here => here.1
  have kept := Kept.run apart starts ran
  obtain ⟨_, whole⟩ := keeping_whole complete posts inTime ran
  have complete' : p.shared.Complete := fun k present => whole k present (settled k present)
  have there : p.shared.applicant k a = some email :=
    (kept.kept k a email filed).resolve_right (not_or.mpr ⟨uncaught, unremoved⟩)
  obtain ⟨title, titled⟩ := complete'.field (JobTree.mem_of_field poster) .title
  obtain ⟨row, cells⟩ := applicants_row E complete' poster ⟨there, titled⟩
  exact ⟨row, title, titled, cells⟩

/-- Ann's one job, which nobody has applied for. -/
def annsTree : JobTree := .single "b" (.sample "ann@x")

theorem annsTree_applicant (k a : String) : annsTree.applicant k a = none := by
  rw [annsTree, JobTree.single, JobTree.applicant_put]
  split_ifs <;> rfl

/-- Eve applies for it. -/
def evesApplication : List (PoolEvent Task) := [.spawn (.applyToJob 0 "u" "eve@x"), .fire 0, .fire 0]

theorem evesApplication_along : Along (step .inserted) (fun p e =>
    (StartsAnything p e ∧ FilesUnderFreshKeys annsTree p e) ∧ InTime p e) (.idle annsTree)
    evesApplication := by
  intro p₁ stepped
  cases stepped
  refine ⟨⟨⟨startsAnything_tap _ (.applyToJob ..), fun i k a email same => (by cases same)⟩,
    inTime_spawn _⟩, fun p₂ stepped => ?_⟩
  cases stepped
  refine ⟨⟨⟨startsAnything_fire _ 0, fun i k a email same at_ => (by cases same; cases at_)⟩,
    fun i k a email same at_ => (by cases same; cases at_),
    fun i key w same at_ => (by cases same; cases at_)⟩, fun p₃ stepped => ?_⟩
  refine ⟨⟨⟨startsAnything_fire _ 0, fun i k a email same at_ k' e' filed => ?_⟩,
    fun i k a email same at_ => ?_, fun i key w same at_ => (by cases same; cases at_)⟩, trivial⟩
  · -- nothing has been filed before
    cases same
    cases at_
    rcases filed with initial | ⟨s, member⟩
    · cases (annsTree_applicant k' "u").symm.trans initial
    · cases List.mem_singleton.mp member
  · cases same
    cases at_
    exact .inl (by decide +kernel)

theorem application_shown_eve :
    ∃ p, run (step .inserted) (.idle annsTree) evesApplication = some p ∧
      (∃! row, row < (ShowApplicants.listed .inserted "ann@x" p.shared).count ∧
          ShowApplicants.displayed .inserted "ann@x" p.shared row = some ("b", "u")) ∧
      ∃ title, p.shared.field "b" .title = some title ∧
        ∀ row < (ShowApplicants.listed .inserted "ann@x" p.shared).count,
          ShowApplicants.displayed .inserted "ann@x" p.shared row = some ("b", "u") →
            ∀ myCell, ∃ cell,
              ShowApplicants.cellForItemAt .inserted (ShowApplicants.listed .inserted "ann@x" p.shared)
                  myCell row = .ok cell ∧
                cell.applicantEmail = "Applicant: " ++ "eve@x" ∧
                cell.applicantJob = "Job: " ++ title := by
  have along := evesApplication_along
  refine ⟨_, rfl, @application_shown .inserted annsTree (JobTree.complete_empty.put "b" fun _ => rfl)
    (fun k k' a e e' one => ?_) evesApplication
    (along.mono fun _ _ here => here.1) (along.mono fun _ _ here => here.2) _ rfl ?_ "b" "u" "eve@x"
    "ann@x" (.inr ⟨_, List.mem_cons_self⟩) ?_ ?_ rfl⟩
  · cases (annsTree_applicant k a).symm.trans one
  · rintro k - ⟨w, writes, pending⟩
    cases pending
  · rintro ⟨jobTitle, jobs, s, member, _⟩
    iterate 2
      rcases List.mem_cons.mp member with same | member
      · cases same
    cases member
  · rintro ⟨s, member⟩
    iterate 2
      rcases List.mem_cons.mp member with same | member
      · cases same
    cases member

end JobFinder.Clients
