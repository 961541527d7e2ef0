/-
# Clients.Completeness -- when every record stays complete

A removal, of a job or of an application, leaves complete records complete.  The
write of `ApplyToJob` does so exactly when the job it goes to is still posted: the
database creates the nodes above a leaf it is told to write, so an application
that arrives after the removal of its job creates a record holding nothing but
applications.

`always_complete_iff` says that nothing else can go wrong, over all runs of any
number of clients.
-/
import JobFinder.Clients.Callbacks

namespace JobFinder.Clients

open JobFinder.Theory JobFinder.Database JobFinder.Model JobFinder.Controller

set_option autoImplicit false

/-- Tasks are started by taps on Apply, Remove and Decline, or by calls of
`RemoveApplication`. -/
def StartedByTaps (_ : State) (e : PoolEvent Task) : Prop :=
  ∀ task, e = .spawn task → task.Tapped

/-- An application that reaches the server finds its job there. -/
def FilesUnderJob (p : State) (e : PoolEvent Task) : Prop :=
  ∀ i hashID uuid email, e = .fire i → p.tasks[i]? = some (.fileApplication hashID uuid email) →
    hashID ∈ p.shared

/-- No job is being posted. -/
def NoneBeingPosted (p : State) : Prop := ∀ key writes, .createJob key writes ∉ p.tasks

section Completeness

variable {E : Enumeration} {p p' : State} {e : PoolEvent Task}

/-- Only a callback of `CreateJob` issues one. -/
theorem exec_posts {task : Task} {t : JobTree} {key : String} {writes : List (JobField × String)}
    (issued : .createJob key writes ∈ (task.exec E t).2) :
    ∃ writes', task = .createJob key writes' := by
  cases task with
  | createJob key' writes' =>
      cases writes' with
      | nil => cases issued
      | cons w writes' =>
          cases List.mem_singleton.mp issued
          exact ⟨_, rfl⟩
  | applyToJob jobID uuid email =>
      simp only [Task.exec] at issued
      split at issued <;> simp at issued
  | fileApplication hashID uuid email => cases issued
  | removeJob jobIndex => simp [Task.exec] at issued
  | removeJobAt key' => cases issued
  | removeApplication email jobTitle => simp [Task.exec] at issued
  | removeApplicationIn email jobTitle jobs => simp [Task.exec] at issued
  | removeApplicantAt job applicant => cases issued
  | declineApplicant applicants tag => simp [Task.exec] at issued

theorem noneBeingPosted_step (none_ : NoneBeingPosted p) (started : StartedByTaps p e)
    (stepped : step E p e = some p') : NoneBeingPosted p' := by
  intro key writes pending
  rcases Pool.step_cases stepped with ⟨task, rfl, rfl⟩ | ⟨_, task, rest, _, _, perm, rfl⟩
  · rcases List.mem_append.mp pending with before | new
    · exact none_ key writes before
    · obtain rfl := List.mem_singleton.mp new
      cases started _ rfl
  · rcases perm_issued perm pending with before | issued
    · exact none_ key writes before
    · obtain ⟨writes', rfl⟩ := exec_posts issued
      exact none_ key writes' (perm.mem_iff.mpr List.mem_cons_self)

/-- A callback that is not one of `CreateJob` leaves complete records complete,
exactly if it does not file an application under a job that is gone. -/
theorem complete_exec_iff {task : Task} {t : JobTree} (complete : t.Complete)
    (notPosting : ∀ key writes, task ≠ .createJob key writes) :
    (task.exec E t).1.Complete ↔
      ∀ hashID uuid email, task = .fileApplication hashID uuid email → hashID ∈ t := by
  cases task with
  | createJob key writes => exact absurd rfl (notPosting key writes)
  | applyToJob jobID uuid email =>
      have same : ((Task.applyToJob jobID uuid email).exec E t).1 = t := by
        simp only [Task.exec]
        split <;> rfl
      rw [same]
      exact iff_of_true complete (by simp)
  | fileApplication hashID uuid email =>
      refine (JobTree.complete_addApplicant_iff complete hashID uuid email).trans ⟨?_, ?_⟩
      · intro present _ _ _ same
        cases same
        exact present
      · exact fun present => present _ _ _ rfl
  | removeJobAt key =>
      exact iff_of_true (complete.removeJob key) (by simp)
  | removeApplicantAt job applicant =>
      exact iff_of_true (complete.removeApplicant job applicant) (by simp)
  | removeJob jobIndex => exact iff_of_true complete (by simp)
  | removeApplication email jobTitle =>
      exact iff_of_true complete (by simp)
  | removeApplicationIn email jobTitle jobs =>
      exact iff_of_true complete (by simp)
  | declineApplicant applicants tag =>
      exact iff_of_true complete (by simp)

theorem complete_step_iff (none_ : NoneBeingPosted p) (complete : p.shared.Complete)
    (stepped : step E p e = some p') : p'.shared.Complete ↔ FilesUnderJob p e := by
  rcases Pool.step_cases stepped with ⟨task, rfl, rfl⟩ | ⟨i, task, rest, rfl, at_, perm, rfl⟩
  · exact iff_of_true complete (fun _ _ _ _ impossible => nomatch impossible)
  · have pending : task ∈ p.tasks := perm.mem_iff.mpr List.mem_cons_self
    refine (complete_exec_iff complete ?_).trans ⟨?_, ?_⟩
    · rintro key writes rfl
      exact none_ key writes pending
    · intro files j hashID uuid email same at_'
      cases same
      exact files hashID uuid email (Option.some.inj (at_.symm.trans at_'))
    · rintro files hashID uuid email rfl
      exact files i hashID uuid email rfl at_

end Completeness

/-- **When every record stays complete.**  Let any number of clients apply, remove
jobs, remove applications and decline, starting from complete records.  Every
record under `postedJobs` has all its fields throughout the run if and only if
every application that reaches the server finds its job still posted. -/
theorem always_complete_iff {E : Enumeration} {t : JobTree} (complete : t.Complete)
    {es : List (PoolEvent Task)} (started : Along (step E) StartedByTaps (.idle t) es) :
    Always (step E) (fun p => p.shared.Complete) (.idle t) es ↔
      Along (step E) FilesUnderJob (.idle t) es :=
  always_iff_along (I := NoneBeingPosted)
    (fun _ _ _ none_ taps stepped => noneBeingPosted_step none_ taps stepped)
    (fun _ _ _ none_ _ complete stepped => complete_step_iff none_ complete stepped)
    es _ (fun _ _ => List.not_mem_nil) complete started

/-- Eve applies for Ann's one job. -/
theorem always_complete_iff_single :
    Always (step .inserted) (fun p => p.shared.Complete) (.idle (.single "b" (.sample "ann@x")))
        [.spawn (.applyToJob 0 "u" "eve@x"), .fire 0, .fire 0] ↔
      Along (step .inserted) FilesUnderJob (.idle (.single "b" (.sample "ann@x")))
        [.spawn (.applyToJob 0 "u" "eve@x"), .fire 0, .fire 0] := by
  refine always_complete_iff (JobTree.complete_empty.put _ (JobRecord.full_complete _ _))
    (along_of_forall fun e member _ task same => ?_)
  subst same
  simp only [List.mem_cons, PoolEvent.spawn.injEq, reduceCtorEq, List.not_mem_nil, or_false] at member
  subst member
  exact .applyToJob 0 "u" "eve@x"

/-- Eve's client has read Ann's job when Ann removes it.  Then Eve's application
arrives, and the job is back as a record that holds nothing else and that traps the
poster's list. -/
theorem application_brings_job_back :
    ∃ p, run (step .inserted) (.idle (.single "b" (.sample "ann@x")))
        [.spawn (.applyToJob 0 "u" "eve@x"), .spawn (.removeJob 0), .fire 0, .fire 0, .fire 1,
          .fire 0] = some p ∧
      "b" ∈ p.shared ∧ (∀ f, p.shared.field "b" f = none) ∧
      p.shared.applicant "b" "u" = some "eve@x" ∧ ¬ p.shared.Complete ∧
      (PostedJobs.ownJobs .inserted "ann@x" p.shared).trap = some .forcedCast := by
  refine ⟨_, rfl, ?_, ?_, rfl, ?_, rfl⟩
  · decide +kernel
  · decide +kernel
  · exact fun complete => absurd (complete "b" (by decide +kernel) .title) (by decide +kernel)

end JobFinder.Clients
