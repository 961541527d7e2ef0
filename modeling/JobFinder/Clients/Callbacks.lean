/-
# Clients.Callbacks -- the callbacks of any number of clients

Everything a client does to `postedJobs` is a chain of callbacks: a tap, the
delivery of a read, a write or a removal reaching the server.  A `Task` is one such
callback with what its closure captured, and `Task.exec` runs it: each case hands
the tree to the function of the source and turns what that issues into new tasks.

A `Pool` of tasks is then any number of clients in any interleaving.  A trap ends
the client whose callback it was, and a client that has ended is one whose tasks
never fire again.

`Task.rank` decreases along every chain, so all schedules end.
-/
import JobFinder.Controller.CreateJob
import JobFinder.Controller.EditJob
import JobFinder.Controller.JobListing
import JobFinder.Controller.ShowApplicants
import JobFinder.Theory.Pool

namespace JobFinder.Clients

open JobFinder.Theory JobFinder.Database JobFinder.Model JobFinder.Controller

set_option autoImplicit false

/-- One pending callback, with what it captured. -/
inductive Task where
  /-- The writes of one `CreateJob` that have not reached the server, in order. -/
  | createJob (key : String) (writes : List (JobField × String))
  /-- The read of `ApplyToJob`, and then its write. -/
  | applyToJob (jobID : ℕ) (uuid email : String)
  | fileApplication (hashID uuid email : String)
  /-- The read of `RemoveJob`, and then a removal it issued. -/
  | removeJob (jobIndex : ℕ)
  | removeJobAt (key : String)
  /-- The two reads of `RemoveApplication`, and then a removal it issued. -/
  | removeApplication (email jobTitle : String)
  | removeApplicationIn (email jobTitle : String) (jobs : Dict String JobRecord)
  | removeApplicantAt (job applicant : String)
  /-- The read of `DeclineApplicant`. -/
  | declineApplicant (applicants : Counted Application) (tag : ℕ)

namespace Task

/-- Run a callback: the tree it leaves, and the callbacks it issues. -/
def exec (E : Enumeration) : Task → JobTree → JobTree × List Task
  | createJob _ [], t => (t, [])
  | createJob key ((f, v) :: writes), t => (t.setField key f v, [createJob key writes])
  | applyToJob jobID uuid email, t =>
      match JobListing.applyToJob E jobID t with
      | .ok (some hashID) => (t, [fileApplication hashID uuid email])
      | _ => (t, [])
  | fileApplication hashID uuid email, t => (t.addApplicant hashID uuid email, [])
  | removeJob jobIndex, t => (t, (EditJob.removeJob E jobIndex t).out.map removeJobAt)
  | removeJobAt key, t => (t.removeJob key, [])
  | removeApplication email jobTitle, t =>
      (t, [removeApplicationIn email jobTitle (getPostedJobs t).1])
  | removeApplicationIn email jobTitle jobs, t =>
      (t, (Model.removeApplication E email jobTitle jobs t).out.map fun path =>
        removeApplicantAt path.1 path.2)
  | removeApplicantAt job applicant, t => (t.removeApplicant job applicant, [])
  | declineApplicant applicants tag, t =>
      (t, (ShowApplicants.declineApplicant E applicants tag t).out.map fun call =>
        removeApplication call.1 call.2)

/-- How long the chain of a callback can still get. -/
def rank : Task → ℕ
  | createJob _ writes => writes.length
  | applyToJob .. => 1
  | fileApplication .. => 0
  | removeJob .. => 1
  | removeJobAt .. => 0
  | removeApplication .. => 2
  | removeApplicationIn .. => 1
  | removeApplicantAt .. => 0
  | declineApplicant .. => 3

theorem rank_exec (E : Enumeration) (task : Task) (t : JobTree) :
    ∀ issued ∈ (exec E task t).2, rank issued < rank task := by
  intro issued member
  cases task with
  | createJob key writes =>
      cases writes with
      | nil => cases member
      | cons w writes =>
          obtain rfl := List.mem_singleton.mp member
          exact Nat.lt_succ_self _
  | applyToJob jobID uuid email =>
      simp only [exec] at member
      split at member
      · obtain rfl := List.mem_singleton.mp member
        exact Nat.one_pos
      · cases member
  | fileApplication hashID uuid email => cases member
  | removeJob jobIndex =>
      obtain ⟨_, _, rfl⟩ := List.mem_map.mp member
      exact Nat.one_pos
  | removeJobAt key => cases member
  | removeApplication email jobTitle =>
      obtain rfl := List.mem_singleton.mp member
      exact Nat.lt_succ_self 1
  | removeApplicationIn email jobTitle jobs =>
      obtain ⟨_, _, rfl⟩ := List.mem_map.mp member
      exact Nat.one_pos
  | removeApplicantAt job applicant => cases member
  | declineApplicant applicants tag =>
      obtain ⟨_, _, rfl⟩ := List.mem_map.mp member
      exact Nat.lt_succ_self 2

/-- A callback that the user starts with a tap, other than posting a job. -/
inductive Tapped : Task → Prop where
  | applyToJob (jobID : ℕ) (uuid email : String) : Tapped (applyToJob jobID uuid email)
  | removeJob (jobIndex : ℕ) : Tapped (removeJob jobIndex)
  | removeApplication (email jobTitle : String) : Tapped (removeApplication email jobTitle)
  | declineApplicant (applicants : Counted Application) (tag : ℕ) :
      Tapped (declineApplicant applicants tag)

end Task

/-- The shared tree and the callbacks of all clients. -/
abbrev State := Pool JobTree Task

/-- One step of one client. -/
abbrev step (E : Enumeration) : State → PoolEvent Task → Option State := Pool.step (Task.exec E)

/-- **Whatever is pending can be brought to an end.** -/
theorem exists_drained (E : Enumeration) (p : State) :
    ∃ (fires : List ℕ) (p' : State),
      run (step E) p (fires.map .fire) = some p' ∧ p'.tasks = [] :=
  Pool.exists_drained (Task.rank_exec E) p

end JobFinder.Clients
