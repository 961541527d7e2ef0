/-
# Clients.KeptJobs -- what becomes of a job

`record_of_one_posting` says what a record may hold, not that it holds anything.  A job can
only be lost to a `RemoveJob` that read the tree while the job's key stood at the row that
was tapped.  Whatever else happens, a job that was there at the start is as it was, and
a posting that has come to its end is there with all that it wrote (`job_kept`).

The invariant is `Standing`.  What carries it is the title, the first field to be written:
a record that has it has all that its posting has written so far.
-/
import JobFinder.Clients.KeptApplications
import JobFinder.Clients.WholeRecords

namespace JobFinder.Clients

open JobFinder.Theory JobFinder.Database JobFinder.Model JobFinder.Controller

set_option autoImplicit false

/-- A `RemoveJob` has read a tree with the key at the row that was tapped. -/
def Picked (E : Enumeration) (p : State) (k : String) : Prop :=
  ∃ jobIndex s, (.removeJob jobIndex, s) ∈ p.history ∧ (s.keys E)[jobIndex]? = some k

/-- What has not been removed stands, and what has been removed was picked. -/
structure Standing (E : Enumeration) (t : JobTree) (p : State) : Prop where
  removals : ∀ k, .removeJobAt k ∈ p.tasks → Picked E p k
  removed : ∀ k, Removed p k → Picked E p k
  initial : ∀ k ∈ t, ¬ Removed p k → ∀ f, p.shared.field k f = t.field k f
  titled : ∀ k writes, Began p k writes → ¬ Removed p k → (p.shared.field k .title).isSome
  whole : ∀ k writes, Began p k writes → ¬ Removed p k → ¬ BeingPosted p k →
    ∀ f, (p.shared.field k f).isSome

section Standing

variable {E : Enumeration} {t : JobTree} {p p' : State} {e : PoolEvent Task} {task : Task}
  {rest : List Task} {k : String}

/-- The removal of a job is called for by a `RemoveJob` that finds it at its row. -/
theorem exec_removesJob {s : JobTree} (issued : .removeJobAt k ∈ (task.exec E s).2) :
    ∃ jobIndex, task = .removeJob jobIndex ∧ (s.keys E)[jobIndex]? = some k := by
  cases task with
  | createJob key writes =>
      cases writes with
      | nil => cases issued
      | cons w writes => simp [Task.exec] at issued
  | applyToJob jobID uuid email =>
      simp only [Task.exec] at issued
      split at issued <;> simp at issued
  | fileApplication hashID uuid email => cases issued
  | removeJob jobIndex =>
      obtain ⟨key, removed, same⟩ := List.mem_map.mp issued
      cases same
      rw [EditJob.removeJob_out, Option.mem_toList] at removed
      exact ⟨jobIndex, rfl, removed⟩
  | removeJobAt key => cases issued
  | removeApplication email jobTitle => simp [Task.exec] at issued
  | removeApplicationIn email jobTitle jobs => simp [Task.exec] at issued
  | removeApplicantAt job applicant => cases issued
  | declineApplicant applicants tag => simp [Task.exec] at issued

theorem Picked.fired (picked : Picked E p k) : Picked E (Clients.fired E p task rest) k := by
  obtain ⟨jobIndex, s, member, at_⟩ := picked
  exact ⟨jobIndex, s, List.mem_cons_of_mem _ member, at_⟩

theorem removed_fired :
    Removed (fired E p task rest) k ↔ task = .removeJobAt k ∨ Removed p k := by
  constructor
  · rintro ⟨s, member⟩
    rcases List.mem_cons.mp member with same | before
    · exact .inl (congrArg Prod.fst same).symm
    · exact .inr ⟨s, before⟩
  · rintro (rfl | removed)
    · exact ⟨p.shared, List.mem_cons_self⟩
    · exact removed.fired

theorem Standing.initially (E : Enumeration) (t : JobTree) : Standing E t (.idle t) where
  removals k member := absurd member List.not_mem_nil
  removed k removed := by
    obtain ⟨_, member⟩ := removed
    cases member
  initial k present _ f := rfl
  titled k writes began := by
    obtain ⟨_, _, member⟩ := began
    cases member
  whole k writes began := by
    obtain ⟨_, _, member⟩ := began
    cases member

/-- A task is started, that is no removal. -/
theorem Standing.start (standing : Standing E t p) (starts : StartsAnything p (.spawn task)) :
    Standing E t { p with tasks := p.tasks ++ [task] } where
  removals k member := by
    rcases List.mem_append.mp member with before | new
    · exact standing.removals k before
    · obtain rfl := List.mem_singleton.mp new
      rcases starts _ rfl with tapped | ⟨key, writes, same, _⟩ | ⟨_, _, _, same, _⟩
      · cases tapped
      · cases same
      · cases same
  removed := standing.removed
  initial := standing.initial
  titled := standing.titled
  whole k writes began unremoved settled := standing.whole k writes began unremoved
    fun posted => settled (posted.imp fun _ => Exists.imp fun _ => List.mem_append_left _)

/-- A callback that does not write to a job, nor remove it, leaves its fields. -/
theorem field_fired (notWriting : ∀ w writes, task ≠ .createJob k (w :: writes))
    (unremoved : ¬ Removed (fired E p task rest) k) (f : JobField) :
    (fired E p task rest).shared.field k f = p.shared.field k f := by
  rcases field_exec (E := E) (t := p.shared) notWriting with same | ⟨removing, _⟩
  · exact same f
  · exact absurd (removed_fired.mpr (.inl removing)) unremoved

/-- What has begun after a callback that does not write to the job had begun before. -/
theorem began_of_notWriting {writes : List (JobField × String)}
    (notWriting : ∀ w writes, task ≠ .createJob k (w :: writes))
    (began : Began (fired E p task rest) k writes) : Began p k writes := by
  rcases began_fired began with before | ⟨rfl, job⟩
  · exact before
  · cases writes with
    | nil => cases job.length
    | cons w writes => exact absurd rfl (notWriting w writes)

/-- A callback is run. -/
theorem Standing.fire (standing : Standing E t p) (keeping : Keeping t p)
    (perm : p.tasks.Perm (task :: rest)) : Standing E t (fired E p task rest) where
  removals k member := by
    rcases List.mem_append.mp member with other | issued
    · exact (standing.removals k (perm.mem_iff.mpr (List.mem_cons_of_mem _ other))).fired
    · obtain ⟨jobIndex, rfl, at_⟩ := exec_removesJob issued
      exact ⟨jobIndex, p.shared, List.mem_cons_self, at_⟩
  removed k removed := by
    rcases removed_fired.mp removed with rfl | before
    · exact (standing.removals k (perm.mem_iff.mpr List.mem_cons_self)).fired
    · exact (standing.removed k before).fired
  initial k present unremoved f := by
    have unremoved' : ¬ Removed p k := fun before => unremoved before.fired
    rw [field_fired (fun w writes same => ?_) unremoved, standing.initial k present unremoved']
    subst same
    exact (keeping.initial k present).2.1 _ (perm.mem_iff.mpr List.mem_cons_self)
  titled k writes began unremoved := by
    have unremoved' : ¬ Removed p k := fun before => unremoved before.fired
    by_cases writing : ∃ w writes', task = .createJob k (w :: writes')
    · obtain ⟨⟨f, v⟩, writes', rfl⟩ := writing
      obtain ⟨made, draft⟩ := keeping.draft k _ (perm.mem_iff.mpr List.mem_cons_self)
      show ((p.shared.setField k f v).field k .title).isSome
      rw [JobTree.field_setField]
      split_ifs with title
      · rfl
      · -- the first write is the title's
        have later : made ≠ [] := fun first => title ⟨rfl, (draft.job.title_iff.mpr first).symm⟩
        exact standing.titled k _ (draft.began later) unremoved'
    · have notWriting (w : JobField × String) (writes' : List (JobField × String)) :
          task ≠ .createJob k (w :: writes') := fun same => writing ⟨w, writes', same⟩
      rw [field_fired notWriting unremoved]
      exact standing.titled k writes (began_of_notWriting notWriting began) unremoved'
  whole k writes began unremoved settled f := by
    have unremoved' : ¬ Removed p k := fun before => unremoved before.fired
    by_cases writing : ∃ w writes', task = .createJob k (w :: writes')
    · obtain ⟨⟨f', v⟩, writes', rfl⟩ := writing
      cases writes' with
      | nil =>
          obtain ⟨made, draft⟩ := keeping.draft k _ (perm.mem_iff.mpr List.mem_cons_self)
          have leaf := draft.last (standing.titled k _ (draft.began draft.begun) unremoved') f
          show ((p.shared.setField k f' v).field k f).isSome
          rw [leaf, JobField.leaves_isSome, draft.job.fields]
          exact f.mem_published
      | cons w writes' =>
          exact absurd ⟨w, writes', List.mem_append_right _ (List.mem_singleton_self _)⟩ settled
    · have notWriting (w : JobField × String) (writes' : List (JobField × String)) :
          task ≠ .createJob k (w :: writes') := fun same => writing ⟨w, writes', same⟩
      have settled' : ¬ BeingPosted p k := fun posted => settled (posted.fired perm notWriting)
      rw [field_fired notWriting unremoved]
      exact standing.whole k writes (began_of_notWriting notWriting began) unremoved' settled' f

/-- The step of the invariant. -/
theorem Standing.step (standing : Standing E t p) (keeping : Keeping t p) (starts : StartsAnything p e)
    (stepped : Clients.step E p e = some p') : Standing E t p' := by
  rcases Pool.step_cases stepped with ⟨task, rfl, rfl⟩ | ⟨_, task, rest, _, _, perm, rfl⟩
  · exact standing.start starts
  · exact standing.fire keeping perm

theorem Standing.run {es : List (PoolEvent Task)}
    (starts : Along (Clients.step E) StartsAnything (.idle t) es)
    (ran : Theory.run (Clients.step E) (.idle t) es = some p) : Keeping t p ∧ Standing E t p :=
  invariant_of_along (I := fun p => Keeping t p ∧ Standing E t p)
    (fun _ _ _ both here stepped => ⟨both.1.step here stepped, both.2.step both.1 here stepped⟩)
    es _ _ ⟨.initially t, .initially E t⟩ starts ran

/-- A posting that has come to its end, and has not been removed, is there as it was made. -/
theorem Standing.fields (standing : Standing E t p) (keeping : Keeping t p)
    {writes : List (JobField × String)} (began : Began p k writes) (unremoved : ¬ Removed p k)
    (settled : ¬ BeingPosted p k) (f : JobField) : p.shared.field k f = JobField.leaves writes f := by
  obtain ⟨v, leaf⟩ := Option.isSome_iff_exists.mp (standing.whole k writes began unremoved settled f)
  rcases keeping.origin k f v leaf with initially | ⟨writes', began', written⟩
  · exact absurd began ((keeping.initial k (JobTree.mem_of_field initially)).2.2 writes)
  · rw [leaf, ← keeping.once k _ _ began' began, written]

end Standing

/-- **No job is lost.**  Let any number of clients post, apply for, decline and remove jobs
in any order; one that has stopped with writes to come counts as still posting.  A job is
only ever removed if some `RemoveJob` read a tree in which the job's key stood at the row
that was tapped.  If it has not been removed, a job that was there at the start has the
fields it had; and a job that has been posted, with no write still to come, has all the
fields that its posting wrote. -/
theorem job_kept {E : Enumeration} {t : JobTree} {es : List (PoolEvent Task)}
    (starts : Along (step E) StartsAnything (.idle t) es) {p : State}
    (ran : run (step E) (.idle t) es = some p) (k : String) :
    (Removed p k → Picked E p k) ∧
      (¬ Removed p k → (k ∈ t → ∀ f, p.shared.field k f = t.field k f) ∧
        ∀ writes, Began p k writes → ¬ BeingPosted p k →
          ∀ f, p.shared.field k f = JobField.leaves writes f) := by
  obtain ⟨keeping, standing⟩ := Standing.run starts ran
  exact ⟨standing.removed k, fun unremoved => ⟨fun present => standing.initial k present unremoved,
    fun writes began settled => standing.fields keeping began unremoved settled⟩⟩

set_option maxRecDepth 2048 in
/-- Bob's job, while Ann's is posted, applied for and removed. -/
theorem job_kept_annBobAndEve :
    ∃ p, run (step .inserted) (.idle .empty) annBobAndEve = some p ∧ Removed p "b" ∧
      Began p "a" (CreateJob.jobWrites "57.71" "11.97" .sample "bob@x") ∧
      (Removed p "a" → Picked .inserted p "a") ∧
      (¬ Removed p "a" → ("a" ∈ JobTree.empty → ∀ f, p.shared.field "a" f = JobTree.empty.field "a" f) ∧
        ∀ writes, Began p "a" writes → ¬ BeingPosted p "a" →
          ∀ f, p.shared.field "a" f = JobField.leaves writes f) := by
  refine ⟨_, rfl, ⟨_, List.mem_cons_self⟩, ⟨⟨_, _, _, _, rfl⟩, ?_⟩,
    job_kept annBobAndEve_starts rfl "a"⟩
  exact ⟨_, List.mem_of_getElem? (i := 20) rfl⟩

end JobFinder.Clients
