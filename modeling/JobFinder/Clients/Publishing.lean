/-
# Clients.Publishing -- jobs that are being posted

`CreateJob` publishes a job by seven writes, each of them a step of its own, and
the client may be gone before it has made them all.  `Publishing` is the invariant:
under the key of a pending `CreateJob` stands exactly what the writes made so far
have left, and every other record is complete.

`readable_iff_not_partWay` is exact: a snapshot holds only complete records, and
the three lists can be loaded from it without a trap, if and only if no job is
part-way posted when it is taken.
-/
import JobFinder.Clients.Callbacks
import JobFinder.Controller.Readers

namespace JobFinder.Clients

open JobFinder.Theory JobFinder.Database JobFinder.Controller

set_option autoImplicit false

/-- The writes that publish some job. -/
def PublishesJob (writes : List (JobField × String)) : Prop :=
  ∃ latitude longitude form email, writes = CreateJob.jobWrites latitude longitude form email

/-- Clients post jobs, each under a key that no job and no other posting has. -/
def PostsUnderFreshKeys (p : State) (e : PoolEvent Task) : Prop :=
  ∀ task, e = .spawn task → ∃ key writes, task = .createJob key writes ∧ PublishesJob writes ∧
    key ∉ p.shared ∧ ∀ writes', .createJob key writes' ∉ p.tasks

/-- Some job has been written in part. -/
def PartWay (p : State) : Prop :=
  ∃ key writes, .createJob key writes ∈ p.tasks ∧ 0 < writes.length ∧
    writes.length < JobField.published.length

/-- The key under which a task posts. -/
def Task.postsAt : Task → Option String
  | .createJob key _ => some key
  | _ => none

/-- The writes made under the key, and those still to be made, publish a job. -/
def Posting (t : JobTree) (task : Task) : Prop :=
  ∃ key made pending, task = .createJob key pending ∧ PublishesJob (made ++ pending) ∧
    (∀ f, t.field key f = JobField.leaves made f) ∧ ∀ a, t.applicant key a = none

/-- Every pending task is posting, each under a key of its own, and what is not
being posted is complete. -/
structure Publishing (p : State) : Prop where
  posting : ∀ task ∈ p.tasks, Posting p.shared task
  apart : (p.tasks.map Task.postsAt).Nodup
  settled : ∀ k ∈ p.shared, (∀ writes, .createJob k writes ∈ p.tasks → writes = []) →
    (p.shared.node k).Complete

section Posting

variable {E : Enumeration} {p p' : State} {e : PoolEvent Task}

theorem PublishesJob.fields {writes : List (JobField × String)} (job : PublishesJob writes) :
    writes.map Prod.fst = JobField.published := by
  obtain ⟨latitude, longitude, form, email, rfl⟩ := job
  rfl

theorem PublishesJob.length {writes : List (JobField × String)} (job : PublishesJob writes) :
    writes.length = JobField.published.length := by
  rw [← job.fields, List.length_map]

/-- A write to another key leaves a posting as it is. -/
theorem Posting.setField {t : JobTree} {task : Task} (posting : Posting t task) {key : String}
    (other : task.postsAt ≠ some key) (f : JobField) (v : String) :
    Posting (t.setField key f v) task := by
  obtain ⟨k, made, pending, rfl, job, fields, applicants⟩ := posting
  have apart : k ≠ key := fun same => other (congrArg some same)
  refine ⟨k, made, pending, rfl, job, fun f' => ?_, fun a => ?_⟩
  · rw [JobTree.field_setField, if_neg fun both => apart both.1, fields]
  · rw [JobTree.applicant_setField, applicants]

/-- The next write of a posting. -/
theorem Posting.next {t : JobTree} {key v : String} {f : JobField}
    {pending : List (JobField × String)} (posting : Posting t (.createJob key ((f, v) :: pending))) :
    Posting (t.setField key f v) (.createJob key pending) := by
  obtain ⟨k, made, _, same, job, fields, applicants⟩ := posting
  cases same
  refine ⟨key, made ++ [(f, v)], pending, rfl, by simpa using job, fun f' => ?_, fun a => ?_⟩
  · rw [JobTree.field_setField, JobField.leaves_concat, fields]
    simp
  · rw [JobTree.applicant_setField, applicants]

/-- A posting whose writes have all been made has left a complete record. -/
theorem Posting.done {t : JobTree} {key : String} (posting : Posting t (.createJob key [])) :
    (t.node key).Complete := by
  obtain ⟨k, made, _, same, job, fields, _⟩ := posting
  cases same
  intro f
  have written : f ∈ made.map Prod.fst := by
    rw [List.append_nil] at job
    rw [job.fields]
    exact f.mem_published
  show (t.field key f).isSome
  rw [fields]
  exact JobField.leaves_isSome.mpr written

/-- A posting that has begun and not ended shows a title, and no poster. -/
theorem Posting.partWay {t : JobTree} {key : String} {pending : List (JobField × String)}
    (posting : Posting t (.createJob key pending)) (unfinished : 0 < pending.length)
    (begun : pending.length < JobField.published.length) :
    key ∈ t ∧ t.field key .jobPoster = none := by
  obtain ⟨k, made, _, same, job, fields, _⟩ := posting
  cases same
  have written := job.fields
  rw [List.map_append] at written
  have nodup : (made.map Prod.fst ++ pending.map Prod.fst).Nodup := by
    rw [written]
    decide
  constructor
  · -- the first write is the title's
    have length := job.length
    rw [List.length_append] at length
    cases made with
    | nil => simp at length; omega
    | cons w made =>
        have first : w.1 = .title := (List.cons.inj written).1
        have titled : (t.field key .title).isSome := by
          rw [fields, JobField.leaves_isSome, ← first]
          exact List.mem_cons_self
        obtain ⟨v, found⟩ := Option.isSome_iff_exists.mp titled
        exact JobTree.mem_of_field found
  · -- the last write is the poster's
    have last : JobField.jobPoster ∈ pending.map Prod.fst := by
      have some_ : pending.map Prod.fst ≠ [] := by
        intro none_
        rw [List.map_eq_nil_iff] at none_
        simp [none_] at unfinished
      have ends : (made.map Prod.fst ++ pending.map Prod.fst).getLast? = some .jobPoster := by
        rw [written]
        rfl
      rw [List.getLast?_append_of_ne_nil _ some_] at ends
      exact List.mem_of_getLast? ends
    rw [fields, ← Option.not_isSome_iff_eq_none, JobField.leaves_isSome]
    exact fun early => (List.nodup_append.mp nodup).2.2 _ early _ last rfl

/-- A new posting has written nothing yet. -/
theorem Publishing.spawn {key : String} {writes : List (JobField × String)}
    (publishing : Publishing p) (job : PublishesJob writes) (unposted : key ∉ p.shared)
    (fresh : ∀ writes', .createJob key writes' ∉ p.tasks) :
    Publishing { p with tasks := p.tasks ++ [.createJob key writes] } where
  posting task member := by
    rcases List.mem_append.mp member with before | new
    · exact publishing.posting task before
    · obtain rfl := List.mem_singleton.mp new
      exact ⟨key, [], writes, rfl, job, fun f => JobTree.field_of_not_mem unposted f,
        fun a => JobTree.applicant_of_not_mem unposted a⟩
  apart := by
    have newKey : some key ∉ p.tasks.map Task.postsAt := by
      rintro member
      obtain ⟨task, pending, same⟩ := List.mem_map.mp member
      obtain ⟨k, made, writes', rfl, _⟩ := publishing.posting task pending
      cases same
      exact fresh writes' pending
    rw [List.map_append, List.nodup_append]
    refine ⟨publishing.apart, List.nodup_singleton _, ?_⟩
    rintro k member _ new rfl
    obtain rfl := List.mem_singleton.mp new
    exact newKey member
  settled k present done :=
    publishing.settled k present fun writes' pending =>
      done writes' (List.mem_append_left _ pending)

/-- A posting that has nothing left to write goes away. -/
theorem Publishing.drop {key : String} {rest : List Task} (publishing : Publishing p)
    (perm : p.tasks.Perm (.createJob key [] :: rest)) (history : List (Task × JobTree)) :
    Publishing ⟨p.shared, rest ++ [], history⟩ where
  posting task member := by
    rw [List.append_nil] at member
    exact publishing.posting task (perm.mem_iff.mpr (List.mem_cons_of_mem _ member))
  apart := by
    rw [List.append_nil]
    exact (List.nodup_cons.mp ((perm.map _).nodup_iff.mp publishing.apart)).2
  settled k present done := by
    refine publishing.settled k present fun writes pending => ?_
    rcases List.mem_cons.mp (perm.mem_iff.mp pending) with same | other
    · cases same
      rfl
    · exact done writes (List.mem_append_left _ other)

/-- One write of a posting. -/
theorem Publishing.write {key v : String} {f : JobField} {pending : List (JobField × String)}
    {rest : List Task} (publishing : Publishing p)
    (perm : p.tasks.Perm (.createJob key ((f, v) :: pending) :: rest))
    (history : List (Task × JobTree)) :
    Publishing ⟨p.shared.setField key f v, rest ++ [.createJob key pending], history⟩ := by
  have apart : some key ∉ rest.map Task.postsAt ∧ (rest.map Task.postsAt).Nodup :=
    List.nodup_cons.mp ((perm.map _).nodup_iff.mp publishing.apart)
  have next : Posting (p.shared.setField key f v) (.createJob key pending) :=
    (publishing.posting _ (perm.mem_iff.mpr List.mem_cons_self)).next
  refine ⟨fun task member => ?_, ?_, fun k present done => ?_⟩
  · rcases List.mem_append.mp member with other | same
    · refine (publishing.posting task (perm.mem_iff.mpr (List.mem_cons_of_mem _ other))).setField ?_ f v
      exact fun same => apart.1 (same ▸ List.mem_map.mpr ⟨task, other, rfl⟩)
    · obtain rfl := List.mem_singleton.mp same
      exact next
  · rw [List.map_append, List.nodup_append]
    refine ⟨apart.2, List.nodup_singleton _, ?_⟩
    rintro k member _ same rfl
    obtain rfl := List.mem_singleton.mp same
    exact apart.1 member
  · by_cases same : k = key
    · subst same
      obtain rfl := done pending (List.mem_append_right _ (List.mem_singleton_self _))
      exact next.done
    · have present' := (JobTree.mem_setField.mp present).resolve_left same
      have complete := publishing.settled k present' fun writes pending' => by
        rcases List.mem_cons.mp (perm.mem_iff.mp pending') with equal | other
        · cases equal
          exact absurd rfl same
        · exact done writes (List.mem_append_left _ other)
      intro f'
      show ((p.shared.setField key f v).field k f').isSome
      rw [JobTree.field_setField, if_neg fun both => same both.1]
      exact complete f'

/-- The step of the invariant. -/
theorem Publishing.step (publishing : Publishing p) (fresh : PostsUnderFreshKeys p e)
    (stepped : Clients.step E p e = some p') : Publishing p' := by
  rcases Pool.step_cases stepped with ⟨task, rfl, rfl⟩ | ⟨_, task, rest, _, _, perm, rfl⟩
  · obtain ⟨key, writes, rfl, job, unposted, unposting⟩ := fresh task rfl
    exact publishing.spawn job unposted unposting
  · obtain ⟨key, made, pending, rfl, _⟩ := publishing.posting task (perm.mem_iff.mpr List.mem_cons_self)
    cases pending with
    | nil => exact publishing.drop perm _
    | cons w pending => exact publishing.write perm _

/-- Where a job is part-way posted, there is a record without a poster. -/
theorem Publishing.poster_missing (publishing : Publishing p) (partWay : PartWay p) :
    ∃ k ∈ p.shared, p.shared.field k .jobPoster = none := by
  obtain ⟨key, pending, member, unfinished, begun⟩ := partWay
  exact ⟨key, (publishing.posting _ member).partWay unfinished begun⟩

/-- Where none is, every record is complete. -/
theorem Publishing.complete (publishing : Publishing p) (none_ : ¬ PartWay p) :
    p.shared.Complete := by
  intro k present
  refine publishing.settled k present fun writes pending => ?_
  by_contra some_
  have unfinished : 0 < writes.length := List.length_pos_iff.mpr some_
  have unbegun : ¬ writes.length < JobField.published.length := fun begun =>
    none_ ⟨k, writes, pending, unfinished, begun⟩
  -- nothing has been written under the key, so there is no record
  obtain ⟨_, made, _, same, job, fields, applicants⟩ := publishing.posting _ pending
  cases same
  have length := job.length
  rw [List.length_append] at length
  obtain rfl : made = [] := List.length_eq_zero_iff.mp (by omega)
  rcases JobTree.mem_iff_leaf.mp present with ⟨f, leaf⟩ | ⟨a, leaf⟩
  · exact leaf (fields f)
  · exact leaf (applicants a)

end Posting

/-- **What a reader may find.**  Let any number of clients post jobs, and any of
them be gone at any moment.  Wherever such a run has come to, every record under
`postedJobs` has all its fields if and only if no job is part-way posted; and a
snapshot taken there can be shown in the three lists if and only if the same. -/
theorem readable_iff_not_partWay {E : Enumeration} {t : JobTree} (complete : t.Complete)
    {es : List (PoolEvent Task)} (fresh : Along (step E) PostsUnderFreshKeys (.idle t) es)
    {p : State} (ran : run (step E) (.idle t) es = some p) :
    (p.shared.Complete ↔ ¬ PartWay p) ∧ ∀ me, Readable E me p.shared ↔ ¬ PartWay p := by
  have initial : Publishing (.idle t) :=
    ⟨fun _ => (nomatch ·), List.nodup_nil, fun k present _ => complete.record present⟩
  have publishing : Publishing p :=
    invariant_of_along (fun _ _ _ inv here stepped => inv.step here stepped) es _ _ initial fresh ran
  constructor
  · refine ⟨fun complete partWay => ?_, publishing.complete⟩
    obtain ⟨k, present, missing⟩ := publishing.poster_missing partWay
    have found := complete k present .jobPoster
    rw [missing] at found
    cases found
  · refine fun me => ⟨fun readable partWay => ?_, fun none_ =>
      readable_complete E me (publishing.complete none_)⟩
    obtain ⟨k, present, missing⟩ := publishing.poster_missing partWay
    obtain ⟨poster, found⟩ := poster_of_readable readable present
    cases missing.symm.trans found

/-- The writes of Ann's job. -/
def annsJob : List (JobField × String) :=
  CreateJob.jobWrites "59.32" "18.07" .sample "ann@x"

/-- Ann's client makes the first write of a job. -/
theorem readable_iff_not_partWay_first :
    ∃ p, run (step .inserted) (.idle .empty) [.spawn (.createJob "b" annsJob), .fire 0] = some p ∧
      (p.shared.Complete ↔ ¬ PartWay p) ∧ ∀ me, Readable .inserted me p.shared ↔ ¬ PartWay p := by
  refine ⟨_, rfl, @readable_iff_not_partWay .inserted _ JobTree.complete_empty
    [.spawn (.createJob "b" annsJob), .fire 0] ?_ _ rfl⟩
  refine fun p₁ _ => ⟨fun task same => ?_, fun p₂ _ => ⟨fun task => (nomatch ·), trivial⟩⟩
  cases same
  exact ⟨"b", annsJob, rfl, ⟨_, _, _, _, rfl⟩, by decide, fun _ => List.not_mem_nil⟩

/-- Ann's client is gone after the first of its seven writes.  The record it leaves
has a title only, and traps all three lists of every client from then on. -/
theorem partWay_traps_readers :
    ∃ p, run (step .inserted) (.idle .empty) [.spawn (.createJob "b" annsJob), .fire 0] = some p ∧
      ¬ p.shared.Complete ∧
      Explore.cellForItemAt .inserted (Explore.listed .inserted p.shared) 0 = .error .forcedCast ∧
      (PostedJobs.ownJobs .inserted "bob@x" p.shared).trap = some .forcedCast ∧
      (ShowApplicants.myApplications .inserted "bob@x" p.shared).trap = some .forcedCast := by
  refine ⟨_, rfl, fun complete => ?_, rfl, rfl, rfl⟩
  exact absurd (complete "b" (by decide +kernel) .salary) (by decide +kernel)

end JobFinder.Clients
