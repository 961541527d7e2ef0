/-
# Clients.Together -- jobs posted, applied for and removed at the same time

Here all callbacks run together: postings under keys that nothing has used before,
and the taps on Apply, Remove and Decline that other clients make meanwhile.  A job
may then be removed while its own client is still writing it, and an application may
arrive for a job that is half written or gone.

`Keeping` is the invariant of such runs.  A record holds nothing but what one posting
wrote (`record_of_one_posting`), so a leaf that comes back comes back with the same
text (`leaf_stays`).
-/
import JobFinder.Clients.Applications
import JobFinder.Clients.Completeness
import JobFinder.Clients.Publishing

namespace JobFinder.Clients

open JobFinder.Theory JobFinder.Database JobFinder.Model JobFinder.Controller

set_option autoImplicit false

/-! ## Keys that have been used -/

/-- The keys of jobs that a callback has captured. -/
def Task.Names : Task → String → Prop
  | .createJob key _, k => k = key
  | .fileApplication hashID _ _, k => k = hashID
  | .removeJobAt key, k => k = key
  | .removeApplicationIn _ _ jobs, k => k ∈ jobs
  | .removeApplicantAt job _, k => k = job
  | .applyToJob .., _ => False
  | .removeJob _, _ => False
  | .removeApplication .., _ => False
  | .declineApplicant .., _ => False

/-- A job stands under the key, or a callback that is pending or over has named it. -/
def Used (p : State) (k : String) : Prop :=
  k ∈ p.shared ∨ (∃ task ∈ p.tasks, task.Names k) ∨ ∃ fired ∈ p.history, fired.1.Names k

/-- A job stands under the key, or a callback that is over has named it. -/
def Seen (p : State) (k : String) : Prop :=
  k ∈ p.shared ∨ ∃ fired ∈ p.history, fired.1.Names k

theorem Seen.used {p : State} {k : String} (seen : Seen p k) : Used p k := seen.imp_right .inr

/-- The jobs have been these at some moment. -/
def HasBeen (p : State) (s : JobTree) : Prop := s = p.shared ∨ ∃ task, (task, s) ∈ p.history

/-- What is started is a tap, or the posting of a job under a key that is new, or it is the
second read of a `RemoveApplication` that made its first at some moment before. -/
def StartsAnything (p : State) (e : PoolEvent Task) : Prop :=
  ∀ task, e = .spawn task → task.Tapped ∨
    (∃ key writes, task = .createJob key writes ∧ PublishesJob writes ∧ ¬ Used p key) ∨
    ∃ email jobTitle s, task = .removeApplicationIn email jobTitle (getPostedJobs s).1 ∧ HasBeen p s

theorem startsAnything_fire (p : State) (i : ℕ) : StartsAnything p (.fire i) := by
  intro task same
  cases same

theorem startsAnything_tap (p : State) {task : Task} (tapped : task.Tapped) :
    StartsAnything p (.spawn task) := by
  intro task' same
  cases same
  exact .inl tapped

theorem startsAnything_post {p : State} {key : String} {writes : List (JobField × String)}
    (job : PublishesJob writes) (new : ¬ Used p key) :
    StartsAnything p (.spawn (.createJob key writes)) := by
  intro task same
  cases same
  exact .inr (.inl ⟨key, writes, rfl, job, new⟩)

theorem startsAnything_read {p : State} {s : JobTree} (been : HasBeen p s) (email jobTitle : String) :
    StartsAnything p (.spawn (.removeApplicationIn email jobTitle (getPostedJobs s).1)) := by
  intro task same
  cases same
  exact .inr (.inr ⟨email, jobTitle, s, rfl, been⟩)

section Keys

variable {E : Enumeration} {task : Task} {t : JobTree} {k : String}

theorem Task.Tapped.names_nothing (tapped : task.Tapped) : ¬ task.Names k := by
  intro named
  cases tapped <;> exact named

/-- A callback only writes under a key it has captured. -/
theorem mem_exec (present : k ∈ (task.exec E t).1) : k ∈ t ∨ task.Names k := by
  cases task with
  | createJob key writes =>
      cases writes with
      | nil => exact .inl present
      | cons w writes => exact (JobTree.mem_setField.mp present).symm
  | applyToJob jobID uuid email =>
      simp only [Task.exec] at present
      split at present <;> exact .inl present
  | fileApplication hashID uuid email => exact (JobTree.mem_addApplicant.mp present).symm
  | removeJob jobIndex => exact .inl present
  | removeJobAt key => exact .inl (JobTree.mem_removeJob.mp present).2
  | removeApplication email jobTitle => exact .inl present
  | removeApplicationIn email jobTitle jobs => exact .inl present
  | removeApplicantAt job applicant => exact .inl (JobTree.mem_of_mem_removeApplicant present)
  | declineApplicant applicants tag => exact .inl present

/-- A callback only takes a job away under a key it has captured. -/
theorem names_of_gone (present : k ∈ t) (gone : k ∉ (task.exec E t).1) : task.Names k := by
  cases task with
  | createJob key writes =>
      cases writes with
      | nil => exact absurd present gone
      | cons w writes => exact absurd (JobTree.mem_setField.mpr (.inr present)) gone
  | applyToJob jobID uuid email =>
      simp only [Task.exec] at gone
      split at gone <;> exact absurd present gone
  | fileApplication hashID uuid email =>
      exact absurd (JobTree.mem_addApplicant.mpr (.inr present)) gone
  | removeJob jobIndex => exact absurd present gone
  | removeJobAt key =>
      by_contra other
      exact gone (JobTree.mem_removeJob.mpr ⟨other, present⟩)
  | removeApplication email jobTitle => exact absurd present gone
  | removeApplicationIn email jobTitle jobs => exact absurd present gone
  | removeApplicantAt job applicant =>
      by_contra unnamed
      have other : k ≠ job := unnamed
      refine gone (JobTree.mem_iff_leaf.mpr ((JobTree.mem_iff_leaf.mp present).imp ?_ ?_))
      · rintro ⟨f, leaf⟩
        exact ⟨f, by simpa [Task.exec] using leaf⟩
      · rintro ⟨a, leaf⟩
        exact ⟨a, by simpa [Task.exec, other] using leaf⟩
  | declineApplicant applicants tag => exact absurd present gone

/-- A callback captures the keys it has read, and those it was given. -/
theorem names_issued {issued : Task} (member : issued ∈ (task.exec E t).2) (named : issued.Names k) :
    k ∈ t ∨ task.Names k := by
  cases task with
  | createJob key writes =>
      cases writes with
      | nil => cases member
      | cons w writes =>
          obtain rfl := List.mem_singleton.mp member
          exact .inr named
  | applyToJob jobID uuid email =>
      simp only [Task.exec] at member
      split at member
      · rename_i hashID filed
        obtain rfl := List.mem_singleton.mp member
        obtain rfl : k = hashID := named
        have posted : ∃ k', k' ∈ t := by
          by_contra none_
          push Not at none_
          rw [JobListing.applyToJob_none none_] at filed
          cases filed
        rw [JobListing.applyToJob_posted posted] at filed
        cases found : subscript (t.keys E) jobID with
        | error trap => rw [found] at filed; cases filed
        | ok key =>
            rw [found] at filed
            cases filed
            exact .inl (JobTree.mem_keys.mp (List.mem_of_getElem? (subscript_ok.mp found)))
      · cases member
  | fileApplication hashID uuid email => cases member
  | removeJob jobIndex =>
      obtain ⟨key, removed, rfl⟩ := List.mem_map.mp member
      obtain rfl : k = key := named
      rw [EditJob.removeJob_out, Option.mem_toList] at removed
      exact .inl (JobTree.mem_keys.mp (List.mem_of_getElem? removed))
  | removeJobAt key => cases member
  | removeApplication email jobTitle =>
      obtain rfl := List.mem_singleton.mp member
      have captured : k ∈ (getPostedJobs t).1 := named
      rw [getPostedJobs_fst] at captured
      exact .inl captured
  | removeApplicationIn email jobTitle jobs =>
      obtain ⟨⟨job, applicant⟩, path, rfl⟩ := List.mem_map.mp member
      obtain rfl : k = job := named
      exact .inr (mem_removeApplication path).1
  | removeApplicantAt job applicant => cases member
  | declineApplicant applicants tag =>
      obtain ⟨call, _, rfl⟩ := List.mem_map.mp member
      exact absurd named id

variable {p : State} {rest : List Task}

/-- What has been seen stays so, -/
theorem Seen.fired (seen : Seen p k) : Seen (Clients.fired E p task rest) k := by
  rcases seen with present | ⟨past, member, named⟩
  · by_cases kept : k ∈ (task.exec E p.shared).1
    · exact .inl kept
    · exact .inr ⟨_, List.mem_cons_self, names_of_gone present kept⟩
  · exact .inr ⟨past, List.mem_cons_of_mem _ member, named⟩

theorem HasBeen.fired {s : JobTree} (been : HasBeen p s) : HasBeen (Clients.fired E p task rest) s := by
  rcases been with rfl | ⟨past, member⟩
  · exact .inr ⟨task, List.mem_cons_self⟩
  · exact .inr ⟨past, List.mem_cons_of_mem _ member⟩

/-- and so does a used key; -/
theorem Used.fired (used : Used p k) (perm : p.tasks.Perm (task :: rest)) :
    Used (Clients.fired E p task rest) k := by
  rcases used with present | ⟨task', pending, named⟩ | heard
  · exact (Seen.fired (.inl present)).used
  · rcases List.mem_cons.mp (perm.mem_iff.mp pending) with rfl | other
    · exact .inr (.inr ⟨_, List.mem_cons_self, named⟩)
    · exact .inr (.inl ⟨task', List.mem_append_left _ other, named⟩)
  · exact (Seen.fired (.inr heard)).used

/-- a callback brings no new key into use. -/
theorem used_fired (perm : p.tasks.Perm (task :: rest)) (used : Used (fired E p task rest) k) :
    Used p k := by
  have firing : task ∈ p.tasks := perm.mem_iff.mpr List.mem_cons_self
  rcases used with present | ⟨task', member, named⟩ | ⟨past, member, named⟩
  · exact (mem_exec present).imp id fun named => .inl ⟨task, firing, named⟩
  · rcases List.mem_append.mp member with other | issued
    · exact .inr (.inl ⟨task', perm.mem_iff.mpr (List.mem_cons_of_mem _ other), named⟩)
    · exact (names_issued issued named).imp id fun named => .inl ⟨task, firing, named⟩
  · rcases List.mem_cons.mp member with rfl | before
    · exact .inr (.inl ⟨task, firing, named⟩)
    · exact .inr (.inr ⟨past, before, named⟩)

/-- What starts brings the keys into use that it has captured. -/
theorem used_start (used : Used { p with tasks := p.tasks ++ [task] } k) :
    Used p k ∨ task.Names k := by
  rcases used with present | ⟨task', member, named⟩ | heard
  · exact .inl (.inl present)
  · rcases List.mem_append.mp member with before | new
    · exact .inl (.inr (.inl ⟨task', before, named⟩))
    · obtain rfl := List.mem_singleton.mp new
      exact .inr named
  · exact .inl (.inr (.inr heard))

end Keys

/-! ## What every posting keeps -/

/-- The posting of these writes has made the first of them. -/
def Began (p : State) (key : String) (writes : List (JobField × String)) : Prop :=
  PublishesJob writes ∧ ∃ t, (.createJob key writes, t) ∈ p.history

/-- Nothing but the pending posting knows the key. -/
structure Untouched (p : State) (key : String) (pending : List (JobField × String)) : Prop where
  absent : key ∉ p.shared
  unnamed : ∀ task ∈ p.tasks, task.Names key → task = .createJob key pending
  unheard : ∀ fired ∈ p.history, ¬ fired.1.Names key

theorem Untouched.unseen {p : State} {key : String} {pending : List (JobField × String)}
    (untouched : Untouched p key pending) : ¬ Seen p key := by
  rintro (present | ⟨past, member, named⟩)
  · exact untouched.absent present
  · exact untouched.unheard past member named

/-- What a pending posting finds under its key: nothing that it has not written, and,
while the title is there, everything that it has. -/
structure Draft (p : State) (key : String) (made pending : List (JobField × String)) : Prop where
  job : PublishesJob (made ++ pending)
  own : ∀ f v, p.shared.field key f = some v → JobField.leaves made f = some v
  untorn : (p.shared.field key .title).isSome → ∀ f, p.shared.field key f = JobField.leaves made f
  began : made ≠ [] → Began p key (made ++ pending)
  untouched : made = [] → Untouched p key pending

/-- The invariant of a run from `t₀`. -/
structure Keeping (t₀ : JobTree) (p : State) : Prop where
  draft : ∀ key pending, .createJob key pending ∈ p.tasks → ∃ made, Draft p key made pending
  apart : (p.tasks.filterMap Task.postsAt).Nodup
  sourced : ∀ k, Used p k → k ∈ t₀ ∨ (∃ writes, Began p k writes) ∨
    ∃ writes, PublishesJob writes ∧ .createJob k writes ∈ p.tasks
  initial : ∀ k ∈ t₀, Used p k ∧ (∀ writes, .createJob k writes ∉ p.tasks) ∧
    ∀ writes, ¬ Began p k writes
  origin : ∀ k f v, p.shared.field k f = some v → t₀.field k f = some v ∨
    ∃ writes, Began p k writes ∧ JobField.leaves writes f = some v
  once : ∀ k writes writes', Began p k writes → Began p k writes' → writes = writes'
  seen : ∀ s, HasBeen p s → ∀ k ∈ s, Seen p k

section Leaves

theorem leaves_append (l m : List (JobField × String)) (f : JobField) :
    JobField.leaves (l ++ m) f = (JobField.leaves m f).or (JobField.leaves l f) := by
  induction m using List.reverseRecOn with
  | nil => simp
  | append_singleton m w ih =>
      rw [← List.append_assoc, JobField.leaves_concat, JobField.leaves_concat, ih]
      split <;> rfl

variable {made pending : List (JobField × String)} {f : JobField} {v : String}

theorem PublishesJob.nodup {writes : List (JobField × String)} (job : PublishesJob writes) :
    (writes.map Prod.fst).Nodup := by
  rw [job.fields]
  decide

/-- No field is written twice, so a leaf stays as it was first written. -/
theorem PublishesJob.leaves_prefix (job : PublishesJob (made ++ pending))
    (written : JobField.leaves made f = some v) : JobField.leaves (made ++ pending) f = some v := by
  have nodup := job.nodup
  rw [List.map_append] at nodup
  have early : f ∈ made.map Prod.fst := JobField.leaves_isSome.mp (by rw [written]; rfl)
  have later : JobField.leaves pending f = none := by
    rw [← Option.not_isSome_iff_eq_none, JobField.leaves_isSome]
    exact fun late => (List.nodup_append.mp nodup).2.2 _ early _ late rfl
  rw [leaves_append, later, written]
  rfl

/-- The next write is the title's exactly if it is the first. -/
theorem PublishesJob.title_iff (job : PublishesJob (made ++ (f, v) :: pending)) :
    f = .title ↔ made = [] := by
  have fields := job.fields
  rw [List.map_append, List.map_cons] at fields
  cases made with
  | nil => exact iff_of_true (List.cons.inj fields).1 rfl
  | cons w made =>
      refine iff_of_false ?_ (List.cons_ne_nil _ _)
      rintro rfl
      have nodup := job.nodup
      have first : w.1 = .title := (List.cons.inj fields).1
      simp [first] at nodup

/-- The poster's field is written last. -/
theorem PublishesJob.poster_last (job : PublishesJob (made ++ pending)) (unfinished : pending ≠ []) :
    JobField.leaves made .jobPoster = none := by
  have fields := job.fields
  have nodup := job.nodup
  rw [List.map_append] at fields nodup
  have ends : (made.map Prod.fst ++ pending.map Prod.fst).getLast? = some .jobPoster := by
    rw [fields]
    rfl
  rw [List.getLast?_append_of_ne_nil _ (by simpa using unfinished)] at ends
  rw [← Option.not_isSome_iff_eq_none, JobField.leaves_isSome]
  exact fun early =>
    (List.nodup_append.mp nodup).2.2 _ early _ (List.mem_of_getLast? ends) rfl

end Leaves

section Fire

variable {E : Enumeration} {p : State} {task : Task} {rest : List Task} {key k : String}
  {made pending : List (JobField × String)}

theorem Began.fired {writes : List (JobField × String)} (began : Began p k writes) :
    Began (fired E p task rest) k writes :=
  ⟨began.1, began.2.imp fun _ member => List.mem_cons_of_mem _ member⟩

/-- What has begun after a task has fired had begun before, or is that task. -/
theorem began_fired {writes : List (JobField × String)}
    (began : Began (Clients.fired E p task rest) k writes) :
    Began p k writes ∨ task = .createJob k writes ∧ PublishesJob writes := by
  obtain ⟨job, t, member⟩ := began
  rcases List.mem_cons.mp member with here | before
  · exact .inr ⟨(congrArg Prod.fst here).symm, job⟩
  · exact .inl ⟨job, t, before⟩

/-- A callback that writes no field under a key leaves the fields there as they are, or
removes the job. -/
theorem field_exec {t : JobTree} (notWriting : ∀ w writes, task ≠ .createJob key (w :: writes)) :
    (∀ f, (task.exec E t).1.field key f = t.field key f) ∨
      task = .removeJobAt key ∧ ∀ f, (task.exec E t).1.field key f = none := by
  cases task with
  | createJob key' writes =>
      cases writes with
      | nil => exact .inl fun f => rfl
      | cons w writes =>
          have apart : key ≠ key' := by
            rintro rfl
            exact notWriting w writes rfl
          exact .inl fun f => by simp [Task.exec, apart]
  | applyToJob jobID uuid email =>
      left
      intro f
      simp only [Task.exec]
      split <;> rfl
  | fileApplication hashID uuid email => exact .inl fun f => JobTree.field_addApplicant ..
  | removeJob jobIndex => exact .inl fun f => rfl
  | removeJobAt key' =>
      by_cases same : key = key'
      · subst same
        exact .inr ⟨rfl, fun f => by simp [Task.exec]⟩
      · exact .inl fun f => by simp [Task.exec, same]
  | removeApplication email jobTitle => exact .inl fun f => rfl
  | removeApplicationIn email jobTitle jobs => exact .inl fun f => rfl
  | removeApplicantAt job applicant => exact .inl fun f => JobTree.field_removeApplicant ..
  | declineApplicant applicants tag => exact .inl fun f => rfl

theorem notWriting_of_postsAt (other : task.postsAt ≠ some key) (w : JobField × String)
    (writes : List (JobField × String)) : task ≠ .createJob key (w :: writes) := by
  rintro rfl
  exact other rfl

theorem Untouched.fired (untouched : Untouched p key pending)
    (perm : p.tasks.Perm (task :: rest)) (unnamed : ¬ task.Names key) :
    Untouched (Clients.fired E p task rest) key pending where
  absent present := (mem_exec present).elim untouched.absent unnamed
  unnamed task' member named := by
    rcases List.mem_append.mp member with other | issued
    · exact untouched.unnamed task' (perm.mem_iff.mpr (List.mem_cons_of_mem _ other)) named
    · exact absurd (names_issued issued named) (not_or.mpr ⟨untouched.absent, unnamed⟩)
  unheard past member := by
    rcases List.mem_cons.mp member with rfl | before
    · exact unnamed
    · exact untouched.unheard past before

/-- A posting does not notice the callbacks of others, save that its job is gone. -/
theorem Draft.fired (draft : Draft p key made pending)
    (perm : p.tasks.Perm (task :: rest)) (other : task.postsAt ≠ some key) :
    Draft (Clients.fired E p task rest) key made pending where
  job := draft.job
  own f v leaf := by
    rcases field_exec (E := E) (t := p.shared) (notWriting_of_postsAt other) with same | ⟨_, gone⟩
    · exact draft.own f v ((same f).symm.trans leaf)
    · cases (gone f).symm.trans leaf
  untorn titled := by
    rcases field_exec (E := E) (t := p.shared) (notWriting_of_postsAt other) with same | ⟨_, gone⟩
    · exact fun f => (same f).trans (draft.untorn (by rw [← same]; exact titled) f)
    · rw [Clients.fired, gone] at titled
      cases titled
  began some_ := (draft.began some_).fired
  untouched none_ := by
    refine (draft.untouched none_).fired perm fun named => other ?_
    rw [(draft.untouched none_).unnamed task (perm.mem_iff.mpr List.mem_cons_self) named]
    rfl

/-- The next write of a posting. -/
theorem Draft.next {f : JobField} {v : String}
    (draft : Draft p key made ((f, v) :: pending)) :
    Draft (Clients.fired E p (.createJob key ((f, v) :: pending)) rest) key (made ++ [(f, v)])
      pending where
  job := by simpa using draft.job
  own f' v' leaf := by
    simp only [Clients.fired, Task.exec, JobTree.field_setField] at leaf
    rw [JobField.leaves_concat]
    by_cases same : f' = f
    · simpa [same] using leaf
    · rw [if_neg same]
      exact draft.own f' v' (by simpa [same] using leaf)
  untorn titled f' := by
    simp only [Clients.fired, Task.exec, JobTree.field_setField, true_and] at titled ⊢
    rw [JobField.leaves_concat]
    have before : ∀ f', p.shared.field key f' = JobField.leaves made f' := by
      by_cases first : made = []
      · subst first
        exact fun f' => JobTree.field_of_not_mem (draft.untouched rfl).absent f'
      · have later : ¬ .title = f := fun same => first (draft.job.title_iff.mp same.symm)
        rw [if_neg later] at titled
        exact draft.untorn titled
    rw [before]
  began _ := by
    rw [List.append_assoc, List.singleton_append]
    by_cases first : made = []
    · subst first
      exact ⟨draft.job, p.shared, List.mem_cons_self⟩
    · exact (draft.began first).fired
  untouched none_ := absurd none_ (by simp)

end Fire

section Invariant

variable {E : Enumeration} {t₀ : JobTree} {p p' : State} {e : PoolEvent Task} {key k : String}
  {writes pending : List (JobField × String)} {task : Task} {rest : List Task}

theorem Task.postsAt_eq {task : Task} (posts : task.postsAt = some key) :
    ∃ pending, task = .createJob key pending := by
  cases task <;> cases posts
  exact ⟨_, rfl⟩

theorem Keeping.initially (t₀ : JobTree) : Keeping t₀ (.idle t₀) where
  draft _ _ member := absurd member List.not_mem_nil
  apart := List.nodup_nil
  sourced k used := by
    rcases used with present | ⟨_, member, _⟩ | ⟨_, member, _⟩
    · exact .inl present
    · cases member
    · cases member
  initial k present := by
    refine ⟨.inl present, fun _ => List.not_mem_nil, ?_⟩
    rintro writes ⟨_, _, member⟩
    cases member
  origin _ _ _ leaf := .inl leaf
  once _ _ _ began _ := by
    obtain ⟨_, _, member⟩ := began
    cases member
  seen s been k present := by
    rcases been with rfl | ⟨_, member⟩
    · exact .inl present
    · cases member

/-- Something starts that posts no job, and names nothing but what has been seen. -/
theorem Keeping.start (keeping : Keeping t₀ p) (notPosting : task.postsAt = none)
    (named : ∀ k, task.Names k → Seen p k) : Keeping t₀ { p with tasks := p.tasks ++ [task] } := by
  have posting {key pending} (member : Task.createJob key pending ∈ p.tasks ++ [task]) :
      .createJob key pending ∈ p.tasks := by
    rcases List.mem_append.mp member with before | new
    · exact before
    · obtain rfl := List.mem_singleton.mp new
      cases notPosting
  have usedBefore {k} (used : Used { p with tasks := p.tasks ++ [task] } k) : Used p k :=
    (used_start used).elim id fun names => (named k names).used
  refine ⟨fun key pending member => ?_, ?_, fun k used => ?_, fun k present => ?_, keeping.origin,
    keeping.once, keeping.seen⟩
  · obtain ⟨made, draft⟩ := keeping.draft key pending (posting member)
    refine ⟨made, draft.job, draft.own, draft.untorn, draft.began, fun none_ => ?_⟩
    have untouched := draft.untouched none_
    refine ⟨untouched.absent, fun task' member' names => ?_, untouched.unheard⟩
    rcases List.mem_append.mp member' with before | new
    · exact untouched.unnamed task' before names
    · obtain rfl := List.mem_singleton.mp new
      exact absurd (named _ names) untouched.unseen
  · simpa [notPosting] using keeping.apart
  · refine (keeping.sourced k (usedBefore used)).imp id (.imp id ?_)
    exact fun ⟨writes, job, member⟩ => ⟨writes, job, List.mem_append_left _ member⟩
  · obtain ⟨used, none_, never⟩ := keeping.initial k present
    refine ⟨used.imp id (.imp ?_ id), fun writes member => none_ writes (posting member), never⟩
    exact fun ⟨task', member, names⟩ => ⟨task', List.mem_append_left _ member, names⟩

/-- A posting starts under a key that is new. -/
theorem Keeping.post (keeping : Keeping t₀ p) (job : PublishesJob writes) (new : ¬ Used p key) :
    Keeping t₀ { p with tasks := p.tasks ++ [.createJob key writes] } := by
  have unnamed : ∀ task ∈ p.tasks, ¬ task.Names key :=
    fun task member named => new (.inr (.inl ⟨task, member, named⟩))
  have posting {k pending} (member : .createJob k pending ∈ p.tasks ++ [.createJob key writes]) :
      .createJob k pending ∈ p.tasks ∨ k = key ∧ pending = writes := by
    refine (List.mem_append.mp member).imp id fun this => ?_
    cases List.mem_singleton.mp this
    exact ⟨rfl, rfl⟩
  refine ⟨fun k pending member => ?_, ?_, fun k used => ?_, fun k present => ?_, keeping.origin,
    keeping.once, keeping.seen⟩
  · rcases posting member with before | ⟨rfl, rfl⟩
    · obtain ⟨made, draft⟩ := keeping.draft k pending before
      refine ⟨made, draft.job, draft.own, draft.untorn, draft.began, fun none_ => ?_⟩
      have untouched := draft.untouched none_
      refine ⟨untouched.absent, fun task member' named => ?_, untouched.unheard⟩
      rcases List.mem_append.mp member' with old | this
      · exact untouched.unnamed task old named
      · obtain rfl := List.mem_singleton.mp this
        obtain rfl : k = key := named
        exact absurd rfl (unnamed _ before)
    · have absent : k ∉ p.shared := fun present => new (.inl present)
      refine ⟨[], job, fun f v leaf => ?_, fun _ f => JobTree.field_of_not_mem absent f,
        fun some_ => absurd rfl some_, fun _ => ⟨absent, fun task member' named => ?_, ?_⟩⟩
      · cases (JobTree.field_of_not_mem absent f).symm.trans leaf
      · rcases List.mem_append.mp member' with old | this
        · exact absurd named (unnamed task old)
        · exact List.mem_singleton.mp this
      · exact fun past member' named => new (.inr (.inr ⟨past, member', named⟩))
  · rw [List.filterMap_append, List.nodup_append]
    refine ⟨keeping.apart, by simp [Task.postsAt], ?_⟩
    rintro k before _ this rfl
    obtain ⟨task, member, posts⟩ := List.mem_filterMap.mp before
    obtain ⟨pending, rfl⟩ := Task.postsAt_eq posts
    obtain rfl : k = key := by simpa [Task.postsAt] using this
    exact unnamed _ member rfl
  · by_cases same : k = key
    · subst same
      exact .inr (.inr ⟨writes, job, List.mem_append_right _ (List.mem_singleton_self _)⟩)
    · have usedBefore : Used p k := (used_start used).resolve_right same
      refine (keeping.sourced k usedBefore).imp id (.imp id ?_)
      exact fun ⟨writes', job', member⟩ => ⟨writes', job', List.mem_append_left _ member⟩
  · obtain ⟨used, none_, never⟩ := keeping.initial k present
    refine ⟨used.imp id (.imp ?_ id), fun pending member => ?_, never⟩
    · exact fun ⟨task, member, named⟩ => ⟨task, List.mem_append_left _ member, named⟩
    · rcases posting member with before | ⟨rfl, rfl⟩
      · exact none_ pending before
      · exact new used

/-- The keys of the pending postings, when one of the tasks is singled out. -/
theorem Keeping.apart_cons (keeping : Keeping t₀ p) (perm : p.tasks.Perm (task :: rest)) :
    ((task :: rest).filterMap Task.postsAt).Nodup :=
  (perm.filterMap _).nodup_iff.mp keeping.apart

/-- Another posting has another key. -/
theorem Keeping.other_key (keeping : Keeping t₀ p)
    (perm : p.tasks.Perm (.createJob key writes :: rest)) (member : .createJob k pending ∈ rest) :
    k ≠ key := by
  rintro rfl
  have apart := keeping.apart_cons perm
  have first : (Task.createJob k writes).postsAt = some k := rfl
  rw [List.filterMap_cons_some first, List.nodup_cons] at apart
  exact apart.1 (List.mem_filterMap.mpr ⟨_, member, rfl⟩)

/-- A posting that has all its writes before it has not begun. -/
theorem Keeping.not_began (keeping : Keeping t₀ p) (pending_ : .createJob key writes ∈ p.tasks)
    (job : PublishesJob writes) {writes' : List (JobField × String)} : ¬ Began p key writes' := by
  rintro ⟨_, t, member⟩
  obtain ⟨made, draft⟩ := keeping.draft key writes pending_
  have all := draft.job.length
  rw [List.length_append, job.length] at all
  have none_ : made = [] := List.length_eq_zero_iff.mp (by omega)
  exact (draft.untouched none_).unheard _ member rfl

/-- Whatever fires, the invariant is kept, given what it leaves of the posting it belongs
to. -/
theorem Keeping.fire (keeping : Keeping t₀ p) (perm : p.tasks.Perm (task :: rest))
    (continues : ∀ k pending, .createJob k pending ∈ (task.exec E p.shared).2 →
      task.postsAt = some k ∧ ∃ made, Draft (fired E p task rest) k made pending)
    (single : ((task.exec E p.shared).2.filterMap Task.postsAt).Sublist task.postsAt.toList)
    (writes_ : ∀ k f v, (task.exec E p.shared).1.field k f = some v → p.shared.field k f ≠ some v →
      ∃ writes, Began (fired E p task rest) k writes ∧ JobField.leaves writes f = some v) :
    Keeping t₀ (fired E p task rest) := by
  have firing : task ∈ p.tasks := perm.mem_iff.mpr List.mem_cons_self
  have apart := keeping.apart_cons perm
  have other {k pending} (member : .createJob k pending ∈ rest) : task.postsAt ≠ some k := by
    intro posts
    obtain ⟨writes, rfl⟩ := Task.postsAt_eq posts
    exact keeping.other_key perm member rfl
  refine ⟨fun k pending member => ?_, ?_, fun k used => ?_, fun k present => ?_,
    fun k f v leaf => ?_, fun k w w' began began' => ?_, fun s been k present => ?_⟩
  · rcases List.mem_append.mp member with before | issued
    · obtain ⟨made, draft⟩ := keeping.draft k pending
        (perm.mem_iff.mpr (List.mem_cons_of_mem _ before))
      exact ⟨made, draft.fired perm (other before)⟩
    · exact (continues k pending issued).2
  · rw [fired, List.filterMap_append, List.nodup_append]
    refine ⟨?_, ?_, ?_⟩
    · exact (List.sublist_cons_self task rest).filterMap _ |>.nodup apart
    · exact single.nodup (by cases task.postsAt <;> simp)
    · rintro k before _ issued rfl
      obtain ⟨task', member, posts⟩ := List.mem_filterMap.mp before
      obtain ⟨pending, rfl⟩ := Task.postsAt_eq posts
      obtain ⟨task'', member', posts'⟩ := List.mem_filterMap.mp issued
      obtain ⟨pending', rfl⟩ := Task.postsAt_eq posts'
      exact other member (continues k pending' member').1
  · rcases keeping.sourced k (used_fired perm used) with present | ⟨writes, began⟩ |
      ⟨writes, job, member⟩
    · exact .inl present
    · exact .inr (.inl ⟨writes, began.fired⟩)
    · rcases List.mem_cons.mp (perm.mem_iff.mp member) with rfl | before
      · exact .inr (.inl ⟨writes, job, p.shared, List.mem_cons_self⟩)
      · exact .inr (.inr ⟨writes, job, List.mem_append_left _ before⟩)
  · obtain ⟨used, none_, never⟩ := keeping.initial k present
    refine ⟨used.fired perm, fun pending member => ?_, fun writes began => ?_⟩
    · rcases List.mem_append.mp member with before | issued
      · exact none_ pending (perm.mem_iff.mpr (List.mem_cons_of_mem _ before))
      · obtain ⟨writes, rfl⟩ := Task.postsAt_eq (continues k pending issued).1
        exact none_ writes firing
    · rcases began_fired began with before | ⟨rfl, _⟩
      · exact never writes before
      · exact none_ writes firing
  · by_cases same : p.shared.field k f = some v
    · rcases keeping.origin k f v same with initial | ⟨writes, began, written⟩
      · exact .inl initial
      · exact .inr ⟨writes, began.fired, written⟩
    · exact .inr (writes_ k f v leaf same)
  · rcases began_fired began with before | ⟨rfl, job⟩ <;>
      rcases began_fired began' with before' | ⟨same, job'⟩
    · exact keeping.once k w w' before before'
    · subst same
      exact absurd before (keeping.not_began firing job')
    · exact absurd before' (keeping.not_began firing job)
    · cases same
      rfl
  · rcases been with rfl | ⟨task', member⟩
    · exact .inl present
    · rcases List.mem_cons.mp member with now | before
      · cases now
        exact Seen.fired (.inl present)
      · exact (keeping.seen s (.inr ⟨task', before⟩) k present).fired

/-- One write of a posting. -/
theorem Keeping.write {f : JobField} {v : String} (keeping : Keeping t₀ p)
    (perm : p.tasks.Perm (.createJob key ((f, v) :: pending) :: rest)) :
    Keeping t₀ (fired E p (.createJob key ((f, v) :: pending)) rest) := by
  obtain ⟨made, draft⟩ := keeping.draft key _ (perm.mem_iff.mpr List.mem_cons_self)
  have next : Draft (fired E p (.createJob key ((f, v) :: pending)) rest) key (made ++ [(f, v)])
    pending := draft.next
  refine keeping.fire perm (fun k pending' issued => ?_) (List.Sublist.refl _)
    fun k f' v' leaf new => ?_
  · cases List.mem_singleton.mp issued
    exact ⟨rfl, _, next⟩
  · -- what is new is what has just been written
    have written : k = key ∧ f' = f := by
      by_contra other
      simp only [Task.exec, JobTree.field_setField, if_neg other] at leaf
      exact new leaf
    obtain ⟨rfl, rfl⟩ := written
    exact ⟨_, next.began (by simp), next.job.leaves_prefix (next.own f' v' leaf)⟩

/-- A callback that writes no field. -/
theorem Keeping.others (keeping : Keeping t₀ p) (perm : p.tasks.Perm (task :: rest))
    (notWriting : ∀ key w writes, task ≠ .createJob key (w :: writes)) :
    Keeping t₀ (fired E p task rest) := by
  have silent : ∀ k pending, .createJob k pending ∉ (task.exec E p.shared).2 := by
    intro k pending issued
    obtain ⟨writes, rfl⟩ := exec_posts issued
    cases writes with
    | nil => cases issued
    | cons w writes => exact notWriting k w writes rfl
  refine keeping.fire perm (fun k pending issued => absurd issued (silent k pending)) ?_ ?_
  · have none_ : (task.exec E p.shared).2.filterMap Task.postsAt = [] := by
      refine List.filterMap_eq_nil_iff.mpr fun issued member => ?_
      by_contra some_
      obtain ⟨k, posts⟩ := Option.ne_none_iff_exists'.mp some_
      obtain ⟨pending, rfl⟩ := Task.postsAt_eq posts
      exact silent k pending member
    rw [none_]
    exact List.nil_sublist _
  · intro k f v leaf new
    rcases field_exec (E := E) (t := p.shared) (notWriting k) with same | ⟨_, gone⟩
    · exact absurd ((same f).symm.trans leaf) new
    · cases (gone f).symm.trans leaf

/-- **The step of the invariant.** -/
theorem Keeping.step (keeping : Keeping t₀ p) (starts : StartsAnything p e)
    (stepped : Clients.step E p e = some p') : Keeping t₀ p' := by
  rcases Pool.step_cases stepped with ⟨task, rfl, rfl⟩ | ⟨_, task, rest, _, _, perm, rfl⟩
  · rcases starts task rfl with tapped | ⟨key, writes, rfl, job, new⟩ | ⟨_, _, s, rfl, been⟩
    · exact keeping.start (by cases tapped <;> rfl) fun _ named => absurd named tapped.names_nothing
    · exact keeping.post job new
    · refine keeping.start rfl fun k named => keeping.seen s been k ?_
      have captured : k ∈ (getPostedJobs s).1 := named
      rwa [getPostedJobs_fst] at captured
  · by_cases writing : ∃ key w writes, task = .createJob key (w :: writes)
    · obtain ⟨key, w, writes, rfl⟩ := writing
      exact keeping.write perm
    · exact keeping.others perm fun key w writes same => writing ⟨key, w, writes, same⟩

theorem Keeping.run {es : List (PoolEvent Task)} (keeping : Keeping t₀ p)
    (starts : Along (Clients.step E) StartsAnything p es)
    (ran : Theory.run (Clients.step E) p es = some p') : Keeping t₀ p' :=
  invariant_of_along (fun _ _ _ inv here stepped => inv.step here stepped) es _ _ keeping starts ran

/-- What has begun stays begun. -/
theorem Began.run {es : List (PoolEvent Task)} (began : Began p k writes)
    (ran : Theory.run (Clients.step E) p es = some p') : Began p' k writes := by
  refine invariant_of_run (I := fun p => Began p k writes) (fun p e p' began stepped => ?_) began ran
  rcases Pool.step_cases stepped with ⟨_, rfl, rfl⟩ | ⟨_, _, _, _, _, _, rfl⟩
  · exact began
  · exact began.fired

end Invariant

/-- Ann posts a job, and Eve, who has read the tree after the first of Ann's writes,
applies for it; then Ann's client makes its next write. -/
def annAndEve : List (PoolEvent Task) :=
  [.spawn (.createJob "b" annsJob), .spawn (.applyToJob 0 "u" "eve@x"), .fire 0, .fire 0, .fire 1,
    .fire 0]

/-- Before anything has happened no key has been used. -/
theorem not_used_empty (k : String) : ¬ Used (.idle .empty) k := by
  rintro (present | ⟨_, member, _⟩ | ⟨_, member, _⟩)
  · cases present
  · cases member
  · cases member

theorem annAndEve_starts : Along (step .inserted) StartsAnything (.idle .empty) annAndEve := by
  refine fun p₁ _ => ⟨startsAnything_post ⟨_, _, _, _, rfl⟩ (not_used_empty "b"), fun p₂ _ =>
    ⟨startsAnything_tap _ (.applyToJob ..), along_of_forall fun e member p => ?_⟩⟩
  simp only [List.mem_cons, List.not_mem_nil, or_false] at member
  rcases member with rfl | rfl | rfl | rfl <;> exact startsAnything_fire p _

/-! ## Where the fields of a record come from -/

/-- A record that was not there at the start is of a posting that has begun. -/
theorem Keeping.posted {t₀ : JobTree} {p : State} (keeping : Keeping t₀ p) {k : String}
    (present : k ∈ p.shared) (new : k ∉ t₀) : ∃ writes, Began p k writes ∧
      ∀ f v, p.shared.field k f = some v → JobField.leaves writes f = some v := by
  obtain ⟨writes, began⟩ : ∃ writes, Began p k writes := by
    rcases keeping.sourced k (.inl present) with initially | begun | ⟨writes, job, pending⟩
    · exact absurd initially new
    · exact begun
    · -- a posting that has not begun has nothing in the tree
      obtain ⟨made, draft⟩ := keeping.draft k writes pending
      by_cases none_ : made = []
      · exact absurd present (draft.untouched none_).absent
      · exact ⟨_, draft.began none_⟩
  refine ⟨writes, began, fun f v leaf => ?_⟩
  rcases keeping.origin k f v leaf with initially | ⟨w', began', written⟩
  · cases (JobTree.field_of_not_mem new f).symm.trans initially
  · rw [keeping.once k _ _ began began']
    exact written

/-- **A record is of one posting.**  Let jobs be posted, applied for and removed in any
order.  What stands under a key is what the initial tree had there, or else there is
exactly one posting under the key that has begun, and every field there is as that
posting wrote it: no record ever mixes the fields of two jobs. -/
theorem record_of_one_posting {E : Enumeration} {t₀ : JobTree} {es : List (PoolEvent Task)}
    (starts : Along (step E) StartsAnything (.idle t₀) es) {p : State}
    (ran : run (step E) (.idle t₀) es = some p) {k : String} (present : k ∈ p.shared) :
    (k ∈ t₀ ∧ (∀ f v, p.shared.field k f = some v → t₀.field k f = some v)) ∨
      (k ∉ t₀ ∧ ∃ writes, (Began p k writes ∧ ∀ writes', Began p k writes' → writes' = writes) ∧
        ∀ f v, p.shared.field k f = some v → JobField.leaves writes f = some v) := by
  have keeping := (Keeping.initially t₀).run starts ran
  by_cases old : k ∈ t₀
  · refine .inl ⟨old, fun f v leaf => ?_⟩
    rcases keeping.origin k f v leaf with initially | ⟨writes, began, _⟩
    · exact initially
    · exact absurd began ((keeping.initial k old).2.2 writes)
  · obtain ⟨writes, began, written⟩ := keeping.posted present old
    exact .inr ⟨old, writes, ⟨began, fun w' began' => keeping.once k _ _ began' began⟩, written⟩

/-- Ann's job, half written, with Eve's application. -/
theorem record_of_one_posting_annAndEve :
    ∃ p, run (step .inserted) (.idle .empty) annAndEve = some p ∧ "b" ∈ p.shared ∧
      (("b" ∈ JobTree.empty ∧ ∀ f v, p.shared.field "b" f = some v →
          JobTree.empty.field "b" f = some v) ∨
        ("b" ∉ JobTree.empty ∧ ∃ writes, (Began p "b" writes ∧
            ∀ writes', Began p "b" writes' → writes' = writes) ∧
          ∀ f v, p.shared.field "b" f = some v → JobField.leaves writes f = some v)) := by
  refine ⟨_, rfl, ?_, record_of_one_posting annAndEve_starts rfl ?_⟩ <;> decide +kernel

/-- **A leaf stays as it is.**  Whatever is posted, applied for and removed between two
moments of a run: a field of a record that is there at both has the same text.  In
particular a job never changes hands. -/
theorem leaf_stays {E : Enumeration} {t₀ : JobTree} {es fs : List (PoolEvent Task)}
    (starts : Along (step E) StartsAnything (.idle t₀) (es ++ fs)) {p p' : State}
    (before : run (step E) (.idle t₀) es = some p) (after : run (step E) p fs = some p')
    {k : String} {f : JobField} (there : (p.shared.field k f).isSome)
    (there' : (p'.shared.field k f).isSome) : p'.shared.field k f = p.shared.field k f := by
  obtain ⟨first, second⟩ := starts.of_append
  obtain ⟨v, leaf⟩ := Option.isSome_iff_exists.mp there
  obtain ⟨v', leaf'⟩ := Option.isSome_iff_exists.mp there'
  have keeping := (Keeping.initially t₀).run first before
  have keeping' := keeping.run (second p before) after
  rcases keeping.origin k f v leaf with initially | ⟨writes, began, written⟩
  · have old : k ∈ t₀ := JobTree.mem_of_field initially
    rcases keeping'.origin k f v' leaf' with initially' | ⟨writes', began', _⟩
    · rw [leaf, leaf', ← initially, ← initially']
    · exact absurd began' ((keeping'.initial k old).2.2 writes')
  · have still := began.run after
    rcases keeping'.origin k f v' leaf' with initially' | ⟨writes', began', written'⟩
    · exact absurd still ((keeping'.initial k (JobTree.mem_of_field initially')).2.2 writes)
    · rw [leaf, leaf', ← written, ← written', keeping'.once k _ _ began' still]

/-- The title of Ann's job, before and after Eve's application. -/
theorem leaf_stays_annAndEve :
    ∃ p p', run (step .inserted) (.idle .empty) (annAndEve.take 3) = some p ∧
      run (step .inserted) p (annAndEve.drop 3) = some p' ∧
      p'.shared.field "b" .title = p.shared.field "b" .title :=
  ⟨_, _, rfl, rfl, @leaf_stays .inserted .empty (annAndEve.take 3) (annAndEve.drop 3)
    annAndEve_starts _ _ rfl rfl "b" .title rfl rfl⟩

end JobFinder.Clients
