/-
# Clients.WholeRecords -- records that nobody is writing any more

Wherever jobs are posted, applied for and removed at the same time, a record can be
incomplete for three reasons: its posting is under way, it was removed while its posting
was, or an application arrived for a job that was gone.  The last two leave a record that
stays incomplete for good.  `always_whole_iff` says that nothing else can go wrong, and
when these do; `usable_iff_whole` says what a reader finds at any moment of any run, and
`listings_open_iff` which complete records a searcher can also open.
-/
import JobFinder.Clients.Together
import JobFinder.Controller.Readers

namespace JobFinder.Clients

open JobFinder.Theory JobFinder.Database JobFinder.Model JobFinder.Controller

set_option autoImplicit false

/-- Some write of a posting under the key is still to come. -/
def BeingPosted (p : State) (k : String) : Prop := ∃ w writes, .createJob k (w :: writes) ∈ p.tasks

/-- Every record that is not being posted is complete. -/
def Whole (p : State) : Prop := ∀ k ∈ p.shared, ¬ BeingPosted p k → (p.shared.node k).Complete

/-- An application that reaches the server finds its job there, or still being posted. -/
def FilesUnderPosted (p : State) (e : PoolEvent Task) : Prop :=
  ∀ i hashID uuid email, e = .fire i → p.tasks[i]? = some (.fileApplication hashID uuid email) →
    hashID ∈ p.shared ∨ BeingPosted p hashID

/-- The last write of a posting finds the job's title there. -/
def EndsTitled (p : State) (e : PoolEvent Task) : Prop :=
  ∀ i key w, e = .fire i → p.tasks[i]? = some (.createJob key [w]) →
    (p.shared.field key .title).isSome

/-! Both can be read off the tasks. -/

/-- The task is a posting under the key with a write to come. -/
def Task.posts (k : String) : Task → Bool
  | .createJob key (_ :: _) => decide (key = k)
  | _ => false

theorem beingPosted_iff {p : State} {k : String} : BeingPosted p k ↔ p.tasks.any (Task.posts k) := by
  rw [List.any_eq_true]
  constructor
  · rintro ⟨w, writes, member⟩
    exact ⟨_, member, decide_eq_true rfl⟩
  · rintro ⟨task, member, posts⟩
    unfold Task.posts at posts
    split at posts
    · obtain rfl := of_decide_eq_true posts
      exact ⟨_, _, member⟩
    · cases posts

instance (p : State) (k : String) : Decidable (BeingPosted p k) := decidable_of_iff _ beingPosted_iff.symm

theorem filesUnderPosted_fire {p : State} {i : ℕ} : FilesUnderPosted p (.fire i) ↔
    ∀ task, p.tasks[i]? = some task → ∀ hashID uuid email, task = .fileApplication hashID uuid email →
      hashID ∈ p.shared ∨ BeingPosted p hashID := by
  constructor
  · rintro all task at_ hashID uuid email rfl
    exact all i hashID uuid email rfl at_
  · rintro all j hashID uuid email same at_
    cases same
    exact all _ at_ hashID uuid email rfl

theorem endsTitled_fire {p : State} {i : ℕ} : EndsTitled p (.fire i) ↔
    ∀ task, p.tasks[i]? = some task → ∀ key w, task = .createJob key [w] →
      (p.shared.field key .title).isSome := by
  constructor
  · rintro all task at_ key w rfl
    exact all i key w rfl at_
  · rintro all j key w same at_
    cases same
    exact all _ at_ key w rfl

section Step

variable {E : Enumeration} {t₀ : JobTree} {p p' : State} {e : PoolEvent Task} {k key : String}
  {task : Task} {rest : List Task} {w : JobField × String} {writes : List (JobField × String)}

/-- A callback brings no job into posting, -/
theorem beingPosted_of_fired (perm : p.tasks.Perm (task :: rest))
    (posted : BeingPosted (fired E p task rest) k) : BeingPosted p k := by
  obtain ⟨w, writes, member⟩ := posted
  rcases List.mem_append.mp member with before | issued
  · exact ⟨w, writes, perm.mem_iff.mpr (List.mem_cons_of_mem _ before)⟩
  · obtain ⟨writes', rfl⟩ := exec_posts issued
    cases writes' with
    | nil => cases issued
    | cons w' writes' => exact ⟨w', writes', perm.mem_iff.mpr List.mem_cons_self⟩

/-- and only a write can end a posting. -/
theorem BeingPosted.fired (posted : BeingPosted p k) (perm : p.tasks.Perm (task :: rest))
    (notWriting : ∀ w writes, task ≠ .createJob k (w :: writes)) :
    BeingPosted (Clients.fired E p task rest) k := by
  obtain ⟨w, writes, member⟩ := posted
  exact ⟨w, writes, perm_kept perm member fun same => notWriting w writes same.symm⟩

/-- Once a posting has fired its last write, nothing is being posted there. -/
theorem Keeping.not_beingPosted (keeping : Keeping t₀ p)
    (perm : p.tasks.Perm (.createJob k writes :: rest)) (short : writes.length ≤ 1) :
    ¬ BeingPosted (fired E p (.createJob k writes) rest) k := by
  rintro ⟨w, ws, member⟩
  rcases List.mem_append.mp member with before | issued
  · exact keeping.other_key perm before rfl
  · cases writes with
    | nil => cases issued
    | cons w' writes =>
        cases List.mem_singleton.mp issued
        simp at short

/-- A write keeps every record whole that it is not the last to be made to. -/
theorem Whole.write (whole : Whole p)
    (perm : p.tasks.Perm (.createJob key (w :: writes) :: rest))
    (here : ¬ BeingPosted (fired E p (.createJob key (w :: writes)) rest) key →
      ((fired E p (.createJob key (w :: writes)) rest).shared.node key).Complete) :
    Whole (fired E p (.createJob key (w :: writes)) rest) := by
  intro k present settled
  by_cases same : k = key
  · subst same
    exact here settled
  · have before := whole k ((JobTree.mem_setField.mp present).resolve_left same) fun posted =>
      settled (posted.fired perm fun w' ws equal => same (by cases equal; rfl))
    intro f
    show ((p.shared.setField key w.1 w.2).field k f).isSome
    rw [JobTree.field_setField, if_neg fun both => same both.1]
    exact before f

/-- A posting with one write to come has made others. -/
theorem Draft.begun {made : List (JobField × String)} (draft : Draft p key made [w]) : made ≠ [] := by
  rintro rfl
  cases draft.job.length

/-- A record that still has its title when the last write is made to it has all that its
posting wrote. -/
theorem Draft.last {made : List (JobField × String)} {f : JobField} {v : String}
    (draft : Draft p key made [(f, v)]) (titled : (p.shared.field key .title).isSome) (f' : JobField) :
    (p.shared.setField key f v).field key f' = JobField.leaves (made ++ [(f, v)]) f' := by
  rw [JobTree.field_setField, JobField.leaves_concat, draft.untorn titled f']
  simp only [true_and]

/-- The last write of a posting leaves its record whole exactly if the title is there. -/
theorem whole_last_iff (whole : Whole p) (keeping : Keeping t₀ p)
    (perm : p.tasks.Perm (.createJob key [w] :: rest)) :
    Whole (fired E p (.createJob key [w]) rest) ↔ (p.shared.field key .title).isSome := by
  obtain ⟨made, draft⟩ := keeping.draft key [w] (perm.mem_iff.mpr List.mem_cons_self)
  obtain ⟨f, v⟩ := w
  have settled := keeping.not_beingPosted (E := E) perm (le_refl 1)
  have later : JobField.title ≠ f := fun same => draft.begun (draft.job.title_iff.mp same.symm)
  have title : (fired E p (.createJob key [(f, v)]) rest).shared.field key .title =
      p.shared.field key .title := by
    simp only [fired, Task.exec, JobTree.field_setField, later, and_false, if_false]
  constructor
  · intro whole'
    rw [← title]
    exact whole' key (JobTree.mem_setField.mpr (.inl rfl)) settled .title
  · intro titled
    refine whole.write perm fun _ f' => ?_
    show ((fired E p (.createJob key [(f, v)]) rest).shared.field key f').isSome
    have leaf := draft.last titled f'
    simp only [fired, Task.exec]
    rw [leaf, JobField.leaves_isSome, draft.job.fields]
    exact f'.mem_published

/-- The write of an application keeps every record whole exactly if it finds its job, or
the job is still being posted. -/
theorem whole_file_iff {uuid email : String} (whole : Whole p)
    (perm : p.tasks.Perm (.fileApplication key uuid email :: rest)) :
    Whole (fired E p (.fileApplication key uuid email) rest) ↔
      key ∈ p.shared ∨ BeingPosted p key := by
  constructor
  · intro whole'
    by_contra gone
    push Not at gone
    have bare := whole' key (JobTree.mem_addApplicant.mpr (.inl rfl))
      (fun posted => gone.2 (beingPosted_of_fired perm posted)) .title
    have field : (fired E p (.fileApplication key uuid email) rest).shared.field key .title =
        p.shared.field key .title := JobTree.field_addApplicant ..
    rw [JobTree.field_of_not_mem gone.1] at field
    exact absurd bare (by simpa [JobTree.field] using field)
  · intro found k present settled f
    have settled' : ¬ BeingPosted p k := fun posted =>
      settled (posted.fired perm fun w ws equal => by cases equal)
    have before : k ∈ p.shared := by
      rcases JobTree.mem_addApplicant.mp present with rfl | before
      · exact found.resolve_right settled'
      · exact before
    show ((p.shared.addApplicant key uuid email).field k f).isSome
    rw [JobTree.field_addApplicant]
    exact whole k before settled' f

/-- A callback that writes nothing leaves a record as it is, or takes it away. -/
theorem field_exec_of_mem {t : JobTree} (notWriting : ∀ key w writes, task ≠ .createJob key (w :: writes))
    (notFiling : ∀ key uuid email, task ≠ .fileApplication key uuid email)
    (present : k ∈ (task.exec E t).1) :
    k ∈ t ∧ ∀ f, (task.exec E t).1.field k f = t.field k f := by
  cases task with
  | createJob key writes =>
      cases writes with
      | nil => exact ⟨present, fun f => rfl⟩
      | cons w writes => exact absurd rfl (notWriting key w writes)
  | applyToJob jobID uuid email =>
      have same : ((Task.applyToJob jobID uuid email).exec E t).1 = t := by
        simp only [Task.exec]
        split <;> rfl
      rw [same] at present ⊢
      exact ⟨present, fun f => rfl⟩
  | fileApplication hashID uuid email => exact absurd rfl (notFiling hashID uuid email)
  | removeJob jobIndex => exact ⟨present, fun f => rfl⟩
  | removeJobAt key =>
      obtain ⟨other, before⟩ := JobTree.mem_removeJob.mp present
      exact ⟨before, fun f => by simp [Task.exec, other]⟩
  | removeApplication email jobTitle => exact ⟨present, fun f => rfl⟩
  | removeApplicationIn email jobTitle jobs => exact ⟨present, fun f => rfl⟩
  | removeApplicantAt job applicant =>
      exact ⟨JobTree.mem_of_mem_removeApplicant present, fun f => JobTree.field_removeApplicant ..⟩
  | declineApplicant applicants tag => exact ⟨present, fun f => rfl⟩

theorem Whole.others (whole : Whole p) (perm : p.tasks.Perm (task :: rest))
    (notWriting : ∀ key w writes, task ≠ .createJob key (w :: writes))
    (notFiling : ∀ key uuid email, task ≠ .fileApplication key uuid email) :
    Whole (fired E p task rest) := by
  intro k present settled f
  obtain ⟨before, same⟩ := field_exec_of_mem notWriting notFiling present
  have settled' : ¬ BeingPosted p k := fun posted =>
    settled (posted.fired perm (notWriting k))
  show ((task.exec E p.shared).1.field k f).isSome
  rw [same]
  exact whole k before settled' f

/-- **One step, exactly.** -/
theorem whole_step_iff (keeping : Keeping t₀ p) (whole : Whole p) (starts : StartsAnything p e)
    (stepped : step E p e = some p') : Whole p' ↔ FilesUnderPosted p e ∧ EndsTitled p e := by
  rcases Pool.step_cases stepped with ⟨task, rfl, rfl⟩ | ⟨i, task, rest, rfl, at_, perm, rfl⟩
  · refine iff_of_true (fun k present settled => whole k present fun ⟨w, ws, member⟩ =>
      settled ⟨w, ws, List.mem_append_left _ member⟩) ⟨?_, ?_⟩
    · intro i hashID uuid email same
      cases same
    · intro i key w same
      cases same
  have files : FilesUnderPosted p (.fire i) ↔ ∀ hashID uuid email,
      task = .fileApplication hashID uuid email → hashID ∈ p.shared ∨ BeingPosted p hashID := by
    rw [filesUnderPosted_fire, at_]
    simp
  have ends : EndsTitled p (.fire i) ↔ ∀ key w, task = .createJob key [w] →
      (p.shared.field key .title).isSome := by
    rw [endsTitled_fire, at_]
    simp
  rw [files, ends]
  by_cases writing : ∃ key w writes, task = .createJob key (w :: writes)
  · obtain ⟨key, w, writes, rfl⟩ := writing
    cases writes with
    | nil =>
        refine (whole_last_iff whole keeping perm).trans ⟨fun titled => ⟨?_, ?_⟩, fun both => ?_⟩
        · intro hashID uuid email same
          cases same
        · intro key' w' same
          cases same
          exact titled
        · exact both.2 key w rfl
    | cons w' writes =>
        refine iff_of_true (whole.write perm fun settled => absurd ?_ settled) ⟨?_, ?_⟩
        · exact ⟨w', writes, List.mem_append_right _ (List.mem_singleton_self _)⟩
        · intro hashID uuid email same
          cases same
        · intro key' w'' same
          cases same
  · have notWriting : ∀ key w writes, task ≠ .createJob key (w :: writes) :=
      fun key w writes same => writing ⟨key, w, writes, same⟩
    have noEnd : ∀ key w, task = .createJob key [w] → (p.shared.field key .title).isSome :=
      fun key w same => absurd same (notWriting key w [])
    by_cases filing : ∃ key uuid email, task = .fileApplication key uuid email
    · obtain ⟨key, uuid, email, rfl⟩ := filing
      refine (whole_file_iff whole perm).trans ⟨fun found => ⟨?_, noEnd⟩, fun both => ?_⟩
      · intro hashID uuid' email' same
        cases same
        exact found
      · exact both.1 key uuid email rfl
    · have notFiling : ∀ key uuid email, task ≠ .fileApplication key uuid email :=
        fun key uuid email same => filing ⟨key, uuid, email, same⟩
      refine iff_of_true (whole.others perm notWriting notFiling) ⟨?_, noEnd⟩
      exact fun hashID uuid email same => absurd same (notFiling hashID uuid email)

end Step

/-- **When the records stay whole.**  Let any number of clients post, apply for, decline
and remove jobs, starting from complete records.  A client that has stopped with writes to
come counts as still posting.  Every record that nobody is posting any more is complete
throughout the run if and only if every application that reaches the server finds its job
there or still being posted, and the last write of every posting finds the title of its job
there. -/
theorem always_whole_iff {E : Enumeration} {t : JobTree} (complete : t.Complete)
    {es : List (PoolEvent Task)} (starts : Along (step E) StartsAnything (.idle t) es) :
    Always (step E) Whole (.idle t) es ↔
      Along (step E) (fun p e => FilesUnderPosted p e ∧ EndsTitled p e) (.idle t) es :=
  always_iff_along (I := Keeping t) (fun _ _ _ keeping starts stepped => keeping.step starts stepped)
    (fun _ _ _ keeping starts whole stepped => whole_step_iff keeping whole starts stepped)
    es _ (.initially t) (fun _ present _ => complete.record present) starts

/-- Eve applies for Ann's job while it is being posted. -/
theorem always_whole_iff_annAndEve :
    Always (step .inserted) Whole (.idle .empty) annAndEve ↔
      Along (step .inserted) (fun p e => FilesUnderPosted p e ∧ EndsTitled p e) (.idle .empty)
        annAndEve :=
  always_whole_iff JobTree.complete_empty annAndEve_starts

-- Bob removes Ann's job after its first write, and her client goes on: the record that
-- stays has no title
example : ∃ p, run (step .inserted) (.idle .empty) [.spawn (.createJob "b" annsJob), .fire 0,
      .spawn (.removeJob 0), .fire 1, .fire 1, .fire 0, .fire 0, .fire 0, .fire 0, .fire 0,
      .fire 0] = some p ∧
    p.shared.field "b" .title = none ∧ p.shared.field "b" .jobPoster = some "ann@x" :=
  ⟨_, rfl, rfl, rfl⟩

/-- **What a searcher may open.**  At any moment of any such run from the empty tree, if
every record is complete, every row of the list of new jobs can be opened if and only if
every job that stands in the tree was posted with numerals for its coordinates, that the
map of the device takes where the listing zooms to them. -/
theorem listings_open_iff {E : Enumeration} {es : List (PoolEvent Task)}
    (starts : Along (step E) StartsAnything (.idle .empty) es) {p : State}
    (ran : run (step E) (.idle .empty) es = some p) (complete : p.shared.Complete)
    (manager : LocationManager) :
    (∀ row < (Explore.listed E p.shared).count,
        JobListing.Opens E manager (Explore.listed E p.shared) row) ↔
      ∀ k ∈ p.shared, ∀ writes, Began p k writes →
        JobListing.LoadableCoordinates manager (JobField.leaves writes) := by
  have keeping := (Keeping.initially .empty).run starts ran
  have new (k : String) : k ∉ JobTree.empty := fun present => by cases present
  -- a field of a complete record is as its posting wrote it
  have posted {k writes} (present : k ∈ p.shared) (began : Began p k writes) :
      p.shared.field k = JobField.leaves writes := by
    obtain ⟨writes', began', written⟩ := keeping.posted present (new k)
    obtain rfl := keeping.once k _ _ began began'
    funext f
    obtain ⟨v, leaf⟩ := complete.field present f
    rw [leaf, written f v leaf]
  rw [JobListing.listed_open_iff manager complete]
  constructor
  · intro numeric k present writes began
    exact posted present began ▸ numeric k present
  · intro numeric k present
    obtain ⟨writes, began, _⟩ := keeping.posted present (new k)
    exact posted present began ▸ numeric k present writes began

/-- Ann posts a job. -/
def annsPosting : List (PoolEvent Task) :=
  .spawn (.createJob "b" annsJob) :: List.replicate 7 (.fire 0)

theorem annsPosting_starts : Along (step .inserted) StartsAnything (.idle .empty) annsPosting := by
  refine fun p₁ _ => ⟨startsAnything_post ⟨_, _, _, _, rfl⟩ (not_used_empty "b"), ?_⟩
  refine along_of_forall fun e member p => ?_
  rw [List.eq_of_mem_replicate member]
  exact startsAnything_fire p 0

theorem listings_open_iff_ann :
    ∃ p, run (step .inserted) (.idle .empty) annsPosting = some p ∧ "b" ∈ p.shared ∧
      ((∀ row < (Explore.listed .inserted p.shared).count,
          JobListing.Opens .inserted .sample (Explore.listed .inserted p.shared) row) ↔
        ∀ k ∈ p.shared, ∀ writes, Began p k writes →
          JobListing.LoadableCoordinates .sample (JobField.leaves writes)) := by
  refine ⟨_, rfl, by decide +kernel, listings_open_iff annsPosting_starts rfl (fun k present => ?_) _⟩
  have listed : k ∈ ["b"] := (JobTree.mem_keys (E := .inserted)).mpr present
  obtain rfl := List.mem_singleton.mp listed
  intro f
  cases f <;> rfl

/-- Ann's and Bob's clients take turns at posting a job each, and Eve applies for Ann's while
it is being posted; then Dan applies for Bob's, and Ann removes hers. -/
def annBobAndEve : List (PoolEvent Task) :=
  .spawn (.createJob "b" annsJob) ::
    .spawn (.createJob "a" (CreateJob.jobWrites "57.71" "11.97" .sample "bob@x")) ::
    .spawn (.applyToJob 0 "u" "eve@x") :: List.replicate 18 (.fire 0) ++
      [.spawn (.applyToJob 1 "v" "dan@x"), .fire 0, .fire 0, .spawn (.removeJob 0), .fire 0, .fire 0]

theorem annBobAndEve_starts :
    Along (step .inserted) StartsAnything (.idle .empty) annBobAndEve := by
  refine fun p₁ started => ⟨startsAnything_post ⟨_, _, _, _, rfl⟩ (not_used_empty "b"), ?_⟩
  cases started
  refine fun p₂ _ => ⟨startsAnything_post ⟨_, _, _, _, rfl⟩ ?_, fun p₃ _ =>
    ⟨startsAnything_tap _ (.applyToJob ..), along_of_forall fun e member p => ?_⟩⟩
  · rintro (present | ⟨task, pending, named⟩ | ⟨_, done, _⟩)
    · cases present
    · cases List.mem_singleton.mp pending
      exact absurd (show "a" = "b" from named) (by decide)
    · cases done
  · rcases List.mem_append.mp member with fired | last
    · rw [List.eq_of_mem_replicate fired]
      exact startsAnything_fire p 0
    · simp only [List.mem_cons, List.not_mem_nil, or_false] at last
      rcases last with rfl | rfl | rfl | rfl | rfl | rfl
      · exact startsAnything_tap p (.applyToJob ..)
      · exact startsAnything_fire p 0
      · exact startsAnything_fire p 0
      · exact startsAnything_tap p (.removeJob 0)
      · exact startsAnything_fire p 0
      · exact startsAnything_fire p 0

end JobFinder.Clients
