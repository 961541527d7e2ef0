/-
# Controller.PostedRecord -- when a tap on Post Job posts exactly one job

If nobody edits the form, a run of `CreateJob` is decided by the form, by the object
the geocoder answers, and by the profiles among which the user is looked up.  It should
post one job if all four fields are filled in, the answer has coordinates, these are
not the ones for a place that was not found, and the user has a profile; and otherwise
it should do nothing.

The code goes wrong in several places.  The coordinates are cast before anything is
checked; a latitude counts as not found when it contains `.000` anywhere; the lookup
indexes an empty list of users, and calls back once for each profile with the email.
`postsRightly_iff` is exact: the run does what it should if and only if the input is
`Regular`.
-/
import JobFinder.Controller.CreateJob

namespace JobFinder.Controller.CreateJob

open JobFinder.Theory JobFinder.Database JobFinder.Model

set_option autoImplicit false

/-! ## Writing the jobs -/

/-- The tree after the writes of a job under its key. -/
def writeJob (t : JobTree) (key : String) (writes : List (JobField × String)) : JobTree :=
  writes.foldl (fun t w => t.setField key w.1 w.2) t

/-- The tree after the jobs that a run publishes, each under the next key that `UUID()`
gives. -/
def postJobs (uuid : ℕ → String) (t : JobTree) : List (List (JobField × String)) → JobTree
  | [] => t
  | writes :: jobs => postJobs (fun n => uuid (n + 1)) (writeJob t (uuid 0) writes) jobs

/-- The keys are new, and no two are the same. -/
structure Fresh (uuid : ℕ → String) (t : JobTree) : Prop where
  distinct : Function.Injective uuid
  unused : ∀ n, uuid n ∉ t

/-- The tree has one more record than before, with the given texts and no applications,
and is otherwise the same. -/
def AddsJob (t : JobTree) (texts : JobField → String) (t' : JobTree) : Prop :=
  ∃ key, key ∉ t ∧
    (∀ k f, t'.field k f = if k = key then some (texts f) else t.field k f) ∧
    ∀ k a, t'.applicant k a = t.applicant k a

/-- The texts of the record for a form, its coordinates and a user. -/
def jobTexts (latitude longitude : String) (form : JobForm) (email : String) : JobField → String
  | .title => form.jobTitleTxt
  | .latt => latitude
  | .longt => longitude
  | .literal => form.jobLocationTxt
  | .salary => form.jobSalaryTxt
  | .description => form.jobDescriptionTxt
  | .jobPoster => email

section Writes

variable {t t' : JobTree} {key k : String} {writes : List (JobField × String)} {f : JobField}
  {texts : JobField → String}

theorem field_writeJob : (writeJob t key writes).field k f =
    if k = key then (JobField.leaves writes f).or (t.field k f) else t.field k f := by
  induction writes using List.reverseRecOn with
  | nil => simp [writeJob]
  | append_singleton writes w ih =>
      have step : writeJob t key (writes ++ [w]) = (writeJob t key writes).setField key w.1 w.2 := by
        simp [writeJob]
      rw [step, JobTree.field_setField, ih, JobField.leaves_concat]
      by_cases here : k = key
      · by_cases same : f = w.1 <;> simp [here, same]
      · simp [here]

theorem applicant_writeJob (a : String) :
    (writeJob t key writes).applicant k a = t.applicant k a := by
  induction writes generalizing t with
  | nil => rfl
  | cons w writes ih => exact ih.trans (JobTree.applicant_setField ..)

theorem leaves_jobWrites (latitude longitude : String) (form : JobForm) (email : String) :
    JobField.leaves (jobWrites latitude longitude form email) f =
      some (jobTexts latitude longitude form email f) := by
  cases f <;> rfl

/-- One job written under a new key is one more record. -/
theorem addsJob_writeJob {latitude longitude email : String} {form : JobForm} (unused : key ∉ t) :
    AddsJob t (jobTexts latitude longitude form email)
      (writeJob t key (jobWrites latitude longitude form email)) := by
  refine ⟨key, unused, fun k f => ?_, fun k a => applicant_writeJob a⟩
  rw [field_writeJob, leaves_jobWrites]
  rfl

/-- A written job has all its fields. -/
theorem isSome_writeJob {latitude longitude email : String} {form : JobForm} :
    ((writeJob t key (jobWrites latitude longitude form email)).field key f).isSome := by
  rw [field_writeJob, if_pos rfl, leaves_jobWrites]
  rfl

/-- No write takes a field away. -/
theorem isSome_postJobs (jobs : List (List (JobField × String))) (uuid : ℕ → String)
    (stored : (t.field k f).isSome) : ((postJobs uuid t jobs).field k f).isSome := by
  induction jobs generalizing t uuid with
  | nil => exact stored
  | cons writes jobs ih =>
      refine ih _ ?_
      rw [field_writeJob]
      split_ifs
      · cases JobField.leaves writes f <;> simp [stored]
      · exact stored

/-- What a tree gains is under one new key. -/
theorem AddsJob.eq_key (adds : AddsJob t texts t') {k k' : String} (absent : k ∉ t) (absent' : k' ∉ t)
    (stored : (t'.field k f).isSome) (stored' : (t'.field k' f).isSome) : k = k' := by
  obtain ⟨key, _, fields, _⟩ := adds
  have only {j : String} (absent : j ∉ t) (stored : (t'.field j f).isSome) : j = key := by
    by_contra other
    rw [fields, if_neg other, JobTree.field_of_not_mem absent] at stored
    cases stored
  rw [only absent stored, only absent' stored']

theorem not_addsJob_self : ¬ AddsJob t texts t := by
  rintro ⟨key, absent, fields, _⟩
  have stored := fields key .title
  rw [JobTree.field_of_not_mem absent, if_pos rfl] at stored
  cases stored

/-- Two jobs are not one. -/
theorem not_addsJob_two {uuid : ℕ → String} (fresh : Fresh uuid t)
    {latitude longitude email : String} {form : JobForm} {jobs : List (List (JobField × String))} :
    ¬ AddsJob t texts (postJobs uuid t (jobWrites latitude longitude form email ::
      jobWrites latitude longitude form email :: jobs)) := by
  intro adds
  have first : ((postJobs uuid t (jobWrites latitude longitude form email ::
      jobWrites latitude longitude form email :: jobs)).field (uuid 0) .title).isSome :=
    isSome_postJobs (_ :: jobs) (fun n => uuid (n + 1)) isSome_writeJob
  have second : ((postJobs uuid t (jobWrites latitude longitude form email ::
      jobWrites latitude longitude form email :: jobs)).field (uuid 1) .title).isSome :=
    isSome_postJobs jobs (fun n => uuid (n + 2)) isSome_writeJob
  exact absurd (fresh.distinct (adds.eq_key (fresh.unused 0) (fresh.unused 1) first second)) (by decide)

end Writes

/-! ## What a run should do -/

/-- The latitude that the geocoder reports for a place it has not found. -/
def notFound : String := "0.00000"

/-- A job should be posted. -/
def ShouldPost (form : JobForm) (latt longt : Option String) (me : String) (users : UserTree) : Prop :=
  form.Filled ∧ (∃ latitude longitude, latt = some latitude ∧ longt = some longitude ∧
    latitude ≠ notFound) ∧ users.HasEmail me

/-- A run that is over has posted exactly one job, with the texts of the form, the
coordinates of the answer and the user's email, if and only if it should; otherwise it
has left the tree as it was, and has not trapped. -/
def PostsRightly (uuid : ℕ → String) (t : JobTree) (form : JobForm) (latt longt : Option String)
    (me : String) (users : UserTree) (s : CreateJob) : Prop :=
  (ShouldPost form latt longt me users ↔ ∃ latitude longitude, latt = some latitude ∧
    longt = some longitude ∧
    AddsJob t (jobTexts latitude longitude form me) (postJobs uuid t s.published)) ∧
  (¬ ShouldPost form latt longt me users →
    t.SameLeaves (postJobs uuid t s.published) ∧ s.phase = .finished)

/-- The location makes a URL, and the answer has coordinates.  If the form is filled in,
a latitude containing `.000` is the one for a place not found, or the user has no
profile; and with any other latitude there are profiles, and at most one of them has
the user's email. -/
def Regular (web : Web) (form : JobForm) (latt longt : Option String) (me : String)
    (users : UserTree) : Prop :=
  web.isURL (url form.jobLocationTxt) = true ∧ longt.isSome ∧ ∃ latitude, latt = some latitude ∧
    (form.Filled →
      (imprecise latitude = true → latitude = notFound ∨ ¬ users.HasEmail me) ∧
      (imprecise latitude = false → users ≠ ∅ ∧ (users.HasEmail me → users.HasEmailOnce me)))

/-- The user does not edit the form, and is looked up among these profiles. -/
def Event.Unedited (users : UserTree) : Event → Prop
  | .edit _ => False
  | .answer => True
  | .main => True
  | .deliver users' => users' = users

/-- Nothing more happens. -/
def Phase.Ended : Phase → Prop
  | .finished => True
  | .trapped _ => True
  | _ => False

/-- How many events a run can still go through. -/
def Phase.rank : Phase → ℕ
  | .requested _ => 3
  | .answered .. => 2
  | .lookingUp .. => 1
  | .finished => 0
  | .trapped _ => 0

theorem rank_handleAnswer (response : Response) : (handleAnswer response).rank ≤ 2 := by
  unfold handleAnswer
  split <;> simp [Phase.rank]

theorem rank_handleOnMain (form : JobForm) (latitude longitude : String) :
    (handleOnMain form latitude longitude).rank ≤ 1 := by
  unfold handleOnMain
  split_ifs <;> simp [Phase.rank]

/-! ## Runs without edits -/

/-- The places a run without edits can be in, and why it is there. -/
inductive Stage (web : Web) (E : Enumeration) (me : String) (form : JobForm)
    (latt longt : Option String) (users : UserTree) : CreateJob → Prop where
  /-- The location made no URL. -/
  | noURL (bad : web.isURL (url form.jobLocationTxt) = false) :
      Stage web E me form latt longt users ⟨form, .trapped .unwrappedNil, []⟩
  | requested (ok : web.isURL (url form.jobLocationTxt) = true) :
      Stage web E me form latt longt users ⟨form, .requested (url form.jobLocationTxt), []⟩
  /-- The answer has no coordinates. -/
  | uncast (missing : latt = none ∨ longt = none) :
      Stage web E me form latt longt users ⟨form, .trapped .forcedCast, []⟩
  | answered {latitude longitude : String} (ok : web.isURL (url form.jobLocationTxt) = true)
      (at_latt : latt = some latitude) (at_longt : longt = some longitude) :
      Stage web E me form latt longt users ⟨form, .answered latitude longitude, []⟩
  /-- The form is not filled in, or the latitude is taken for one not found. -/
  | refused {latitude longitude : String} (ok : web.isURL (url form.jobLocationTxt) = true)
      (at_latt : latt = some latitude) (at_longt : longt = some longitude)
      (why : form.Filled → imprecise latitude = true) :
      Stage web E me form latt longt users ⟨form, .finished, []⟩
  | lookingUp {latitude longitude : String} (ok : web.isURL (url form.jobLocationTxt) = true)
      (at_latt : latt = some latitude) (at_longt : longt = some longitude)
      (filled : form.Filled) (precise : imprecise latitude = false) :
      Stage web E me form latt longt users ⟨form, .lookingUp latitude longitude, []⟩
  /-- There is no profile at all. -/
  | noUsers {latitude : String} {trap : Trap} (at_latt : latt = some latitude)
      (filled : form.Filled) (precise : imprecise latitude = false) (none_ : users = ∅) :
      Stage web E me form latt longt users ⟨form, .trapped trap, []⟩
  | lookedUp {latitude longitude : String} (ok : web.isURL (url form.jobLocationTxt) = true)
      (at_latt : latt = some latitude) (at_longt : longt = some longitude)
      (filled : form.Filled) (precise : imprecise latitude = false) (some_ : users ≠ ∅) :
      Stage web E me form latt longt users
        ⟨form, .finished, handleUsers E me users form latitude longitude⟩

section Stages

variable {web : Web} {E : Enumeration} {me : String} {form : JobForm} {latt longt : Option String}
  {users : UserTree} {s s' : CreateJob} {e : Event} {es : List Event}

theorem stage_tapped : Stage web E me form latt longt users (tapped web form) := by
  unfold tapped createJob
  cases ok : web.isURL (url form.jobLocationTxt) with
  | false => exact .noURL ok
  | true => exact .requested ok

theorem stage_answer (ok : web.isURL (url form.jobLocationTxt) = true) :
    Stage web E me form latt longt users ⟨form, handleAnswer (.object latt longt), []⟩ := by
  cases at_latt : latt with
  | none => exact .uncast (.inl rfl)
  | some latitude =>
      cases at_longt : longt with
      | none => exact .uncast (.inr rfl)
      | some longitude => exact .answered ok rfl rfl

theorem stage_main {latitude longitude : String} (ok : web.isURL (url form.jobLocationTxt) = true)
    (at_latt : latt = some latitude) (at_longt : longt = some longitude) :
    Stage web E me form latt longt users ⟨form, handleOnMain form latitude longitude, []⟩ := by
  unfold handleOnMain
  split_ifs with filled precise
  · exact .lookingUp ok at_latt at_longt filled (by simpa using precise)
  · exact .refused ok at_latt at_longt fun _ => by simpa using precise
  · exact .refused ok at_latt at_longt fun filled' => absurd filled' filled

theorem stage_deliver {latitude longitude : String} (ok : web.isURL (url form.jobLocationTxt) = true)
    (at_latt : latt = some latitude) (at_longt : longt = some longitude) (filled : form.Filled)
    (precise : imprecise latitude = false) :
    Stage web E me form latt longt users
      ⟨form, ((findUser E me users).trap.map .trapped).getD .finished,
        [] ++ handleUsers E me users form latitude longitude⟩ := by
  rw [List.nil_append]
  by_cases some_ : users = ∅
  · subst some_
    have published : handleUsers E me ∅ form latitude longitude = [] := by
      rw [handleUsers_eq, E.order_eq_nil.mpr rfl]
      rfl
    rw [published]
    cases trapped : (findUser E me ∅).trap with
    | none => exact absurd rfl ((trap_findUser E me ∅).mp trapped)
    | some trap => exact .noUsers at_latt filled precise rfl
  · rw [(trap_findUser E me users).mpr some_]
    exact .lookedUp ok at_latt at_longt filled precise some_

theorem Stage.step (answered : web.answer (url form.jobLocationTxt) = .object latt longt)
    (stage : Stage web E me form latt longt users s) (unedited : e.Unedited users)
    (stepped : CreateJob.step web E me s e = some s') :
    Stage web E me form latt longt users s' := by
  cases e with
  | edit form' => exact unedited.elim
  | answer =>
      cases stage with
      | requested ok =>
          cases stepped
          rw [answered]
          exact stage_answer ok
      | _ => cases stepped
  | main =>
      cases stage with
      | answered ok at_latt at_longt =>
          cases stepped
          exact stage_main ok at_latt at_longt
      | _ => cases stepped
  | deliver users' =>
      obtain rfl : users' = users := unedited
      cases stage with
      | lookingUp ok at_latt at_longt filled precise =>
          cases stepped
          exact stage_deliver ok at_latt at_longt filled precise
      | _ => cases stepped

theorem stage_run (answered : web.answer (url form.jobLocationTxt) = .object latt longt)
    (unedited : ∀ e ∈ es, e.Unedited users)
    (ran : run (CreateJob.step web E me) (tapped web form) es = some s) :
    Stage web E me form latt longt users s :=
  invariant_of_along (C := fun _ e => e.Unedited users)
    (fun _ _ _ stage here stepped => stage.step answered here stepped)
    es _ _ stage_tapped (along_of_forall fun e member _ => unedited e member) ran

/-- A run that is not over has a next event, which brings it nearer to its end. -/
theorem progress (web : Web) (E : Enumeration) (me : String) (users : UserTree)
    (pending : ¬ s.phase.Ended) :
    ∃ e s', e.Unedited users ∧ CreateJob.step web E me s e = some s' ∧
      s'.phase.rank < s.phase.rank := by
  obtain ⟨form, phase, published⟩ := s
  cases phase with
  | requested u => exact ⟨.answer, _, trivial, rfl, Nat.lt_succ_of_le (rank_handleAnswer _)⟩
  | answered latitude longitude =>
      exact ⟨.main, _, trivial, rfl, Nat.lt_succ_of_le (rank_handleOnMain form latitude longitude)⟩
  | lookingUp latitude longitude =>
      refine ⟨.deliver users, _, rfl, rfl, ?_⟩
      cases (findUser E me users).trap <;> exact Nat.one_pos
  | finished => exact absurd trivial pending
  | trapped trap => exact absurd trivial pending

/-- Every run can go on, without edits, until it is over. -/
theorem exists_ended (web : Web) (E : Enumeration) (me : String) (users : UserTree) (s : CreateJob) :
    ∃ more s', (∀ e ∈ more, e.Unedited users) ∧
      run (CreateJob.step web E me) s more = some s' ∧ s'.phase.Ended := by
  induction left : s.phase.rank using Nat.strong_induction_on generalizing s with
  | _ n ih =>
      by_cases ended : s.phase.Ended
      · exact ⟨[], s, fun e none_ => absurd none_ List.not_mem_nil, rfl, ended⟩
      · obtain ⟨e, s₁, unedited, stepped, nearer⟩ := progress web E me users ended
        obtain ⟨more, s', unedited', ran, ended'⟩ := ih _ (left ▸ nearer) s₁ rfl
        refine ⟨e :: more, s', fun e' member => ?_, run_cons_some.mpr ⟨s₁, stepped, ran⟩, ended'⟩
        rcases List.mem_cons.mp member with rfl | later
        · exact unedited
        · exact unedited' e' later

end Stages

/-! ## Which runs do what they should -/

section Outcome

variable {web : Web} {E : Enumeration} {me : String} {form : JobForm} {latt longt : Option String}
  {users : UserTree} {s : CreateJob} {uuid : ℕ → String} {t : JobTree}

/-- A run that has trapped without posting anything is wrong either way. -/
theorem not_postsRightly_trapped {trap : Trap} :
    ¬ PostsRightly uuid t form latt longt me users ⟨form, .trapped trap, []⟩ := by
  rintro ⟨posts, leaves⟩
  by_cases should : ShouldPost form latt longt me users
  · obtain ⟨_, _, _, _, adds⟩ := posts.mp should
    exact not_addsJob_self adds
  · cases (leaves should).2

/-- A run that ends without posting anything is right if nothing should be posted. -/
theorem postsRightly_nothing :
    PostsRightly uuid t form latt longt me users ⟨form, .finished, []⟩ ↔
      ¬ ShouldPost form latt longt me users := by
  constructor
  · rintro ⟨posts, _⟩ should
    obtain ⟨_, _, _, _, adds⟩ := posts.mp should
    exact not_addsJob_self adds
  · intro shouldNot
    refine ⟨⟨fun should => absurd should shouldNot, ?_⟩,
      fun _ => ⟨⟨fun _ _ => rfl, fun _ _ => rfl⟩, rfl⟩⟩
    rintro ⟨_, _, _, _, adds⟩
    exact absurd adds not_addsJob_self

theorem imprecise_notFound : imprecise notFound = true := by decide

variable {latitude longitude : String}

/-- The handler calls of a lookup post one job exactly if one profile has the email. -/
theorem addsJob_handleUsers (fresh : Fresh uuid t) (found : users.HasEmail me) :
    AddsJob t (jobTexts latitude longitude form me)
        (postJobs uuid t (handleUsers E me users form latitude longitude)) ↔
      users.HasEmailOnce me := by
  rw [handleUsers_eq, ← UserTree.filter_email_singleton E]
  cases listed : (E.order users).filter fun user => user.2.email = me with
  | nil => exact absurd found ((UserTree.filter_email_eq_nil E).mp listed)
  | cons user rest =>
      cases rest with
      | nil =>
          have one : AddsJob t (jobTexts latitude longitude form me)
              (writeJob t (uuid 0) (jobWrites latitude longitude form me)) :=
            addsJob_writeJob (fresh.unused 0)
          exact iff_of_true one ⟨user, rfl⟩
      | cons user' rest =>
          rw [List.map_cons, List.map_cons]
          refine iff_of_false (not_addsJob_two fresh) ?_
          rintro ⟨_, only⟩
          cases only

/-- A lookup among some profiles does what it should exactly if at most one of them has
the user's email. -/
theorem postsRightly_lookedUp (fresh : Fresh uuid t) (filled : form.Filled)
    (precise : imprecise latitude = false) :
    PostsRightly uuid t form (some latitude) (some longitude) me users
        ⟨form, .finished, handleUsers E me users form latitude longitude⟩ ↔
      (users.HasEmail me → users.HasEmailOnce me) := by
  have known : latitude ≠ notFound := by
    rintro rfl
    rw [imprecise_notFound] at precise
    cases precise
  by_cases found : users.HasEmail me
  · have should : ShouldPost form (some latitude) (some longitude) me users :=
      ⟨filled, ⟨latitude, longitude, rfl, rfl, known⟩, found⟩
    rw [← addsJob_handleUsers (E := E) fresh found]
    constructor
    · rintro ⟨posts, _⟩ _
      obtain ⟨_, _, same, same', adds⟩ := posts.mp should
      cases same
      cases same'
      exact adds
    · intro once
      exact ⟨iff_of_true should ⟨latitude, longitude, rfl, rfl, once found⟩,
        fun shouldNot => absurd should shouldNot⟩
  · have published : handleUsers E me users form latitude longitude = [] := by
      rw [handleUsers_eq, (UserTree.filter_email_eq_nil E).mpr found]
      rfl
    rw [published]
    refine iff_of_true (postsRightly_nothing.mpr ?_) fun found' => absurd found' found
    exact fun should => found should.2.2

/-- **Which runs do what they should**, by the place they end in. -/
theorem Stage.rightly_iff_regular (fresh : Fresh uuid t) (stage : Stage web E me form latt longt users s)
    (ended : s.phase.Ended) :
    PostsRightly uuid t form latt longt me users s ↔ Regular web form latt longt me users := by
  cases stage with
  | requested ok => exact ended.elim
  | answered ok at_latt at_longt => exact ended.elim
  | lookingUp ok at_latt at_longt filled precise => exact ended.elim
  | noURL bad =>
      refine iff_of_false not_postsRightly_trapped ?_
      rintro ⟨ok, _⟩
      cases bad.symm.trans ok
  | uncast missing =>
      refine iff_of_false not_postsRightly_trapped ?_
      rintro ⟨_, at_longt, latitude, at_latt, _⟩
      rcases missing with rfl | rfl
      · cases at_latt
      · cases at_longt
  | noUsers at_latt filled precise none_ =>
      refine iff_of_false not_postsRightly_trapped ?_
      rintro ⟨_, _, latitude, at_latt', holds⟩
      cases at_latt.symm.trans at_latt'
      exact ((holds filled).2 precise).1 none_
  | @refused latitude longitude ok at_latt at_longt why =>
      subst at_latt at_longt
      rw [postsRightly_nothing]
      constructor
      · refine fun shouldNot => ⟨ok, rfl, latitude, rfl, fun filled => ⟨fun _ => ?_, fun precise => ?_⟩⟩
        · by_contra neither
          obtain ⟨known, found⟩ := not_or.mp neither
          exact shouldNot ⟨filled, ⟨latitude, longitude, rfl, rfl, known⟩, not_not.mp found⟩
        · cases precise.symm.trans (why filled)
      · rintro ⟨_, _, _, same, holds⟩ ⟨filled, ⟨_, _, same', _, known⟩, found⟩
        cases same
        cases same'
        rcases (holds filled).1 (why filled) with unknown | missing
        · exact known unknown
        · exact missing found
  | @lookedUp latitude longitude ok at_latt at_longt filled precise some_ =>
      subst at_latt at_longt
      rw [postsRightly_lookedUp fresh filled precise]
      constructor
      · intro once
        refine ⟨ok, rfl, latitude, rfl, fun _ => ⟨fun unknown => ?_, fun _ => ⟨some_, once⟩⟩⟩
        cases precise.symm.trans unknown
      · rintro ⟨_, _, _, same, holds⟩
        cases same
        exact ((holds filled).2 precise).2

end Outcome

/-- **When a tap on Post Job does what it should.**  Whatever the form and whatever object
the geocoder answers, a run in which nobody edits the form can go on until it is over; and
a run that is over has done what it should if and only if the input is regular. -/
theorem postsRightly_iff {web : Web} {E : Enumeration} {me : String} {form : JobForm}
    {latt longt : Option String} {users : UserTree} {uuid : ℕ → String} {t : JobTree}
    (answered : web.answer (url form.jobLocationTxt) = .object latt longt) (fresh : Fresh uuid t)
    {es : List Event} {s : CreateJob} (unedited : ∀ e ∈ es, e.Unedited users)
    (ran : run (step web E me) (tapped web form) es = some s) :
    (∃ more s', (∀ e ∈ more, e.Unedited users) ∧ run (step web E me) s more = some s' ∧
      s'.phase.Ended) ∧
    (s.phase.Ended → (PostsRightly uuid t form latt longt me users s ↔
      Regular web form latt longt me users)) :=
  ⟨exists_ended web E me users s, (stage_run answered unedited ran).rightly_iff_regular fresh⟩

/-- New keys for an empty tree. -/
def sampleKeys (n : ℕ) : String := String.ofList (List.replicate (n + 1) 'k')

theorem sampleKeys_fresh : Fresh sampleKeys .empty where
  distinct n n' same := by
    have length := congrArg String.length same
    simpa [sampleKeys] using length
  unused n present := by
    rcases JobTree.mem_iff_leaf.mp present with ⟨f, leaf⟩ | ⟨a, leaf⟩
    · exact leaf rfl
    · exact leaf rfl

/-- A job in Stockholm is posted. -/
theorem postsRightly_iff_stockholm :
    ∃ s, run (step twoCities .inserted "ann@x") (tapped twoCities .sample)
        [.answer, .main, .deliver twoCities.users] = some s ∧
      (s.phase.Ended → (PostsRightly sampleKeys .empty .sample (some "59.32") (some "18.07") "ann@x"
        twoCities.users s ↔
          Regular twoCities .sample (some "59.32") (some "18.07") "ann@x" twoCities.users)) :=
  ⟨_, rfl, (@postsRightly_iff twoCities .inserted "ann@x" .sample (some "59.32") (some "18.07")
    twoCities.users sampleKeys .empty rfl sampleKeys_fresh
    [.answer, .main, .deliver twoCities.users] _ (by simp [Event.Unedited]) rfl).2⟩

/-- A service that answers the same object whatever it is asked. -/
def answering (latt longt : Option String) : Web := ⟨fun _ => true, fun _ => .object latt longt⟩

/-- A place just above a whole degree is taken for one not found, and nothing is posted;
and a service that is throttled answers no coordinates, and the app traps, even if the
form is empty. -/
theorem not_postsRightly_refused :
    (∃ s, run (step (answering (some "59.00012") (some "18.07")) .inserted "ann@x")
        (tapped (answering (some "59.00012") (some "18.07")) .sample) [.answer, .main] = some s ∧
      s.phase.Ended ∧ ShouldPost .sample (some "59.00012") (some "18.07") "ann@x" twoCities.users ∧
      ∀ uuid t, ¬ PostsRightly uuid t .sample (some "59.00012") (some "18.07") "ann@x"
        twoCities.users s) ∧
    ∃ s, run (step (answering none none) .inserted "ann@x")
        (tapped (answering none none) ⟨"", "", "", ""⟩) [.answer] = some s ∧
      s.phase.Ended ∧ ¬ ShouldPost ⟨"", "", "", ""⟩ none none "ann@x" twoCities.users ∧
      ∀ uuid t, ¬ PostsRightly uuid t ⟨"", "", "", ""⟩ none none "ann@x" twoCities.users s := by
  have should : ShouldPost .sample (some "59.00012") (some "18.07") "ann@x" twoCities.users :=
    ⟨by decide, ⟨_, _, rfl, rfl, by decide⟩, "u", _, rfl, rfl⟩
  refine ⟨⟨_, rfl, trivial, should, fun uuid t rightly => ?_⟩,
    ⟨_, rfl, trivial, fun wrong => wrong.1.1 rfl, fun uuid t => not_postsRightly_trapped⟩⟩
  exact postsRightly_nothing.mp rightly should

end JobFinder.Controller.CreateJob
