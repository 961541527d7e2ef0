/-
# Controller.Ending -- what ends the app on a device

The app ends where it traps, and nothing that it has under way is finished then.  There are
three kinds of traps: what the code reads is not there, or not what it takes it for
(`Finds`); the code reads `Auth.auth().currentUser!` while nobody is signed in
(`ReadsUser`); and a list of the user's is loaded while some job, of anybody, has no poster.
The list of new jobs loads whatever there is.  It is its cells, and the taps on them, that
trap on what a record does not have.

`GoesOn` says for every tap, every cell and every callback what must be there, in terms of
what it is given, and not of the code.  It is exact: the app is alive throughout a run if and only if
every step of the run goes on (`alive_iff_goesOn`).
-/
import JobFinder.Controller.Device
import JobFinder.Controller.Readers

namespace JobFinder.Controller

open JobFinder.Theory JobFinder.Database JobFinder.Model

set_option autoImplicit false

/-- It loads the jobs, or the applications, of the user who is signed in. -/
def Callback.loads : Callback → Bool
  | myPostedJobs | applicants => true
  | _ => false

namespace Device

/-- A tap finds what it reads: a segment of the two, a location that gives a URL, and in the
selected row the fields of the popover, for a listing with coordinates that can be loaded. -/
def Tap.Finds (web : Web) (E : Enumeration) (d : Device) : Tap → Prop
  | .signUp form =>
      form.emailTxt ≠ "" ∧ form.passwordTxt ≠ "" ∧ form.firstNameTxt ≠ "" ∧ form.lastNameTxt ≠ "" →
        form.selectedSegmentIndex < 2
  | .createJob form => web.isURL (CreateJob.url form.jobLocationTxt) = true
  | .select row manager => ∀ data, (d.jobs d.top).row E row = .ok data →
      match d.presented.getLast? with
      | some .exploreVC =>
          data.Has JobListing.fields ∧ JobListing.LoadableCoordinates manager data.fields
      | _ => data.Has [.description]
  | _ => True

/-- A cell finds what it shows: of a job its three labels, of an applicant the title. -/
def CellFinds (E : Enumeration) (d : Device) (vc row : ℕ) : Prop :=
  match d.presented[vc]? with
  | some .showApplicantsVC => ∀ data, (d.applicants vc).row E row = .ok data → data.title.isSome
  | _ => ∀ data, (d.jobs vc).row E row = .ok data → data.Has JobCell.fields

/-- A callback finds what it reads: profiles, a stored profile, an answer with both
coordinates, as many jobs as the row, some job, and where applications are looked through
the titles of the jobs that have them. -/
def Finds (web : Web) (E : Enumeration) (applicants : Counted Application) (now : Moment) :
    Callback → Prop
  | .launch _ => now.users ≠ ∅
  | .accountType uid => uid ∈ now.users
  | .getJsonData url => web.answer url = .unreadable ∨
      ∃ latitude longitude, web.answer url = .object (some latitude) (some longitude)
  | .findUser .. => now.users ≠ ∅
  | .applyToJob jobID _ =>
      (∃ k, k ∈ now.postedJobs) → jobID < now.postedJobs.jobs.entries.length
  | .removeJob _ => ∃ k, k ∈ now.postedJobs
  | .showUserInfo _ => now.users ≠ ∅
  | .declineApplicant tag => (∃ k, k ∈ now.postedJobs) →
      (∃ data title, applicants.row E tag = .ok data ∧ data.title = some title) ∧
        ∀ k a email, now.postedJobs.applicant k a = some email →
          (now.postedJobs.field k .title).isSome
  | .removeApplicationIn email _ _ => (∃ k, k ∈ now.postedJobs) ∧
      ∀ k a, now.postedJobs.applicant k a = some email → (now.postedJobs.field k .title).isSome
  | _ => True

/-- A callback reads the user who is signed in, and takes it that there is one. -/
def ReadsUser (now : Moment) : Callback → Prop
  | .onMain latitude _ => now.jobForm.Filled ∧ CreateJob.imprecise latitude = false
  | .findUser email _ _ => now.users.HasEmail email
  | .applyToJob .. => ∃ k, k ∈ now.postedJobs
  | .myPostedJobs => ∃ k, k ∈ now.postedJobs
  | .applicants => ∃ k, k ∈ now.postedJobs
  | _ => False

/-- What signs a user in reads none. -/
theorem not_readsUser {callback : Callback} {now : Moment} (signs : callback.signsIn = true) :
    ¬ ReadsUser now callback := by
  cases callback <;> first | exact id | cases signs

/-- What a callback must find for the app to go on. -/
structure RunsOn (web : Web) (E : Enumeration) (d : Device) (vc : ℕ) (now : Moment)
    (callback : Callback) : Prop where
  finds : Finds web E (d.applicants vc) now callback
  signedIn : ReadsUser now callback → d.currentUser.isSome
  posters : callback.loads = true → ∀ k ∈ now.postedJobs, (now.postedJobs.field k .jobPoster).isSome

/-- What an event must find for the app to go on. -/
def GoesOn (web : Web) (E : Enumeration) (d : Device) : Event → Prop
  | .tap t => t.Finds web E d
  | .fire index now => ∀ c ∈ d.pending[index]?, RunsOn web E d c.vc now c.callback
  | .display vc row => CellFinds E d vc row
  | .relaunch => True

/-- The app has not ended. -/
def Alive (d : Device) : Prop := d.ended = none

section Effects

variable {web : Web} {E : Enumeration} {d d' : Device} {vc : ℕ} {new : ViewController}
  {callback : Callback} {c : Pending} {now : Moment} {t : JobTree}

@[simp] theorem alive_enqueue : (d.enqueue c).Alive ↔ d.Alive := Iff.rfl

@[simp] theorem alive_start : (d.start vc callback).Alive ↔ d.Alive := Iff.rfl

@[simp] theorem alive_viewDidLoad : (d.viewDidLoad vc new).Alive ↔ d.Alive := by
  cases new <;> rfl

@[simp] theorem alive_present : (d.present vc new).Alive ↔ d.Alive := by
  unfold present
  split
  · exact alive_viewDidLoad
  · rfl

@[simp] theorem alive_presentAlert : (d.presentAlert vc).Alive ↔ d.Alive := by
  obtain ⟨alert, same⟩ := presentAlert_eq d vc
  rw [same]
  rfl

theorem not_alive_trap (trap : Trap) : ¬ (d.trap trap).Alive := by simp [Alive, Device.trap]

theorem alive_attempt {α : Type} (alive : d.Alive) {x : Except Trap α} :
    (d.attempt x).Alive ↔ ∃ a, x = .ok a := by
  cases x with
  | ok a => exact iff_of_true alive ⟨a, rfl⟩
  | error trap =>
      refine iff_of_false (not_alive_trap trap) ?_
      rintro ⟨_, impossible⟩
      cases impossible

/-- A tap on Sign Up asks for a registration, or for none, unless a form that is filled in
has neither segment selected. -/
theorem signUp_ok_iff {form : SignUpForm} :
    (∃ asked, Controller.signUp form = .ok asked) ↔ Tap.Finds web E d (.signUp form) := by
  have titled : (∃ title, form.accountType = some title) ↔ form.selectedSegmentIndex < 2 := by
    rw [← Option.isSome_iff_exists]
    simp [SignUpForm.accountType, titleForSegment]
  simp only [Tap.Finds, ← titled]
  unfold Controller.signUp
  split
  · rename_i filled
    constructor
    · rintro ⟨asked, ok⟩ -
      obtain ⟨title, read, _⟩ := bind_ok.mp ok
      exact ⟨title, unwrap_ok.mp read⟩
    · intro some_
      obtain ⟨title, read⟩ := some_ filled
      exact ⟨_, bind_ok.mpr ⟨title, unwrap_ok.mpr read, rfl⟩⟩
  · rename_i unfilled
    exact iff_of_true ⟨none, rfl⟩ fun filled => absurd filled unfilled

theorem createJob_ok_iff {form : JobForm} :
    (∃ url, CreateJob.createJob web form = .ok url) ↔ Tap.Finds web E d (.createJob form) := by
  unfold CreateJob.createJob Tap.Finds
  split
  · rename_i accepted
    exact iff_of_true ⟨_, rfl⟩ accepted
  · rename_i refused
    refine iff_of_false ?_ refused
    rintro ⟨_, impossible⟩
    cases impossible

/-- A cell on the screen is that of a row of the list. -/
theorem row_of_jobCell {row : ℕ} {cell : JobCell} (configured : d.jobCell E vc row = some cell) :
    ∃ data, (d.jobs vc).row E row = .ok data := by
  unfold jobCell at configured
  split at configured
  · rename_i below
    obtain ⟨data, _, read⟩ := (d.jobs vc).row_lt E below
    exact ⟨data, read⟩
  · cases configured

theorem row_of_applicantCell {row : ℕ} {cell : ApplicantCell}
    (configured : d.applicantCell E vc row = some cell) :
    ∃ data, (d.applicants vc).row E row = .ok data := by
  unfold applicantCell at configured
  split at configured
  · rename_i below
    obtain ⟨data, _, read⟩ := (d.applicants vc).row_lt E below
    exact ⟨data, read⟩
  · cases configured

/-- **What a cell must find.** -/
theorem alive_display {row : ℕ} (alive : d.Alive) (displayed : d.display E vc row = some d') :
    d'.Alive ↔ CellFinds E d vc row := by
  have labels (below : row < (d.jobs vc).count) :
      (∃ cell, ((d.jobs vc).row E row >>= Controller.jobCell) = .ok cell) ↔
        ∀ data, (d.jobs vc).row E row = .ok data → data.Has JobCell.fields := by
    obtain ⟨data, _, read⟩ := (d.jobs vc).row_lt E below
    simp only [read, Except.ok.injEq, forall_eq', ← jobCell_iff]
    rfl
  unfold Device.display at displayed
  split at displayed
  · rename_i shown
    split at displayed <;> cases displayed
    rename_i below
    rw [alive_attempt alive, CellFinds, shown]
    exact labels below
  · rename_i shown
    split at displayed <;> cases displayed
    rename_i below
    rw [alive_attempt alive, CellFinds, shown]
    exact labels below
  · rename_i shown
    split at displayed <;> cases displayed
    rename_i below
    obtain ⟨data, _, read⟩ := (d.applicants vc).row_lt E below
    rw [alive_attempt alive, CellFinds, shown]
    simp only [read, ShowApplicants.cellForItemAt, bind_ok, Except.ok.injEq, forall_eq',
      forceCast_ok, Option.isSome_iff_exists]
    constructor
    · rintro ⟨_, _, rfl, title, titled, _⟩
      exact ⟨title, titled⟩
    · rintro ⟨title, titled⟩
      exact ⟨_, data, rfl, title, titled, rfl⟩
  · cases displayed

/-- **What a tap must find.** -/
theorem alive_tap {t : Tap} (alive : d.Alive) (tapped : d.tap web E t = some d') :
    d'.Alive ↔ t.Finds web E d := by
  unfold Device.tap at tapped
  split at tapped
  · cases t <;> cases tapped
    exact iff_of_true alive trivial
  · split at tapped
    · cases tapped
      exact iff_of_true alive trivial
    · cases tapped
      exact iff_of_true alive trivial
    · rw [← @signUp_ok_iff web]
      split at tapped <;> cases tapped <;> rename_i asked
      · exact iff_of_true alive ⟨_, asked⟩
      · exact iff_of_true alive ⟨_, asked⟩
      · refine iff_of_false (not_alive_trap _) ?_
        rintro ⟨_, ok⟩
        cases asked.symm.trans ok
    · cases tapped
      exact iff_of_true (alive_present.mpr alive) trivial
    · cases tapped
      exact iff_of_true (alive_present.mpr alive) trivial
    · cases tapped
      exact iff_of_true alive trivial
    · cases tapped
      exact iff_of_true (alive_present.mpr alive) trivial
    · rw [← createJob_ok_iff]
      split at tapped <;> cases tapped <;> rename_i requested
      · exact iff_of_true alive ⟨_, requested⟩
      · refine iff_of_false (not_alive_trap _) ?_
        rintro ⟨_, ok⟩
        cases requested.symm.trans ok
    · cases tapped
      exact iff_of_true alive trivial
    · rename_i row manager last
      obtain ⟨cell, configured, rfl⟩ := Option.map_eq_some_iff.mp tapped
      obtain ⟨data, read⟩ := row_of_jobCell configured
      rw [alive_attempt alive, Tap.Finds, read]
      simp only [last, Except.ok.injEq, forall_eq']
      exact JobListing.opens_iff_has manager read
    · rename_i row manager last
      obtain ⟨cell, configured, rfl⟩ := Option.map_eq_some_iff.mp tapped
      obtain ⟨data, read⟩ := row_of_jobCell configured
      rw [alive_attempt alive, Tap.Finds, read]
      simp only [last, Except.ok.injEq, forall_eq']
      exact PostedJobs.popover_iff read
    · obtain ⟨cell, configured, rfl⟩ := Option.map_eq_some_iff.mp tapped
      obtain ⟨data, read⟩ := row_of_applicantCell configured
      simp only [read]
      exact iff_of_true alive trivial
    · obtain ⟨cell, _, rfl⟩ := Option.map_eq_some_iff.mp tapped
      exact iff_of_true alive trivial
    · split at tapped <;> cases tapped
      exact iff_of_true (alive_present.mpr alive) trivial
    · cases tapped

/-- A handler call of `CreateJob` that is told of a success reads the user. -/
theorem alive_handleUser {latitude longitude : String} {form : JobForm} (alive : d.Alive)
    (success : Bool) :
    (handleUser latitude longitude form c d success).currentUser = d.currentUser ∧
      ((handleUser latitude longitude form c d success).Alive ↔
        (success = true → d.currentUser.isSome)) := by
  unfold handleUser
  split
  · rename_i told
    rcases Option.eq_none_or_eq_some d.currentUser with user | ⟨user', user⟩
    · have same : d.email = none := by rw [email, user]; rfl
      simp only [same]
      refine ⟨trivial, iff_of_false (by simp [Alive]) fun signedIn => ?_⟩
      simpa [user] using signedIn told.1
    · have same : d.email = some user'.email := by rw [email, user]; rfl
      obtain ⟨alert, posted⟩ := presentAlert_eq { d with issued := d.issued ++ [(c.startedBy,
        Write.createJob (CreateJob.jobWrites latitude longitude form user'.email))] } c.vc
      simp only [same, posted]
      exact ⟨trivial, iff_of_true alive fun _ => by rw [user]; rfl⟩
  · rename_i quiet
    exact ⟨rfl, iff_of_true alive fun told => absurd ⟨told, alive⟩ quiet⟩

/-- The app that has ended handles nothing more. -/
theorem handleUsers_of_ended {latitude longitude : String} {form : JobForm} (ended : ¬ d.Alive)
    (calls : List Bool) : calls.foldl (handleUser latitude longitude form c) d = d := by
  induction calls with
  | nil => rfl
  | cons success calls ih =>
      have skipped : handleUser latitude longitude form c d success = d :=
        if_neg fun told => ended told.2
      rw [List.foldl_cons, skipped, ih]

theorem alive_handleUsers {latitude longitude : String} {form : JobForm} (alive : d.Alive)
    (calls : List Bool) :
    (calls.foldl (handleUser latitude longitude form c) d).Alive ↔
      (true ∈ calls → d.currentUser.isSome) := by
  induction calls generalizing d with
  | nil => exact iff_of_true alive fun told => absurd told List.not_mem_nil
  | cons success calls ih =>
      obtain ⟨user, goes⟩ :
          (handleUser latitude longitude form c d success).currentUser = d.currentUser ∧
            ((handleUser latitude longitude form c d success).Alive ↔
              (success = true → d.currentUser.isSome)) := alive_handleUser alive success
      rw [List.foldl_cons]
      by_cases on : (handleUser latitude longitude form c d success).Alive
      · rw [ih on, user, List.mem_cons]
        constructor
        · rintro later (told | told)
          · exact goes.mp on told.symm
          · exact later told
        · exact fun both told => both (.inr told)
      · rw [handleUsers_of_ended on]
        refine iff_of_false on fun both => on (goes.mpr fun told => both ?_)
        rw [told]
        exact List.mem_cons_self

/-- A successful call there is exactly for an email that a profile holds. -/
theorem true_mem_findUser {email : String} {users : UserTree} :
    true ∈ (Model.findUser E email users).out.map Prod.snd ↔ users.HasEmail email := by
  by_cases found : users.HasEmail email
  · refine iff_of_true ?_ found
    obtain ⟨uid, profile, stored, same⟩ := found
    rw [findUser_found E ⟨uid, profile, stored, same⟩, Issued.out_done, List.map_map]
    exact List.mem_map.mpr ⟨⟨uid, profile⟩, List.mem_filter.mpr ⟨E.mem_order.mpr stored,
      decide_eq_true same⟩, rfl⟩
  · refine iff_of_false ?_ found
    rw [findUser_missed E found]
    cases subscript (E.order users) 0 <;> simp [Issued.ofExcept, Issued.stop]

/-- A loop over the jobs whose body casts the poster of each. -/
theorem trap_posters {α : Type} {body : (Σ _ : String, JobRecord) → Issued α}
    (casts : ∀ i, (body i).trap = none ↔ ∃ v, i.2.fields .jobPoster = some v) :
    (Issued.forEach body (E.order t.jobs)).trap = none ↔
      ∀ k ∈ t, (t.field k .jobPoster).isSome := by
  rw [Issued.trap_forEach]
  constructor
  · intro all k present
    exact Option.isSome_iff_exists.mpr ((casts _).mp (all ⟨k, t.node k⟩
      ((JobTree.mem_order E).mpr ⟨present, rfl⟩)))
  · intro all i listed
    obtain ⟨present, record⟩ := (JobTree.mem_order E).mp listed
    rw [casts, ← record]
    exact Option.isSome_iff_exists.mp (all i.1 present)

theorem trap_ownApplications {me : String} (i : Σ _ : String, JobRecord) :
    (ShowApplicants.ownApplications E me i).trap = none ↔
      ∃ v, i.2.fields .jobPoster = some v := by
  unfold ShowApplicants.ownApplications JobRecord.cast
  cases i.2.fields .jobPoster with
  | none => simp [forceCast, Issued.ofExcept, Issued.stop]
  | some v =>
      simp only [forceCast, Issued.ofExcept_ok]
      split_ifs <;> simp

/-- What a load of either list must find. -/
theorem comparePosters_eq_none {load : String → Option Trap}
    (casts : ∀ me, load me = none ↔ ∀ k ∈ t, (t.field k .jobPoster).isSome) :
    comparePosters E d t load = none ↔
      ((∃ k, k ∈ t) → d.currentUser.isSome) ∧ ∀ k ∈ t, (t.field k .jobPoster).isSome := by
  unfold comparePosters
  cases user : d.currentUser with
  | some user' =>
      have same : d.email = some user'.email := by rw [email, user]; rfl
      simp only [same, Option.map_eq_none_iff, casts, Option.isSome_some, implies_true, true_and]
  | none =>
      have same : d.email = none := by rw [email, user]; rfl
      simp only [same, Option.map_eq_none_iff, List.head?_eq_none_iff]
      have nothing : E.order t.jobs = [] ↔ ∀ k, k ∉ t := by
        rw [E.order_eq_nil, ← JobTree.entries_eq_nil]
        exact ⟨fun none_ => by rw [none_]; rfl, fun none_ => AList.ext none_⟩
      rw [nothing]
      constructor
      · refine fun none_ => ⟨fun some_ => ?_, fun k present => absurd present (none_ k)⟩
        obtain ⟨k, present⟩ := some_
        exact absurd present (none_ k)
      · rintro ⟨signedIn, -⟩ k present
        cases signedIn ⟨k, present⟩

/-- A callback that loads no list of the user's. -/
theorem runsOn_iff (loads : callback.loads = false) :
    RunsOn web E d vc now callback ↔
      Finds web E (d.applicants vc) now callback ∧ (ReadsUser now callback → d.currentUser.isSome) :=
  ⟨fun on => ⟨on.finds, on.signedIn⟩, fun both => ⟨both.1, both.2, fun loads' => by
    rw [loads] at loads'
    cases loads'⟩⟩

/-- One that does not read the user either. -/
theorem runsOn_of_silent (loads : callback.loads = false) (silent : ¬ ReadsUser now callback) :
    RunsOn web E d vc now callback ↔ Finds web E (d.applicants vc) now callback := by
  rw [runsOn_iff loads, and_iff_left fun reads => absurd reads silent]

/-- One that loads a list. -/
theorem comparePosters_iff {load : String → Option Trap} (loads : callback.loads = true)
    (finds : Finds web E (d.applicants vc) now callback)
    (reads : ReadsUser now callback ↔ ∃ k, k ∈ now.postedJobs)
    (casts : ∀ me, load me = none ↔ ∀ k ∈ now.postedJobs, (now.postedJobs.field k .jobPoster).isSome) :
    comparePosters E d now.postedJobs load = none ↔ RunsOn web E d vc now callback := by
  rw [comparePosters_eq_none casts, ← reads]
  exact ⟨fun both => ⟨finds, both.1, fun _ => both.2⟩, fun on => ⟨on.signedIn, on.posters loads⟩⟩

theorem signed (d : Device) : (d.currentUser.isSome = false ∧ d.email = none) ∨
    (d.currentUser.isSome = true ∧ ∃ email, d.email = some email) := by
  rw [email]
  cases d.currentUser <;> simp

theorem alive_onMain {latitude longitude : String} (alive : d.Alive)
    (is : c.callback = .onMain latitude longitude) :
    (d.run web E c now).Alive ↔ RunsOn web E d c.vc now (.onMain latitude longitude) := by
  rw [runsOn_iff rfl]
  simp only [Device.run, is, Finds, ReadsUser, true_and]
  split
  · rename_i filled
    split
    · rename_i precise
      rw [Bool.not_eq_true'] at precise
      rcases signed d with ⟨user, none_⟩ | ⟨user, email, same⟩
      · simp only [none_, user]
        exact iff_of_false (by simp [Alive]) fun signedIn => by cases signedIn ⟨filled, precise⟩
      · simp only [same]
        exact iff_of_true alive fun _ => user
    · rename_i imprecise
      rw [Bool.not_eq_true'] at imprecise
      exact iff_of_true (alive_presentAlert.mpr alive) fun both => absurd both.2 imprecise
  · rename_i unfilled
    exact iff_of_true alive fun both => absurd both.1 unfilled

theorem alive_findUser {email latitude longitude : String} (alive : d.Alive)
    (is : c.callback = .findUser email latitude longitude) :
    (d.run web E c now).Alive ↔ RunsOn web E d c.vc now (.findUser email latitude longitude) := by
  rw [runsOn_iff rfl]
  simp only [Device.run, is, Finds, ReadsUser]
  rw [← trap_findUser E email now.users, ← true_mem_findUser (E := E)]
  generalize Model.findUser E email now.users = calls
  have handled : ((calls.out.map Prod.snd).foldl
      (handleUser latitude longitude now.jobForm c) d).Alive ↔
        (true ∈ calls.out.map Prod.snd → d.currentUser.isSome) := alive_handleUsers alive _
  split
  · rename_i goes
    rw [and_iff_left (handled.mp goes)]
    simp [Alive]
  · rename_i ended
    exact iff_of_false ended fun both => ended (handled.mpr both.2)

theorem alive_applyToJob {jobID : ℕ} {uuid : String} (alive : d.Alive)
    (is : c.callback = .applyToJob jobID uuid) :
    (d.run web E c now).Alive ↔ RunsOn web E d c.vc now (.applyToJob jobID uuid) := by
  rw [runsOn_iff rfl]
  simp only [Device.run, is, Finds, ReadsUser]
  by_cases posted : ∃ k, k ∈ now.postedJobs
  · have length : (now.postedJobs.keys E).length = now.postedJobs.jobs.entries.length := by
      rw [JobTree.keys, List.length_map, E.length_order]
    rw [JobListing.applyToJob_posted posted, subscript, ← length]
    simp only [posted, true_implies]
    cases row : (now.postedJobs.keys E)[jobID]? with
    | none =>
        have beyond := List.getElem?_eq_none_iff.mp row
        exact iff_of_false (not_alive_trap _) fun both => absurd both.1 (by omega)
    | some hashID =>
        obtain ⟨below, _⟩ := List.getElem?_eq_some_iff.mp row
        rcases signed d with ⟨user, none_⟩ | ⟨user, email, same⟩
        · simp only [Except.map, none_, user]
          exact iff_of_false (by simp [Alive]) fun both => by cases both.2
        · simp only [Except.map, same]
          exact iff_of_true alive ⟨below, user⟩
  · rw [JobListing.applyToJob_none (by simpa using posted)]
    exact iff_of_true alive ⟨fun some_ => absurd some_ posted, fun some_ => absurd some_ posted⟩

/-- **What a callback must find.** -/
theorem alive_run (alive : d.Alive) : (d.run web E c now).Alive ↔ RunsOn web E d c.vc now c.callback := by
  cases is : c.callback with
  | launch email =>
      rw [runsOn_of_silent rfl id, Finds, ← trap_findUser E email now.users]
      simp only [Device.run, is, Alive]
      split <;> simp [getUserAccountType, Issued.map]
  | loginUser =>
      rw [runsOn_of_silent rfl id]
      simp only [Device.run, is]
      cases now.authDataResult with
      | none => exact iff_of_true (alive_presentAlert.mpr alive) trivial
      | some user => exact iff_of_true alive trivial
  | accountType uid =>
      rw [runsOn_of_silent rfl id, Finds, ← AList.lookup_isSome]
      simp only [Device.run, is, signIn]
      cases now.users.lookup uid with
      | none => exact iff_of_false (not_alive_trap _) (by simp)
      | some profile => exact iff_of_true (alive_present.mpr alive) rfl
  | registerUser handeler =>
      rw [runsOn_of_silent rfl id]
      simp only [Device.run, is]
      cases now.authDataResult with
      | none => exact iff_of_true (alive_presentAlert.mpr alive) trivial
      | some user => exact iff_of_true (alive_present.mpr alive) trivial
  | getJsonData url =>
      rw [runsOn_of_silent rfl id, Finds]
      simp only [Device.run, is]
      rcases web.answer url with _ | _ | ⟨_ | latitude, _ | longitude⟩
      · exact iff_of_true alive (.inl rfl)
      · exact iff_of_false (not_alive_trap _) (by simp)
      · exact iff_of_false (not_alive_trap _) (by simp)
      · exact iff_of_false (not_alive_trap _) (by simp)
      · exact iff_of_false (not_alive_trap _) (by simp)
      · exact iff_of_true alive (.inr ⟨latitude, longitude, rfl⟩)
  | onMain latitude longitude => exact alive_onMain alive is
  | findUser email latitude longitude => exact alive_findUser alive is
  | applyToJob jobID uuid => exact alive_applyToJob alive is
  | removeJob jobIndex =>
      rw [runsOn_of_silent rfl id, Finds]
      simp only [Device.run, is, Alive, Option.map_eq_none_iff, EditJob.removeJob]
      split
      · rename_i none_
        refine iff_of_false (by simp [Issued.stop]) ?_
        rintro ⟨k, present⟩
        exact JobTree.entries_eq_nil.mp none_ k present
      · rename_i some_
        exact iff_of_true rfl (by simpa [JobTree.entries_eq_nil] using some_)
  | myPostedJobs =>
      simp only [Device.run, is, Alive]
      exact comparePosters_iff rfl trivial Iff.rfl fun me => trap_posters fun _ => PostedJobs.trap_ownJob
  | applicants =>
      simp only [Device.run, is, Alive]
      exact comparePosters_iff rfl trivial Iff.rfl fun me => trap_posters trap_ownApplications
  | newJobs =>
      rw [runsOn_of_silent rfl id]
      simp only [Device.run, is]
      exact iff_of_true alive trivial
  | showUserInfo email =>
      rw [runsOn_of_silent rfl id, Finds, ← trap_findUser E email now.users]
      simp only [Device.run, is, Alive, Option.map_eq_none_iff]
  | declineApplicant tag =>
      rw [runsOn_of_silent rfl id, Finds, ← ShowApplicants.trap_declineApplicant]
      simp only [Device.run, is, Alive, Option.map_eq_none_iff]
  | removeApplication email jobTitle =>
      rw [runsOn_of_silent rfl id]
      simp only [Device.run, is]
      exact iff_of_true alive trivial
  | removeApplicationIn email jobTitle jobs =>
      rw [runsOn_of_silent rfl id, Finds, ← @trap_removeApplication E email jobTitle jobs]
      simp only [Device.run, is, Alive, Option.map_eq_none_iff]

/-- **What an event must find.** -/
theorem alive_step {e : Event} (alive : d.Alive) (stepped : d.step web E e = some d') :
    d'.Alive ↔ GoesOn web E d e := by
  cases e with
  | relaunch =>
      cases stepped
      exact iff_of_true rfl trivial
  | tap t =>
      obtain ⟨_, tapped⟩ := step_tap stepped
      exact alive_tap alive tapped
  | fire index now =>
      obtain ⟨_, c, at_, rfl⟩ := step_fire stepped
      have erased : Alive { d with pending := d.pending.eraseIdx index } := alive
      rw [alive_run erased]
      constructor
      · intro on c' at'
        cases at_.symm.trans at'
        exact ⟨on.finds, on.signedIn, on.posters⟩
      · intro all
        obtain ⟨finds, signedIn, posters⟩ := all c at_
        exact ⟨finds, signedIn, posters⟩
  | display vc row =>
      obtain ⟨_, displayed⟩ := step_display stepped
      exact alive_display alive displayed

end Effects

/-- **When the app never ends.**  Whatever is tapped, in whatever order the callbacks run and
whenever the app is launched anew, it is alive throughout a run from launch on if and only if
every tap, every cell and every callback of the run finds what it must. -/
theorem alive_iff_goesOn (web : Web) (E : Enumeration) (currentUser : Option AuthDataResult)
    (es : List Event) :
    Always (step web E) Alive (launched currentUser) es ↔
      Along (step web E) (GoesOn web E) (launched currentUser) es :=
  always_iff_along (I := fun _ => True) (D := fun _ _ => True) (fun _ _ _ _ _ _ => trivial)
    (fun _ _ _ _ _ alive stepped => alive_step alive stepped) es _ trivial rfl
    (along_of_forall fun _ _ _ => trivial)

end Device

end JobFinder.Controller
