/-
# Controller.Sending -- what one step of a device sends, and what it starts

A device only issues writes in its callbacks, and each callback issues one kind of them:
`CreateJob` jobs, a registration a profile, `ApplyToJob` one application, under the job it
has read, `RemoveJob` the removals of what it has read at its row, and the second read of a
`RemoveApplication` those of what it was looking for (`issues_fire`).

A callback only starts the next ones of its chain, or the load of a list (`starts_fire`), and
a tap starts the chains of the screen that is shown (`starts_tap`).  The
callbacks of a chain, and the writes they issue, are for one home screen (`Callback.role`).
-/
import JobFinder.Controller.Device

namespace JobFinder.Controller

open JobFinder.Theory JobFinder.Database JobFinder.Model

set_option autoImplicit false

/-- The home screen of those who start such a chain. -/
def Callback.role : Callback → Option Screen
  | launch _ | loginUser | accountType _ | registerUser _ | newJobs => none
  | getJsonData _ | onMain .. | findUser .. => some .createJobVC
  | removeJob _ | myPostedJobs | applicants => some .createJobVC
  | showUserInfo _ | declineApplicant _ => some .createJobVC
  | removeApplication .. | removeApplicationIn .. => some .createJobVC
  | applyToJob .. => some .exploreVC

/-- The answer of the authentication service signs a user in. -/
def Callback.authenticates : Callback → Bool
  | loginUser | registerUser _ => true
  | _ => false

/-- The home screen of those who issue such a write. -/
def Write.role : Write → Option Screen
  | createJob _ | removeJob _ | removeApplicant .. => some .createJobVC
  | fileApplication .. => some .exploreVC
  | createDBUser _ => none

namespace Device

/-- The writes of one callback, given the jobs that it reads. -/
inductive Issues (E : Enumeration) (postedJobs : JobTree) (callback : Callback) :
    List (Option String × Write) → Prop
  | posts {writes : List (Option String × Write)} (only : ∀ entry ∈ writes,
      (∃ job, entry.2 = .createJob job) ∨ ∃ profile, entry.2 = .createDBUser profile) :
      Issues E postedJobs callback writes
  | applies {jobID : ℕ} {hashID : String} (startedBy : Option String) (uuid email : String)
      (read : JobListing.applyToJob E jobID postedJobs = .ok (some hashID)) :
      Issues E postedJobs callback [(startedBy, .fileApplication hashID uuid email)]
  | removes (startedBy : Option String) (jobIndex : ℕ) :
      Issues E postedJobs callback
        ((EditJob.removeJob E jobIndex postedJobs).out.map fun key => (startedBy, .removeJob key))
  | withdraws {email jobTitle : String} {jobs : Dict String JobRecord} (startedBy : Option String)
      (is : callback = .removeApplicationIn email jobTitle jobs) :
      Issues E postedJobs callback ((Model.removeApplication E email jobTitle jobs postedJobs).out.map
        fun path => (startedBy, .removeApplicant path.1 path.2))

section Issued

variable {web : Web} {E : Enumeration} {d d' : Device} {vc : ℕ} {new : ViewController}
  {callback : Callback} {c : Pending}

@[simp] theorem issued_enqueue : (d.enqueue c).issued = d.issued := rfl

@[simp] theorem issued_start : (d.start vc callback).issued = d.issued := rfl

@[simp] theorem issued_present : (d.present vc new).issued = d.issued := by
  unfold present
  split <;> simp

@[simp] theorem issued_presentAlert : (d.presentAlert vc).issued = d.issued := by
  obtain ⟨alert, same⟩ := presentAlert_eq d vc
  rw [same]

@[simp] theorem issued_attempt {α : Type} {x : Except Trap α} : (d.attempt x).issued = d.issued := by
  obtain ⟨ended, same⟩ := attempt_eq d x
  rw [same]

/-- A tap sends nothing. -/
theorem issued_tap {t : Tap} (tapped : d.tap web E t = some d') : d'.issued = d.issued := by
  unfold tap at tapped
  split at tapped
  · cases t <;> cases tapped
    rfl
  · split at tapped
    · cases tapped; rfl
    · cases tapped; rfl
    · split at tapped <;> cases tapped <;> rfl
    · cases tapped; simp
    · cases tapped; simp [signOut]
    · cases tapped; rfl
    · cases tapped; simp [signOut]
    · split at tapped <;> cases tapped <;> rfl
    · cases tapped; rfl
    · obtain ⟨_, _, rfl⟩ := Option.map_eq_some_iff.mp tapped
      simp
    · obtain ⟨_, _, rfl⟩ := Option.map_eq_some_iff.mp tapped
      simp
    · obtain ⟨_, _, rfl⟩ := Option.map_eq_some_iff.mp tapped
      split <;> rfl
    · obtain ⟨_, _, rfl⟩ := Option.map_eq_some_iff.mp tapped
      rfl
    · split at tapped <;> cases tapped
      simp
    · cases tapped

/-- A handler call of `CreateJob` posts at most one job. -/
theorem issued_handleUser {latitude longitude : String} {form : JobForm} (success : Bool) :
    ∃ writes, (handleUser latitude longitude form c d success).issued = d.issued ++ writes ∧
      ∀ entry ∈ writes, entry.1 = c.startedBy ∧ ∃ job, entry.2 = .createJob job := by
  unfold handleUser
  split
  · split
    · refine ⟨_, issued_presentAlert, fun entry member => ?_⟩
      obtain rfl := List.mem_singleton.mp member
      exact ⟨rfl, _, rfl⟩
    · refine ⟨_, rfl, fun entry member => ?_⟩
      obtain rfl := List.mem_singleton.mp member
      exact ⟨rfl, _, rfl⟩
  · exact ⟨[], by simp, by simp⟩

/-- All of them together. -/
theorem issued_handleUsers {latitude longitude : String} {form : JobForm} (calls : List Bool) :
    ∃ writes, (calls.foldl (handleUser latitude longitude form c) d).issued = d.issued ++ writes ∧
      ∀ entry ∈ writes, entry.1 = c.startedBy ∧ ∃ job, entry.2 = .createJob job := by
  induction calls generalizing d with
  | nil => exact ⟨[], by simp, by simp⟩
  | cons success calls ih =>
      obtain ⟨writes, issued, only⟩ : ∃ writes,
        (handleUser latitude longitude form c d success).issued = d.issued ++ writes ∧
          ∀ entry ∈ writes, entry.1 = c.startedBy ∧ ∃ job, entry.2 = .createJob job :=
        issued_handleUser success
      obtain ⟨more, issued', only'⟩ := ih (d := handleUser latitude longitude form c d success)
      refine ⟨writes ++ more, by rw [List.foldl_cons, issued', issued, List.append_assoc], ?_⟩
      intro entry member
      exact (List.mem_append.mp member).elim (only entry) (only' entry)

/-- The removals of `RemoveJob`, in order. -/
theorem issued_removeKeys (keys : List String) :
    (keys.foldl (removeKey c) d).issued =
      d.issued ++ keys.map fun key => (c.startedBy, .removeJob key) := by
  induction keys generalizing d with
  | nil => simp
  | cons key keys ih =>
      rw [List.foldl_cons, ih, removeKey, issued_enqueue]
      exact List.append_assoc ..

/-- What a callback sends, for whoever started its chain. -/
theorem issues_run (now : Moment) : ∃ writes, (d.run web E c now).issued = d.issued ++ writes ∧
    Issues E now.postedJobs c.callback writes ∧
      ∀ entry ∈ writes, entry.1 = c.startedBy ∧ entry.2.role = c.callback.role := by
  have silent {d' : Device} (same : d'.issued = d.issued) : ∃ writes,
      d'.issued = d.issued ++ writes ∧ Issues E now.postedJobs c.callback writes ∧
        ∀ entry ∈ writes, entry.1 = c.startedBy ∧ entry.2.role = c.callback.role :=
    ⟨[], by simp [same], .posts (by simp), by simp⟩
  unfold Device.run
  split
  · dsimp only
    split
    · exact silent issued_viewDidLoad
    · exact silent rfl
  · cases now.authDataResult with
    | none => exact silent issued_presentAlert
    | some user => exact silent rfl
  · split
    · exact silent issued_present
    · exact silent rfl
  · rename_i is
    cases now.authDataResult with
    | none => exact silent issued_presentAlert
    | some user =>
        refine ⟨_, issued_present, .posts fun entry member => ?_, fun entry member => ?_⟩
        all_goals obtain ⟨write, _, rfl⟩ := List.mem_map.mp (Option.toList_map .. ▸ member)
        · exact .inr ⟨write, rfl⟩
        · rw [is]
          exact ⟨rfl, rfl⟩
  · split
    · exact silent rfl
    · exact silent rfl
    · exact silent rfl
  · split
    · split
      · split
        · exact silent rfl
        · exact silent rfl
      · exact silent issued_presentAlert
    · exact silent rfl
  · rename_i email latitude longitude is
    obtain ⟨writes, issued, only⟩ : ∃ writes, (((Model.findUser E email now.users).out.map
        Prod.snd).foldl (handleUser latitude longitude now.jobForm c) d).issued = d.issued ++ writes ∧
          ∀ entry ∈ writes, entry.1 = c.startedBy ∧ ∃ job, entry.2 = .createJob job :=
      issued_handleUsers _
    refine ⟨writes, ?_, .posts fun entry member => .inl (only entry member).2, fun entry member => ?_⟩
    · show (if _ then _ else _ : Device).issued = _
      split <;> exact issued
    · obtain ⟨startedBy, job, posts⟩ := only entry member
      rw [is, posts]
      exact ⟨startedBy, rfl⟩
  · rename_i is
    split
    · rename_i hashID read
      split
      · refine ⟨_, rfl, .applies _ _ _ read, fun entry member => ?_⟩
        obtain rfl := List.mem_singleton.mp member
        rw [is]
        exact ⟨rfl, rfl⟩
      · exact silent rfl
    · exact silent rfl
    · exact silent rfl
  · rename_i is
    refine ⟨_, issued_removeKeys _, .removes _ _, fun entry member => ?_⟩
    obtain ⟨key, _, rfl⟩ := List.mem_map.mp member
    rw [is]
    exact ⟨rfl, rfl⟩
  · exact silent rfl
  · exact silent rfl
  · exact silent rfl
  · exact silent rfl
  · exact silent rfl
  · exact silent rfl
  · rename_i is
    refine ⟨_, rfl, .withdraws _ is, fun entry member => ?_⟩
    obtain ⟨path, _, rfl⟩ := List.mem_map.mp member
    rw [is]
    exact ⟨rfl, rfl⟩

/-- A profile is only sent by a registration, for the account that it made. -/
theorem profile_run {now : Moment} {entry : Option String × Write} {profile : ProfileWrite}
    (issued : entry ∈ (d.run web E c now).issued) (is : entry.2 = .createDBUser profile) :
    entry ∈ d.issued ∨ ∃ handeler user, c.callback = .registerUser handeler ∧
      now.authDataResult = some user ∧ (handeler.registerUser (some user)).1 = some profile := by
  obtain ⟨writes, same, _, sent⟩ := @issues_run web E d c now
  have noRole : entry ∈ d.issued ∨ c.callback.role = none := by
    rw [same] at issued
    refine (List.mem_append.mp issued).imp_right fun new => ?_
    rw [← (sent entry new).2, is]
    rfl
  rcases noRole with before | noRole
  · exact .inl before
  cases chain : c.callback with
  | launch email =>
      simp only [Device.run, chain] at issued
      split at issued
      · rw [issued_viewDidLoad] at issued
        exact .inl issued
      · exact .inl issued
  | newJobs =>
      simp only [Device.run, chain] at issued
      exact .inl issued
  | loginUser =>
      simp only [Device.run, chain] at issued
      cases answer : now.authDataResult with
      | none =>
          simp only [answer, issued_presentAlert] at issued
          exact .inl issued
      | some user =>
          simp only [answer] at issued
          exact .inl issued
  | accountType uid =>
      simp only [Device.run, chain] at issued
      split at issued
      · exact .inl (issued_present ▸ issued)
      · exact .inl issued
  | registerUser handeler =>
      simp only [Device.run, chain] at issued
      cases answer : now.authDataResult with
      | none =>
          simp only [answer, issued_presentAlert] at issued
          exact .inl issued
      | some user =>
          simp only [answer, issued_present] at issued
          rcases List.mem_append.mp issued with before | new
          · exact .inl before
          · obtain ⟨write, issues, rfl⟩ := List.mem_map.mp (Option.toList_map .. ▸ new)
            cases is
            exact .inr ⟨handeler, user, rfl, rfl, Option.mem_toList.mp issues⟩
  | _ =>
      rw [chain] at noRole
      cases noRole

/-- **What a step sends.** -/
theorem issues_fire {index : ℕ} {now : Moment} (fired : d.step web E (.fire index now) = some d') :
    ∃ c writes, d.pending[index]? = some c ∧ d'.issued = d.issued ++ writes ∧
      Issues E now.postedJobs c.callback writes ∧
        ∀ entry ∈ writes, entry.1 = c.startedBy ∧ entry.2.role = c.callback.role := by
  obtain ⟨_, c, at_, rfl⟩ := step_fire fired
  obtain ⟨writes, issued, kind, inRole⟩ := issues_run now
  exact ⟨c, writes, at_, issued, kind, inRole⟩

end Issued

/-! ## What a callback starts -/

/-- The next callback of a chain, or the load of a list: by the screen that a sign-in or a
launch presents, or asked for by a removal.  The jobs are those that are read. -/
inductive Next (postedJobs : JobTree) : Callback → Callback → Prop
  | launch (email : String) : Next postedJobs (.launch email) .newJobs
  | loginUser (uid : String) : Next postedJobs .loginUser (.accountType uid)
  | accountType (uid : String) : Next postedJobs (.accountType uid) .newJobs
  | registerUser (self : AccountHandeler) : Next postedJobs (.registerUser self) .newJobs
  | getJsonData (url latitude longitude : String) :
      Next postedJobs (.getJsonData url) (.onMain latitude longitude)
  | onMain (email latitude longitude : String) :
      Next postedJobs (.onMain latitude longitude) (.findUser email latitude longitude)
  | removeJob (jobIndex : ℕ) : Next postedJobs (.removeJob jobIndex) .myPostedJobs
  | declineApplicant (tag : ℕ) (email jobTitle : String) :
      Next postedJobs (.declineApplicant tag) (.removeApplication email jobTitle)
  | removeApplication (email jobTitle : String) :
      Next postedJobs (.removeApplication email jobTitle)
        (.removeApplicationIn email jobTitle (getPostedJobs postedJobs).1)

/-- How long the chain of a callback can still get. -/
def rank : Callback → ℕ
  | .launch _ => 1
  | .loginUser => 2
  | .accountType _ => 1
  | .registerUser _ => 1
  | .getJsonData _ => 3
  | .onMain .. => 2
  | .findUser .. => 1
  | .applyToJob .. => 0
  | .removeJob _ => 1
  | .newJobs => 0
  | .myPostedJobs => 0
  | .applicants => 0
  | .showUserInfo _ => 0
  | .declineApplicant _ => 3
  | .removeApplication .. => 2
  | .removeApplicationIn .. => 1

section Next

variable {postedJobs : JobTree} {callback next : Callback}

theorem Next.rank_lt (chain : Next postedJobs callback next) : rank next < rank callback := by
  cases chain <;> exact Nat.lt_succ_self _

theorem Next.role_eq (chain : Next postedJobs callback next) : next.role = callback.role := by
  cases chain <;> rfl

theorem Next.not_registerUser (chain : Next postedJobs callback next) (handeler : AccountHandeler) :
    next ≠ .registerUser handeler := by
  cases chain <;> simp

end Next

/-- All that the second device has pending besides comes next in the chain of the callback. -/
def Starts (postedJobs : JobTree) (callback : Callback) (d d' : Device) : Prop :=
  ∃ more, d'.pending = d.pending ++ more ∧ ∀ c ∈ more, Next postedJobs callback c.callback

section Started

variable {web : Web} {E : Enumeration} {d d' : Device} {vc : ℕ} {new : ViewController} {c : Pending}
  {callback : Callback} {postedJobs : JobTree}

theorem starts_nothing (same : d'.pending = d.pending) : Starts postedJobs callback d d' :=
  ⟨[], by simp [same], by simp⟩

theorem starts_one (same : d'.pending = d.pending ++ [c]) (next : Next postedJobs callback c.callback) :
    Starts postedJobs callback d d' :=
  ⟨[c], same, by simpa using next⟩

/-- Of the home screens one loads a list, that of the new jobs. -/
theorem starts_viewDidLoad {screen : Screen} (next : Next postedJobs callback .newJobs)
    (same : d'.pending = d.pending) :
    Starts postedJobs callback d (d'.viewDidLoad vc screen.viewController) := by
  refine ⟨_, same ▸ pending_viewDidLoad, fun c member => ?_⟩
  obtain ⟨load, loads, rfl⟩ := Option.map_eq_some_iff.mp (Option.mem_toList.mp member)
  cases screen <;> cases loads
  exact next

theorem starts_presentHome {screen : Screen} (next : Next postedJobs callback .newJobs)
    (same : d'.pending = d.pending) :
    Starts postedJobs callback d (d'.present vc screen.viewController) := by
  unfold present
  split
  · exact starts_viewDidLoad next same
  · exact starts_nothing same

/-- A `SignInVC` loads nothing. -/
theorem pending_presentSignInVC (signUp : Bool) :
    (d.present vc (.signInVC signUp)).pending = d.pending := by
  unfold present
  split <;> rfl

@[simp] theorem pending_attempt {α : Type} {x : Except Trap α} :
    (d.attempt x).pending = d.pending := by
  obtain ⟨ended, same⟩ := attempt_eq d x
  rw [same]

@[simp] theorem pending_presentAlert : (d.presentAlert vc).pending = d.pending := by
  obtain ⟨alert, same⟩ := presentAlert_eq d vc
  rw [same]

theorem pending_handleUsers {latitude longitude : String} {form : JobForm} (calls : List Bool) :
    (calls.foldl (handleUser latitude longitude form c) d).pending = d.pending := by
  induction calls generalizing d with
  | nil => rfl
  | cons success calls ih =>
      rw [List.foldl_cons, ih]
      unfold handleUser
      split
      · split <;> simp
      · rfl

/-- Each removal of `RemoveJob` loads the list anew. -/
theorem starts_removeKeys (jobIndex : ℕ) (keys : List String) :
    Starts postedJobs (.removeJob jobIndex) d (keys.foldl (removeKey c) d) := by
  induction keys generalizing d with
  | nil => exact starts_nothing rfl
  | cons key keys ih =>
      obtain ⟨more, pending, loads⟩ := ih (d := removeKey c d key)
      refine ⟨{ c with callback := .myPostedJobs } :: more, ?_, fun c' member => ?_⟩
      · rw [List.foldl_cons, pending, removeKey, pending_enqueue, pending_setJobs, List.append_assoc]
        rfl
      · rcases List.mem_cons.mp member with rfl | later
        · exact .removeJob jobIndex
        · exact loads c' later

/-- What a callback starts comes next in its chain. -/
theorem starts_run (now : Moment) : Starts now.postedJobs c.callback d (d.run web E c now) := by
  cases is : c.callback with
  | launch email =>
      simp only [Device.run, is]
      split
      · exact starts_viewDidLoad (.launch email) rfl
      · exact starts_nothing rfl
  | loginUser =>
      simp only [Device.run, is]
      cases now.authDataResult with
      | none => exact starts_nothing pending_presentAlert
      | some user => exact starts_one rfl (.loginUser _)
  | accountType uid =>
      simp only [Device.run, is]
      split
      · exact starts_presentHome (.accountType uid) rfl
      · exact starts_nothing rfl
  | registerUser handeler =>
      simp only [Device.run, is]
      cases now.authDataResult with
      | none => exact starts_nothing pending_presentAlert
      | some user => exact starts_presentHome (.registerUser handeler) rfl
  | getJsonData url =>
      simp only [Device.run, is]
      split
      · exact starts_one rfl (.getJsonData ..)
      · exact starts_nothing rfl
      · exact starts_nothing rfl
  | onMain latitude longitude =>
      simp only [Device.run, is]
      split
      · split
        · split
          · exact starts_one rfl (.onMain ..)
          · exact starts_nothing rfl
        · exact starts_nothing pending_presentAlert
      · exact starts_nothing rfl
  | findUser email latitude longitude =>
      simp only [Device.run, is]
      split
      · exact starts_nothing (pending_handleUsers _)
      · exact starts_nothing (pending_handleUsers _)
  | applyToJob jobID uuid =>
      simp only [Device.run, is]
      split
      · split <;> exact starts_nothing rfl
      · exact starts_nothing rfl
      · exact starts_nothing rfl
  | removeJob jobIndex =>
      simp only [Device.run, is]
      exact starts_removeKeys jobIndex _
  | myPostedJobs =>
      simp only [Device.run, is]
      exact starts_nothing rfl
  | applicants =>
      simp only [Device.run, is]
      exact starts_nothing rfl
  | newJobs =>
      simp only [Device.run, is]
      exact starts_nothing rfl
  | showUserInfo email =>
      simp only [Device.run, is]
      exact starts_nothing rfl
  | declineApplicant tag =>
      simp only [Device.run, is]
      refine ⟨_, rfl, fun c' member => ?_⟩
      obtain ⟨call, _, rfl⟩ := List.mem_map.mp member
      exact .declineApplicant tag _ _
  | removeApplication email jobTitle =>
      simp only [Device.run, is]
      exact starts_one rfl (.removeApplication email jobTitle)
  | removeApplicationIn email jobTitle jobs =>
      simp only [Device.run, is]
      exact starts_nothing rfl

/-- **What a step starts.** -/
theorem starts_fire {index : ℕ} {now : Moment} (fired : d.step web E (.fire index now) = some d') :
    ∃ c more, d.pending[index]? = some c ∧ d'.pending = d.pending.eraseIdx index ++ more ∧
      ∀ c' ∈ more, Next now.postedJobs c.callback c'.callback := by
  obtain ⟨_, c, at_, rfl⟩ := step_fire fired
  obtain ⟨more, pending, later⟩ : Starts now.postedJobs c.callback
    { d with pending := d.pending.eraseIdx index }
    (Device.run web E { d with pending := d.pending.eraseIdx index } c now) := starts_run now
  exact ⟨c, more, at_, pending, later⟩

/-! ## What a tap starts -/

/-- It is started from the screen that is shown: a home's callback from a screen of that home,
and a registration by a form that asks for it.  A second read never comes first. -/
structure StartedOn (d : Device) (c : Pending) : Prop where
  role : ∀ screen, c.callback.role = some screen →
    ∃ shown, d.presented.getLast? = some shown ∧ shown.role = screen
  form : ∀ handeler, c.callback = .registerUser handeler → ∃ form, signUp form = .ok (some handeler)
  noRead : ∀ email jobTitle jobs, c.callback ≠ .removeApplicationIn email jobTitle jobs

/-- `present` starts the load of the new screen. -/
theorem mem_present {c : Pending} (member : c ∈ (d.present vc new).pending) :
    c ∈ d.pending ∨ load new = some c.callback := by
  unfold present at member
  split at member
  · rcases mem_viewDidLoad.mp member with before | ⟨callback, loads, rfl⟩
    · exact .inl before
    · exact .inr loads
  · exact .inl member

/-- The lists of the posters' screens are loaded for posters. -/
theorem role_of_load (posters : new.isPosters = true) (loads : load new = some callback) :
    callback.role = some .createJobVC := by
  cases new with
  | signInVC | exploreVC => cases posters
  | createJobVC => cases loads
  | postedJobsVC | showApplicantsVC =>
      cases loads
      rfl

theorem mem_start {c : Pending} {self : ViewController} (last : d.presented.getLast? = some self)
    (role : ∀ screen, callback.role = some screen → self.role = screen)
    (form : ∀ handeler, callback = .registerUser handeler →
      ∃ form, signUp form = .ok (some handeler))
    (noRead : ∀ email jobTitle jobs, callback ≠ .removeApplicationIn email jobTitle jobs)
    (member : c ∈ (d.start vc callback).pending) : c ∈ d.pending ∨ StartedOn d c := by
  rcases List.mem_append.mp member with before | new
  · exact .inl before
  · obtain rfl := List.mem_singleton.mp new
    exact .inr ⟨fun screen is => ⟨self, last, role screen is⟩, form, noRead⟩

/-- **What a tap starts.** -/
theorem starts_tap {t : Tap} (tapped : d.tap web E t = some d') {c : Pending}
    (member : c ∈ d'.pending) : c ∈ d.pending ∨ StartedOn d c := by
  unfold Device.tap at tapped
  split at tapped
  · cases t with
    | ok =>
        cases tapped
        exact .inl member
    | _ => cases tapped
  split at tapped
  · rename_i last
    cases tapped
    exact mem_start last (by simp [Callback.role]) (by simp) (by simp) member
  · cases tapped
    exact .inl member
  · rename_i form last
    split at tapped <;> cases tapped
    · rename_i handeler asked
      refine mem_start last (by simp [Callback.role]) (fun handeler' same => ⟨form, ?_⟩) (by simp)
        member
      cases same
      exact asked
    · exact .inl member
    · exact .inl member
  · cases tapped
    exact .inl (pending_presentSignInVC (d := d) false ▸ member)
  · cases tapped
    exact .inl (pending_presentSignInVC (d := { d with currentUser := none }) false ▸ member)
  · rename_i last
    cases tapped
    exact mem_start last (by simp [Callback.role, ViewController.role]) (by simp) (by simp) member
  · cases tapped
    exact .inl (pending_presentSignInVC (d := { d with currentUser := none }) false ▸ member)
  · rename_i last
    split at tapped <;> cases tapped
    · exact mem_start last (by simp [Callback.role, ViewController.role]) (by simp) (by simp) member
    · exact .inl member
  · rename_i last
    cases tapped
    exact mem_start last (by simp [Callback.role, ViewController.role]) (by simp) (by simp) member
  · obtain ⟨_, _, rfl⟩ := Option.map_eq_some_iff.mp tapped
    exact .inl (pending_attempt ▸ member)
  · obtain ⟨_, _, rfl⟩ := Option.map_eq_some_iff.mp tapped
    exact .inl (pending_attempt ▸ member)
  · rename_i last
    obtain ⟨_, _, rfl⟩ := Option.map_eq_some_iff.mp tapped
    split at member
    · exact mem_start last (by simp [Callback.role, ViewController.role]) (by simp) (by simp) member
    · exact .inl member
  · rename_i last
    obtain ⟨_, _, rfl⟩ := Option.map_eq_some_iff.mp tapped
    exact mem_start last (by simp [Callback.role, ViewController.role]) (by simp) (by simp) member
  · rename_i self new last
    split at tapped <;> cases tapped
    rename_i navigates
    -- both are screens of a poster's
    obtain ⟨role, posters⟩ : self.role = .createJobVC ∧ new.isPosters = true := by
      cases self <;> cases new <;> first | exact ⟨rfl, rfl⟩ | cases navigates
    refine (mem_present member).imp_right fun loads =>
      ⟨fun screen is => ⟨self, last, ?_⟩, ?_, ?_⟩
    · exact role.trans (Option.some.inj ((role_of_load posters loads).symm.trans is))
    all_goals rcases load_cases loads with is | is | is <;> simp [is]
  · cases tapped

/-- `SignOut` starts nothing. -/
theorem tap_signOut (tapped : d.tap web E .signOut = some d') :
    d'.currentUser = none ∧ d'.pending = d.pending := by
  have signedOut : d' = d.signOut := by
    unfold Device.tap at tapped
    split at tapped
    · cases tapped
    · split at tapped <;> first | contradiction | cases tapped; rfl
  subst signedOut
  unfold signOut present
  split <;> exact ⟨rfl, rfl⟩

/-! ## Who is signed in -/

@[simp] theorem currentUser_present : (d.present vc new).currentUser = d.currentUser := by
  unfold present
  split <;> simp

@[simp] theorem currentUser_attempt {α : Type} {x : Except Trap α} :
    (d.attempt x).currentUser = d.currentUser := by
  obtain ⟨ended, same⟩ := attempt_eq d x
  rw [same]

@[simp] theorem currentUser_presentAlert : (d.presentAlert vc).currentUser = d.currentUser := by
  obtain ⟨alert, same⟩ := presentAlert_eq d vc
  rw [same]

/-- A tap signs nobody in, and only `SignOut` signs the user out. -/
theorem currentUser_tap {t : Tap} (tapped : d.tap web E t = some d') :
    d'.currentUser = match t with | .signOut => none | _ => d.currentUser := by
  unfold Device.tap at tapped
  split at tapped
  · cases t <;> cases tapped
    rfl
  · split at tapped
    · cases tapped; rfl
    · cases tapped; rfl
    · split at tapped <;> cases tapped <;> rfl
    · cases tapped; simp
    · cases tapped; simp [signOut]
    · cases tapped; rfl
    · cases tapped; simp [signOut]
    · split at tapped <;> cases tapped <;> rfl
    · cases tapped; rfl
    · obtain ⟨_, _, rfl⟩ := Option.map_eq_some_iff.mp tapped
      simp
    · obtain ⟨_, _, rfl⟩ := Option.map_eq_some_iff.mp tapped
      simp
    · obtain ⟨_, _, rfl⟩ := Option.map_eq_some_iff.mp tapped
      dsimp only
      split <;> rfl
    · obtain ⟨_, _, rfl⟩ := Option.map_eq_some_iff.mp tapped
      rfl
    · split at tapped <;> cases tapped
      simp
    · cases tapped

theorem currentUser_handleUsers {latitude longitude : String} {form : JobForm} (calls : List Bool) :
    (calls.foldl (handleUser latitude longitude form c) d).currentUser = d.currentUser := by
  induction calls generalizing d with
  | nil => rfl
  | cons success calls ih =>
      rw [List.foldl_cons, ih]
      unfold handleUser
      split
      · split <;> simp
      · rfl

theorem currentUser_removeKeys (keys : List String) :
    (keys.foldl (removeKey c) d).currentUser = d.currentUser := by
  induction keys generalizing d with
  | nil => rfl
  | cons key keys ih => rw [List.foldl_cons, ih, removeKey, currentUser_enqueue, currentUser_setJobs]

/-- **Who is signed in after a callback.** -/
theorem currentUser_run (now : Moment) : (d.run web E c now).currentUser =
    if c.callback.authenticates then now.authDataResult.or d.currentUser else d.currentUser := by
  cases is : c.callback with
  | launch email =>
      simp only [Device.run, is]
      split <;> simp [Callback.authenticates]
  | loginUser =>
      cases answer : now.authDataResult <;> simp [Device.run, is, answer, Callback.authenticates]
  | accountType uid =>
      simp only [Device.run, is]
      split <;> simp [Device.trap, Callback.authenticates]
  | registerUser handeler =>
      cases answer : now.authDataResult <;> simp [Device.run, is, answer, Callback.authenticates]
  | getJsonData url =>
      simp only [Device.run, is]
      split <;> simp [Device.trap, Callback.authenticates]
  | onMain latitude longitude =>
      simp only [Device.run, is]
      split
      · split
        · split <;> simp [Callback.authenticates]
        · simp [Callback.authenticates]
      · rfl
  | findUser email latitude longitude =>
      simp only [Device.run, is]
      split <;> exact currentUser_handleUsers _
  | applyToJob jobID uuid =>
      simp only [Device.run, is]
      split
      · split <;> rfl
      · rfl
      · rfl
  | removeJob jobIndex =>
      simp only [Device.run, is]
      exact currentUser_removeKeys _
  | newJobs | myPostedJobs | applicants =>
      simp only [Device.run, is]
      rfl
  | showUserInfo email =>
      simp only [Device.run, is]
      rfl
  | declineApplicant tag =>
      simp only [Device.run, is]
      rfl
  | removeApplication email jobTitle =>
      simp only [Device.run, is]
      rfl
  | removeApplicationIn email jobTitle jobs =>
      simp only [Device.run, is]
      rfl

end Started

end Device

end JobFinder.Controller
