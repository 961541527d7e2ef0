/-
# Controller.Device -- one device, from launch to launch

The screens of the app are presented one over the other and never dismissed: a sign-out
presents a new `SignInVC`, the navigation bar of the posters' screens presents the next
screen, and only an alert goes away again.  A view controller that already presents
another one presents nothing more.  Callbacks may run long after the tap that started
them, on whatever screen is then shown and for whoever is then signed in: they read
`Auth.auth().currentUser!` when they run.

`Device.step` is one tap, one callback with what it finds at that moment, a cell of a list
being set up, or the app being launched anew, which presents the first screen again and
forgets the callbacks.  The screens that list something have their list here, so that a cell,
and a tap on one, find what a load has put there.
`Sane` is what every run keeps, and gives the two safety results here: a device that is
signed out shows a `SignInVC` (`signedOut_shows_signInVC`), and the searchers' screen and
the posters' screens are never presented over each other without a `SignInVC` between
(`roles_apart`).
-/
import JobFinder.Controller.ApplicantCells
import JobFinder.Controller.CreateJob
import JobFinder.Controller.EditJob
import JobFinder.Controller.Explore
import JobFinder.Controller.JobListing
import JobFinder.Controller.SignIn

namespace JobFinder.Controller

open JobFinder.Theory JobFinder.Database JobFinder.Model

set_option autoImplicit false

/-- The view controllers that are presented over one another.  The view of a `SignUpVC`
lies over that of the `SignInVC` it is a child of, and it presents as that one does. -/
inductive ViewController where
  | signInVC (signUp : Bool)
  | exploreVC
  | createJobVC
  | postedJobsVC
  | showApplicantsVC
deriving DecidableEq, Repr

/-- The view controller of a home screen. -/
def Screen.viewController : Screen → ViewController
  | .signInVC => .signInVC false
  | .createJobVC => .createJobVC
  | .exploreVC => .exploreVC

namespace ViewController

/-- The screens with the posters' navigation bar. -/
def isPosters : ViewController → Bool
  | createJobVC | postedJobsVC | showApplicantsVC => true
  | _ => false

/-- The home screen a screen belongs to. -/
def role : ViewController → Screen
  | signInVC _ => .signInVC
  | exploreVC => .exploreVC
  | createJobVC | postedJobsVC | showApplicantsVC => .createJobVC

/-- The buttons of the navigation bar: each of the three screens leads to the other two. -/
def navigatesTo (self vc : ViewController) : Bool := self.isPosters && vc.isPosters && self != vc

end ViewController

/-- A chain of callbacks that is under way, as far as it has come. -/
inductive Callback where
  /-- The lookup of `GetUserAccountType` at the launch. -/
  | launch (email : String)
  /-- `LoginUser`, and then the read of the account type. -/
  | loginUser
  | accountType (uid : String)
  /-- `RegisterUser`. -/
  | registerUser (self : AccountHandeler)
  /-- `CreateJob`: the request to the geocoder, the block on the main queue, the lookup. -/
  | getJsonData (url : String)
  | onMain (latitude longitude : String)
  | findUser (email latitude longitude : String)
  /-- The read of `ApplyToJob`. -/
  | applyToJob (jobID : ℕ) (uuid : String)
  /-- The read of `RemoveJob`. -/
  | removeJob (jobIndex : ℕ)
  /-- The reads of `SetNewJobs` and of the two functions `SetMyPostedJobs`. -/
  | newJobs
  | myPostedJobs
  | applicants
  /-- The lookup of `ShowUserInfo`. -/
  | showUserInfo (email : String)
  /-- The read of `DeclineApplicant`, and then the two reads of a `RemoveApplication`. -/
  | declineApplicant (tag : ℕ)
  | removeApplication (email jobTitle : String)
  | removeApplicationIn (email jobTitle : String) (jobs : Dict String JobRecord)

/-- It ends with the user signed in. -/
def Callback.signsIn : Callback → Bool
  | loginUser | accountType _ | registerUser _ => true
  | _ => false

/-- A callback that is pending: who was signed in when its chain was started, by a tap or by
a screen that loaded, and the position of the view controller that presents what it shows. -/
structure Pending where
  startedBy : Option String
  vc : ℕ
  callback : Callback

/-- What a callback finds when it runs. -/
structure Moment where
  users : UserTree
  postedJobs : JobTree
  jobForm : JobForm
  signUpForm : SignUpForm
  authDataResult : Option AuthDataResult

/-- What the callbacks find after Eve has registered as a searcher. -/
def Moment.sample : Moment where
  users := AList.singleton "u" ⟨"password", "eve@x", "Eve", "Hill", "Job Searcher"⟩
  postedJobs := .single "b" (.sample "ann@x")
  jobForm := .sample
  signUpForm := .sample
  authDataResult := some SignUp.sampleAccount

/-- What they find while Ann, a poster, is the only one with a profile. -/
def Moment.ofAnn : Moment := { Moment.sample with
  users := AList.singleton "a" ⟨"password", "ann@x", "Ann", "Hall", "Job Poster"⟩
  authDataResult := some ⟨"a", "password", "ann@x"⟩ }

/-- What a device has the database write. -/
inductive Write where
  | createJob (writes : List (JobField × String))
  | fileApplication (hashID uuid email : String)
  | createDBUser (write : ProfileWrite)
  | removeJob (key : String)
  | removeApplicant (job applicant : String)

/-- Why the app has ended: it trapped, and it did so because nobody was signed in. -/
inductive Ended where
  | trapped (trap : Trap)
  | signedOut
deriving DecidableEq, Repr

/-- The state of the app on a device, with the lists of the view controllers at each
position. -/
structure Device where
  currentUser : Option AuthDataResult
  presented : List ViewController
  jobs : ℕ → Counted JobRecord
  applicants : ℕ → Counted Application
  alert : Bool
  pending : List Pending
  issued : List (Option String × Write)
  ended : Option Ended

namespace Device

/-- `Auth.auth().currentUser?.email`. -/
def email (d : Device) : Option String := d.currentUser.map AuthDataResult.email

/-- The position of the view controller that is shown. -/
def top (d : Device) : ℕ := d.presented.length - 1

/-- The app just launched.  Who is signed in already waits for the lookup. -/
def launched (currentUser : Option AuthDataResult) : Device where
  currentUser := currentUser
  presented := if currentUser.isSome then [] else [.signInVC false]
  jobs _ := .empty
  applicants _ := .empty
  alert := false
  pending := (currentUser.map fun user => ⟨some user.email, 0, .launch user.email⟩).toList
  issued := []
  ended := none

/-- A callback is pending. -/
def enqueue (d : Device) (c : Pending) : Device := { d with pending := d.pending ++ [c] }

/-- A chain of callbacks is started. -/
def start (d : Device) (vc : ℕ) (callback : Callback) : Device := d.enqueue ⟨d.email, vc, callback⟩

/-- The list of jobs of a view controller. -/
def setJobs (d : Device) (vc : ℕ) (jobs : Counted JobRecord) : Device :=
  { d with jobs := Function.update d.jobs vc jobs }

/-- Its list of applicants. -/
def setApplicants (d : Device) (vc : ℕ) (applicants : Counted Application) : Device :=
  { d with applicants := Function.update d.applicants vc applicants }

/-- `viewDidLoad`: the three screens with a list clear it and load it. -/
def viewDidLoad (d : Device) (vc : ℕ) : ViewController → Device
  | .exploreVC => (d.setJobs vc .empty).start vc .newJobs
  | .postedJobsVC => (d.setJobs vc .empty).start vc .myPostedJobs
  | .showApplicantsVC => (d.setApplicants vc .empty).start vc .applicants
  | _ => d

/-- `present(_:animated:)` on the view controller at a position, which does nothing if that
one already presents another. -/
def present (d : Device) (vc : ℕ) (new : ViewController) : Device :=
  if vc + 1 = d.presented.length ∧ d.alert = false then
    { d with presented := d.presented ++ [new] }.viewDidLoad d.presented.length new
  else d

/-- The same for an alert. -/
def presentAlert (d : Device) (vc : ℕ) : Device :=
  if vc + 1 = d.presented.length ∧ d.alert = false then { d with alert := true } else d

/-- The app traps. -/
def trap (d : Device) (trap : Trap) : Device := { d with ended := some (.trapped trap) }

/-- The app goes on, unless this traps. -/
def attempt {α : Type} (d : Device) : Except Trap α → Device
  | .ok _ => d
  | .error trap => d.trap trap

/-- `SignOut`, on the home screen that is shown. -/
def signOut (d : Device) : Device := { d with currentUser := none }.present d.top (.signInVC false)

/-! ## The cells of a list -/

/-- The collection view of a view controller sets up the cell of a row.  It knows the count
of the list, which only changes where it is reloaded. -/
def display (E : Enumeration) (d : Device) (vc row : ℕ) : Option Device :=
  match d.presented[vc]? with
  | some .exploreVC =>
      if row < (d.jobs vc).count then some (d.attempt (Explore.cellForItemAt E (d.jobs vc) row))
      else none
  | some .postedJobsVC =>
      if row < (d.jobs vc).count then some (d.attempt (PostedJobs.cellForItemAt E (d.jobs vc) row))
      else none
  | some .showApplicantsVC =>
      if row < (d.applicants vc).count then
        some (d.attempt (ShowApplicants.cellForItemAt E (d.applicants vc) .new row))
      else none
  | _ => none

/-- The cell that a row of jobs has on the screen, once it has been set up. -/
def jobCell (E : Enumeration) (d : Device) (vc row : ℕ) : Option JobCell :=
  if row < (d.jobs vc).count then (PostedJobs.cellForItemAt E (d.jobs vc) row).toOption else none

/-- The cell that a row of applicants has there. -/
def applicantCell (E : Enumeration) (d : Device) (vc row : ℕ) : Option ApplicantCell :=
  if row < (d.applicants vc).count then
    (ShowApplicants.cellForItemAt E (d.applicants vc) .new row).toOption
  else none

/-! ## What the user taps -/

inductive Tap where
  | ok
  | login
  | presentSignUpVC
  | signUp (form : SignUpForm)
  | back
  | signOut
  | navigate (new : ViewController)
  | createJob (form : JobForm)
  | applyToJob (jobID : ℕ) (uuid : String)
  | removeJob (jobIndex : ℕ)
  /-- A cell of a list of jobs, on a device with this location manager. -/
  | select (row : ℕ) (manager : LocationManager)
  /-- The buttons of an applicant's cell. -/
  | showUserInfo (tag : ℕ)
  | declineApplicant (tag : ℕ)

/-- A tap on the view controller that is shown, or on the alert over it. -/
def tap (web : Web) (E : Enumeration) (d : Device) (t : Tap) : Option Device :=
  if d.alert then
    match t with
    | .ok => some { d with alert := false }
    | _ => none
  else
    match d.presented.getLast?, t with
    | some (.signInVC false), .login => some (d.start d.top .loginUser)
    | some (.signInVC false), .presentSignUpVC =>
        some { d with presented := d.presented.dropLast ++ [.signInVC true] }
    | some (.signInVC true), .signUp form =>
        match Controller.signUp form with
        | .ok (some self) => some (d.start d.top (.registerUser self))
        | .ok none => some d
        | .error trap => some (d.trap trap)
    | some (.signInVC true), .back => some (d.present d.top (.signInVC false))
    | some .exploreVC, .signOut => some d.signOut
    | some .exploreVC, .applyToJob jobID uuid => some (d.start d.top (.applyToJob jobID uuid))
    | some .createJobVC, .signOut => some d.signOut
    | some .createJobVC, .createJob form =>
        match CreateJob.createJob web form with
        | .ok url => some (d.start d.top (.getJsonData url))
        | .error trap => some (d.trap trap)
    | some .postedJobsVC, .removeJob jobIndex => some (d.start d.top (.removeJob jobIndex))
    | some .exploreVC, .select row manager =>
        (d.jobCell E d.top row).map fun _ =>
          d.attempt (Explore.didSelectItemAt E manager (d.jobs d.top) row)
    | some .postedJobsVC, .select row _ =>
        (d.jobCell E d.top row).map fun selectedCell =>
          d.attempt (PostedJobs.didSelectItemAt E selectedCell (d.jobs d.top) row)
    | some .showApplicantsVC, .showUserInfo tag =>
        (d.applicantCell E d.top tag).map fun _ =>
          match (d.applicants d.top).row E tag with
          | .ok data => d.start d.top (.showUserInfo data.email)
          | .error trap => d.trap trap
    | some .showApplicantsVC, .declineApplicant tag =>
        (d.applicantCell E d.top tag).map fun _ => d.start d.top (.declineApplicant tag)
    | some self, .navigate new =>
        if self.navigatesTo new then some (d.present d.top new) else none
    | _, _ => none

/-! ## What a callback does -/

/-- The writes of `CreateJob` before the one that reads the current user. -/
def openingWrites (latitude longitude : String) (form : JobForm) : List (JobField × String) :=
  [(.title, form.jobTitleTxt),
    (.latt, latitude),
    (.longt, longitude),
    (.literal, form.jobLocationTxt),
    (.salary, form.jobSalaryTxt),
    (.description, form.jobDescriptionTxt)]

example (latitude longitude : String) (form : JobForm) (email : String) :
    CreateJob.jobWrites latitude longitude form email =
      openingWrites latitude longitude form ++ [(.jobPoster, email)] := rfl

/-- One handler call of `FindUser` in `CreateJob`: it makes the seven writes and shows an
alert, or it traps before the last write. -/
def handleUser (latitude longitude : String) (form : JobForm) (self : Pending) (d : Device)
    (success : Bool) : Device :=
  if success ∧ d.ended = none then
    match d.email with
    | some email =>
        { d with issued := d.issued ++ [(self.startedBy,
          Write.createJob (CreateJob.jobWrites latitude longitude form email))] }.presentAlert self.vc
    | none =>
        { d with
          issued := d.issued ++ [(self.startedBy,
            Write.createJob (openingWrites latitude longitude form))]
          ended := some .signedOut }
  else d

/-- One job that `RemoveJob` removes: it also has the list cleared and loaded anew. -/
def removeKey (self : Pending) (d : Device) (key : String) : Device :=
  ({ d with issued := d.issued ++ [(self.startedBy, Write.removeJob key)] }.setJobs self.vc
    .empty).enqueue { self with callback := .myPostedJobs }

/-- `SetMyPostedJobs`, of either screen, when its read is delivered: why it ends the app,
if it does.  Each record's poster is cast, and then compared with the current user. -/
def comparePosters (E : Enumeration) (d : Device) (snapshot : JobTree)
    (load : String → Option Trap) : Option Ended :=
  match d.email with
  | some me => (load me).map .trapped
  | none =>
      (E.order snapshot.jobs).head?.map fun i =>
        match i.2.cast .jobPoster with
        | .ok _ => .signedOut
        | .error trap => .trapped trap

/-- A callback runs; it is no longer among those that are pending. -/
def run (web : Web) (E : Enumeration) (d : Device) (self : Pending) (now : Moment) : Device :=
  match self.callback with
  | .launch email =>
      let screens := (getUserAccountType E email now.users).map fun result =>
        if result = "Job Searcher" then Screen.exploreVC else .createJobVC
      -- a root view controller that the next one replaces at once is not followed any further
      match screens.out.getLast? with
      | some screen =>
          { d with
            presented := [screen.viewController]
            ended := screens.trap.map .trapped }.viewDidLoad 0 screen.viewController
      | none => { d with ended := screens.trap.map .trapped }
  | .loginUser =>
      match now.authDataResult with
      | some user =>
          { d with currentUser := some user }.enqueue { self with callback := .accountType user.uid }
      | none => d.presentAlert self.vc
  | .accountType uid =>
      match signIn uid now.users with
      | .ok screen => d.present self.vc screen.viewController
      | .error trap => d.trap trap
  | .registerUser handeler =>
      match now.authDataResult with
      | some user =>
          { d with
            currentUser := some user
            issued := d.issued ++ ((handeler.registerUser (some user)).1.map fun write =>
              (self.startedBy, Write.createDBUser write)).toList }.present self.vc
            (homeScreen now.signUpForm.accountType).viewController
      | none => d.presentAlert self.vc
  | .getJsonData url =>
      match CreateJob.handleAnswer (web.answer url) with
      | .answered latitude longitude => d.enqueue { self with callback := .onMain latitude longitude }
      | .trapped trap => d.trap trap
      | _ => d
  | .onMain latitude longitude =>
      if now.jobForm.Filled then
        if !CreateJob.imprecise latitude then
          match d.email with
          | some email => d.enqueue { self with callback := .findUser email latitude longitude }
          | none => { d with ended := some .signedOut }
        else d.presentAlert self.vc
      else d
  | .findUser email latitude longitude =>
      let calls := Model.findUser E email now.users
      let handled := (calls.out.map Prod.snd).foldl
        (handleUser latitude longitude now.jobForm self) d
      if handled.ended = none then { handled with ended := calls.trap.map .trapped } else handled
  | .applyToJob jobID uuid =>
      match JobListing.applyToJob E jobID now.postedJobs with
      | .ok (some hashID) =>
          match d.email with
          | some email =>
              { d with issued := d.issued ++ [(self.startedBy, .fileApplication hashID uuid email)] }
          | none => { d with ended := some .signedOut }
      | .ok none => d
      | .error trap => d.trap trap
  | .removeJob jobIndex =>
      let removed := EditJob.removeJob E jobIndex now.postedJobs
      { removed.out.foldl (removeKey self) d with ended := removed.trap.map .trapped }
  | .newJobs => d.setJobs self.vc (Explore.setNewJobs E now.postedJobs (d.jobs self.vc))
  | .myPostedJobs =>
      { d.setJobs self.vc (match d.email with
          | some me => PostedJobs.setMyPostedJobs E me now.postedJobs (d.jobs self.vc)
          | none => d.jobs self.vc) with
        ended := comparePosters E d now.postedJobs fun me =>
          (PostedJobs.ownJobs E me now.postedJobs).trap }
  | .applicants =>
      { d.setApplicants self.vc (match d.email with
          | some me => ShowApplicants.setMyPostedJobs E me now.postedJobs (d.applicants self.vc)
          | none => d.applicants self.vc) with
        ended := comparePosters E d now.postedJobs fun me =>
          (ShowApplicants.myApplications E me now.postedJobs).trap }
  | .showUserInfo email => { d with ended := (Model.findUser E email now.users).trap.map .trapped }
  | .declineApplicant tag =>
      let calls := ShowApplicants.declineApplicant E (d.applicants self.vc) tag now.postedJobs
      { d with
        pending := d.pending ++ calls.out.map fun call =>
          { self with callback := .removeApplication call.1 call.2 }
        ended := calls.trap.map .trapped }
  | .removeApplication email jobTitle =>
      d.enqueue { self with
        callback := .removeApplicationIn email jobTitle (getPostedJobs now.postedJobs).1 }
  | .removeApplicationIn email jobTitle jobs =>
      let removed := Model.removeApplication E email jobTitle jobs now.postedJobs
      { d with
        issued := d.issued ++ removed.out.map fun path =>
          (self.startedBy, Write.removeApplicant path.1 path.2)
        ended := removed.trap.map .trapped }

/-- The app is launched anew, by whoever is signed in.  What it has issued stays issued. -/
def relaunched (d : Device) : Device := { launched d.currentUser with issued := d.issued }

inductive Event where
  | tap (tap : Tap)
  | fire (index : ℕ) (now : Moment)
  | display (vc row : ℕ)
  | relaunch

/-- One event.  An app that has ended does nothing more until it is launched anew. -/
def step (web : Web) (E : Enumeration) (d : Device) : Event → Option Device
  | .relaunch => some d.relaunched
  | .tap t => if d.ended = none then d.tap web E t else none
  | .fire index now =>
      if d.ended = none then
        d.pending[index]?.map fun self =>
          { d with pending := d.pending.eraseIdx index }.run web E self now
      else none
  | .display vc row => if d.ended = none then d.display E vc row else none

/-! ## What every run keeps -/

section Effects

variable {d : Device} {vc : ℕ} {new : ViewController} {callback : Callback} {c : Pending}

@[simp] theorem currentUser_enqueue : (d.enqueue c).currentUser = d.currentUser := rfl
@[simp] theorem presented_enqueue : (d.enqueue c).presented = d.presented := rfl
@[simp] theorem pending_enqueue : (d.enqueue c).pending = d.pending ++ [c] := rfl
@[simp] theorem pending_start :
    (d.start vc callback).pending = d.pending ++ [⟨d.email, vc, callback⟩] := rfl

@[simp] theorem currentUser_viewDidLoad : (d.viewDidLoad vc new).currentUser = d.currentUser := by
  cases new <;> rfl

@[simp] theorem presented_viewDidLoad : (d.viewDidLoad vc new).presented = d.presented := by
  cases new <;> rfl

@[simp] theorem issued_viewDidLoad : (d.viewDidLoad vc new).issued = d.issued := by
  cases new <;> rfl

@[simp] theorem ended_viewDidLoad : (d.viewDidLoad vc new).ended = d.ended := by
  cases new <;> rfl

/-- The load that a screen starts when its view has loaded. -/
def load : ViewController → Option Callback
  | .exploreVC => some .newJobs
  | .postedJobsVC => some .myPostedJobs
  | .showApplicantsVC => some .applicants
  | .signInVC _ | .createJobVC => none

theorem pending_viewDidLoad : (d.viewDidLoad vc new).pending =
    d.pending ++ ((load new).map fun callback => ⟨d.email, vc, callback⟩).toList := by
  cases new <;> first | rfl | exact (List.append_nil _).symm

/-- What `viewDidLoad` starts is the load of the new screen. -/
theorem mem_viewDidLoad {c : Pending} : c ∈ (d.viewDidLoad vc new).pending ↔
    c ∈ d.pending ∨ ∃ callback, load new = some callback ∧ c = ⟨d.email, vc, callback⟩ := by
  rw [pending_viewDidLoad, List.mem_append, Option.mem_toList, Option.map_eq_some_iff]
  simp only [eq_comm]

/-- A load is neither a launch nor a part of a sign-in. -/
theorem load_cases {callback : Callback} (loads : load new = some callback) :
    callback = .newJobs ∨ callback = .myPostedJobs ∨ callback = .applicants := by
  cases new <;> simp_all [load, eq_comm]

@[simp] theorem currentUser_setJobs {jobs : Counted JobRecord} :
    (d.setJobs vc jobs).currentUser = d.currentUser := rfl
@[simp] theorem pending_setJobs {jobs : Counted JobRecord} :
    (d.setJobs vc jobs).pending = d.pending := rfl

/-- Only the end of the app is at stake. -/
theorem attempt_eq {α : Type} (d : Device) (x : Except Trap α) :
    ∃ ended, d.attempt x = { d with ended := ended } := by
  cases x with
  | ok _ => exact ⟨d.ended, rfl⟩
  | error trap => exact ⟨_, rfl⟩

/-- A cell that is set up changes nothing, unless the app ends there. -/
theorem display_eq {d' : Device} {E : Enumeration} {row : ℕ} (displayed : d.display E vc row = some d') :
    ∃ ended, d' = { d with ended := ended } := by
  have attempted {α : Type} (x : Except Trap α) {n : ℕ}
      (displayed : (if row < n then some (d.attempt x) else none) = some d') :
      ∃ ended, d' = { d with ended := ended } := by
    split at displayed <;> cases displayed
    exact attempt_eq d x
  unfold display at displayed
  split at displayed
  · exact attempted _ displayed
  · exact attempted _ displayed
  · exact attempted _ displayed
  · cases displayed

/-! An app that has ended does nothing until it is launched again. -/

theorem step_tap {web : Web} {E : Enumeration} {d' : Device} {t : Tap}
    (stepped : d.step web E (.tap t) = some d') : d.ended = none ∧ d.tap web E t = some d' := by
  simp only [step] at stepped
  split at stepped
  · exact ⟨‹_›, stepped⟩
  · cases stepped

theorem step_fire {web : Web} {E : Enumeration} {d' : Device} {index : ℕ} {now : Moment}
    (stepped : d.step web E (.fire index now) = some d') :
    d.ended = none ∧ ∃ c, d.pending[index]? = some c ∧
      d' = { d with pending := d.pending.eraseIdx index }.run web E c now := by
  simp only [step] at stepped
  split at stepped
  · obtain ⟨c, at_, rfl⟩ := Option.map_eq_some_iff.mp stepped
    exact ⟨‹_›, c, at_, rfl⟩
  · cases stepped

theorem step_display {web : Web} {E : Enumeration} {d' : Device} {row : ℕ}
    (stepped : d.step web E (.display vc row) = some d') :
    d.ended = none ∧ d.display E vc row = some d' := by
  simp only [step] at stepped
  split at stepped
  · exact ⟨‹_›, stepped⟩
  · cases stepped

/-- A screen that already presents another presents nothing. -/
theorem present_of_covered (covered : ¬ (vc + 1 = d.presented.length ∧ d.alert = false)) :
    d.present vc new = d := if_neg covered

theorem present_of_shown (shown : vc + 1 = d.presented.length) (alert : d.alert = false) :
    d.present vc new = { d with presented := d.presented ++ [new] }.viewDidLoad d.presented.length new :=
  if_pos ⟨shown, alert⟩

/-- An alert changes nothing else. -/
theorem presentAlert_eq (d : Device) (vc : ℕ) :
    ∃ alert, d.presentAlert vc = { d with alert := alert } := by
  unfold presentAlert
  split
  · exact ⟨true, rfl⟩
  · exact ⟨d.alert, rfl⟩

theorem email_presentAlert : (d.presentAlert vc).email = d.email := by
  obtain ⟨alert, same⟩ := presentAlert_eq d vc
  rw [same]
  rfl

end Effects

/-! ## What every run keeps -/

/-- The screens that a screen may present. -/
def leadsTo : ViewController → ViewController → Bool
  | .signInVC _, new => !new.isPosters || new = .createJobVC
  | .exploreVC, .signInVC _ => true
  | .exploreVC, _ => false
  | self, .signInVC _ => self.isPosters
  | self, new => self.navigatesTo new

/-- The view controller that a callback belongs to is there, and what signs a user in
belongs to a `SignInVC`. -/
structure Placed (presented : List ViewController) (c : Pending) : Prop where
  below : c.vc < presented.length
  signInVC : c.callback.signsIn = true → ∃ signUp, presented[c.vc]? = some (.signInVC signUp)
  notLaunch : ∀ email, c.callback ≠ .launch email

/-- The app has launched, and waits for the lookup. -/
structure Launching (d : Device) : Prop where
  presented : d.presented = []
  pending : d.ended = none → ∃ user, d.currentUser = some user ∧
    d.pending = [⟨some user.email, 0, .launch user.email⟩]
  signedIn : d.currentUser ≠ none

/-- The app shows a screen.  If nobody is signed in it is a `SignInVC`, and no sign-in that
is still under way can present another. -/
structure Steady (d : Device) : Prop where
  shown : d.presented ≠ []
  chain : d.presented.IsChain fun self new => leadsTo self new = true
  placed : ∀ c ∈ d.pending, Placed d.presented c
  signedOut : d.currentUser = none → (∃ signUp, d.presented.getLast? = some (.signInVC signUp)) ∧
    ∀ c ∈ d.pending, ∀ uid, c.callback = .accountType uid → c.vc + 1 < d.presented.length

section Steady

variable {d d' : Device} {vc : ℕ} {self new : ViewController} {callback : Callback} {c : Pending}
  {presented : List ViewController}

theorem Placed.append (placed : Placed presented c) (more : List ViewController) :
    Placed (presented ++ more) c where
  below := by
    rw [List.length_append]
    exact Nat.lt_add_right _ placed.below
  signInVC signs := by
    rw [List.getElem?_append_left placed.below]
    exact placed.signInVC signs
  notLaunch := placed.notLaunch

/-- Only the screens, the user and what is pending matter. -/
theorem Steady.mono (steady : Steady d) (user : d'.currentUser = d.currentUser)
    (same : d'.presented = d.presented) (fewer : ∀ c ∈ d'.pending, c ∈ d.pending) : Steady d' where
  shown := same ▸ steady.shown
  chain := same ▸ steady.chain
  placed c member := same ▸ steady.placed c (fewer c member)
  signedOut none_ := by
    obtain ⟨last, covered⟩ := steady.signedOut (user ▸ none_)
    rw [same]
    exact ⟨last, fun c member => covered c (fewer c member)⟩

/-- Someone signs in. -/
theorem Steady.signIn (steady : Steady d) (user : AuthDataResult) :
    Steady { d with currentUser := some user } where
  shown := steady.shown
  chain := steady.chain
  placed := steady.placed
  signedOut none_ := by cases none_

/-- Callbacks are pending. -/
theorem Steady.enqueueAll {more : List Pending} (steady : Steady d)
    (placed : ∀ c ∈ more, Placed d.presented c)
    (covered : d.currentUser = none → ∀ c ∈ more, ∀ uid, c.callback ≠ .accountType uid) :
    Steady { d with pending := d.pending ++ more } where
  shown := steady.shown
  chain := steady.chain
  placed c member := (List.mem_append.mp member).elim (steady.placed c) (placed c)
  signedOut none_ := by
    obtain ⟨last, before⟩ := steady.signedOut none_
    refine ⟨last, fun c member uid same => ?_⟩
    rcases List.mem_append.mp member with old | new
    · exact before c old uid same
    · exact absurd same (covered none_ c new uid)

theorem Steady.enqueue (steady : Steady d) (placed : Placed d.presented c)
    (covered : d.currentUser = none → ∀ uid, c.callback ≠ .accountType uid) :
    Steady (d.enqueue c) :=
  steady.enqueueAll (fun _ member => List.mem_singleton.mp member ▸ placed)
    fun none_ _ member => List.mem_singleton.mp member ▸ covered none_

/-- A chain of callbacks is started. -/
theorem Steady.start (steady : Steady d) (placed : Placed d.presented ⟨d.email, vc, callback⟩)
    (covered : d.currentUser = none → ∀ uid, callback ≠ .accountType uid) :
    Steady (d.start vc callback) := steady.enqueue placed covered

/-- A screen is presented over the one that is shown, a `SignInVC` if nobody is signed in. -/
theorem Steady.push (steady : Steady d) (last : d.presented.getLast? = some self)
    (leads : leadsTo self new = true)
    (signedIn : d.currentUser = none → ∃ signUp, new = .signInVC signUp) :
    Steady { d with presented := d.presented ++ [new] } where
  shown := by simp
  chain := by
    refine steady.chain.append (List.isChain_singleton _) fun x lastIs y head => ?_
    cases last.symm.trans (Option.mem_def.mp lastIs)
    cases Option.mem_def.mp head
    exact leads
  placed c member := (steady.placed c member).append _
  signedOut none_ := by
    obtain ⟨signUp, rfl⟩ := signedIn none_
    refine ⟨⟨signUp, by simp⟩, fun c member uid _ => ?_⟩
    have below := (steady.placed c member).below
    simp only [List.length_append, List.length_singleton]
    omega

theorem Steady.viewDidLoad (steady : Steady d) (placed : vc < d.presented.length) :
    Steady (d.viewDidLoad vc new) := by
  have loaded : ∀ c ∈ ((load new).map fun callback => (⟨d.email, vc, callback⟩ : Pending)).toList,
      Placed d.presented c ∧ ∀ uid, c.callback ≠ .accountType uid := by
    intro c member
    obtain ⟨callback, loads, rfl⟩ := Option.map_eq_some_iff.mp (Option.mem_toList.mp member)
    rcases load_cases loads with rfl | rfl | rfl <;>
      exact ⟨⟨placed, fun signs => (by cases signs), by simp⟩, by simp⟩
  refine (steady.enqueueAll (fun c member => (loaded c member).1)
    fun _ c member => (loaded c member).2).mono currentUser_viewDidLoad presented_viewDidLoad ?_
  rw [pending_viewDidLoad]
  exact fun _ member => member

/-- `present`, on a screen from which the new one can be reached. -/
theorem Steady.present (steady : Steady d) (at_ : d.presented[vc]? = some self)
    (leads : leadsTo self new = true)
    (signedIn : d.currentUser = none → vc + 1 = d.presented.length → ∃ signUp, new = .signInVC signUp) :
    Steady (d.present vc new) := by
  by_cases shown : vc + 1 = d.presented.length ∧ d.alert = false
  · rw [present_of_shown shown.1 shown.2]
    have last : d.presented.getLast? = some self := by
      rw [List.getLast?_eq_getElem?, ← shown.1]
      exact at_
    exact (steady.push last leads fun none_ => signedIn none_ shown.1).viewDidLoad (by simp)
  · rw [present_of_covered shown]
    exact steady

theorem Steady.presentAlert (steady : Steady d) : Steady (d.presentAlert vc) := by
  obtain ⟨alert, same⟩ := presentAlert_eq d vc
  rw [same]
  exact steady.mono rfl rfl fun _ member => member

theorem Steady.attempt {α : Type} (steady : Steady d) (x : Except Trap α) : Steady (d.attempt x) := by
  obtain ⟨ended, same⟩ := attempt_eq d x
  rw [same]
  exact steady.mono rfl rfl fun _ member => member

/-- The screen that is shown. -/
theorem getElem_top (last : d.presented.getLast? = some self) : d.presented[d.top]? = some self := by
  rw [← last, List.getLast?_eq_getElem?]
  rfl

theorem top_lt (steady : Steady d) : d.top < d.presented.length := by
  have some_ := List.length_pos_iff.mpr steady.shown
  unfold top
  omega

/-- A callback that a screen starts. -/
theorem Steady.startTop (steady : Steady d) (last : d.presented.getLast? = some self)
    (signs : callback.signsIn = true → ∃ signUp, self = .signInVC signUp)
    (notRead : ∀ uid, callback ≠ .accountType uid) (notLaunch : ∀ email, callback ≠ .launch email) :
    Steady (d.start d.top callback) := by
  refine steady.start ⟨top_lt steady, fun signsIn => ?_, notLaunch⟩ fun _ => notRead
  obtain ⟨signUp, rfl⟩ := signs signsIn
  exact ⟨signUp, getElem_top last⟩

/-- `PresentSignUpVC` only changes which form the `SignInVC` shows. -/
theorem Steady.presentSignUpVC (steady : Steady d)
    (last : d.presented.getLast? = some (.signInVC false)) :
    Steady { d with presented := d.presented.dropLast ++ [.signInVC true] } := by
  have split : d.presented = d.presented.dropLast ++ [ViewController.signInVC false] := by
    rw [← List.dropLast_append_getLast? _ last]
    simp
  have length : (d.presented.dropLast ++ [ViewController.signInVC true]).length =
      d.presented.length := by
    conv_rhs => rw [split]
    simp
  have reads {i : ℕ} {signUp : Bool} (at_ : d.presented[i]? = some (.signInVC signUp)) :
      ∃ signUp', (d.presented.dropLast ++ [ViewController.signInVC true])[i]? =
        some (.signInVC signUp') := by
    rw [split] at at_
    by_cases below : i < d.presented.dropLast.length
    · rw [List.getElem?_append_left below] at at_ ⊢
      exact ⟨signUp, at_⟩
    · rw [List.getElem?_append_right (Nat.le_of_not_lt below)] at at_ ⊢
      obtain ⟨bound, _⟩ := List.getElem?_eq_some_iff.mp at_
      have first : i - d.presented.dropLast.length = 0 := by simpa using bound
      exact ⟨true, by rw [first]; rfl⟩
  refine ⟨by simp, ?_, fun c member => ?_, fun none_ => ?_⟩
  · have chain := steady.chain
    rw [split] at chain
    refine chain.left_of_append.append (List.isChain_singleton _) fun x lastIs y head => ?_
    cases Option.mem_def.mp head
    have leads := (List.isChain_append.mp chain).2.2 x lastIs _ (Option.mem_def.mpr rfl)
    cases x <;> exact leads
  · have placed := steady.placed c member
    refine ⟨length ▸ placed.below, fun signs => ?_, placed.notLaunch⟩
    obtain ⟨signUp, at_⟩ := placed.signInVC signs
    exact reads at_
  · refine ⟨⟨true, by simp⟩, fun c member uid same => ?_⟩
    show c.vc + 1 < (d.presented.dropLast ++ [ViewController.signInVC true]).length
    rw [length]
    exact (steady.signedOut none_).2 c member uid same

theorem Steady.signOut (steady : Steady d) (last : d.presented.getLast? = some self)
    (leads : leadsTo self (.signInVC false) = true) (alert : d.alert = false) : Steady d.signOut := by
  have some_ := List.length_pos_iff.mpr steady.shown
  have shown : d.top + 1 = d.presented.length := by
    unfold top
    omega
  rw [Device.signOut, present_of_shown (d := { d with currentUser := none }) shown alert]
  refine ⟨by simp [Device.viewDidLoad], ?_, fun c member => (steady.placed c member).append _,
    fun _ => ⟨⟨false, by simp [Device.viewDidLoad]⟩, fun c member uid _ => ?_⟩⟩
  · refine steady.chain.append (List.isChain_singleton _) fun x lastIs y head => ?_
    cases last.symm.trans (Option.mem_def.mp lastIs)
    cases Option.mem_def.mp head
    exact leads
  · have below := (steady.placed c member).below
    simp only [presented_viewDidLoad, List.length_append, List.length_singleton]
    omega

/-- Whoever sees another screen than a `SignInVC` is signed in. -/
theorem Steady.signedIn (steady : Steady d) (last : d.presented.getLast? = some self)
    (other : ∀ signUp, self ≠ .signInVC signUp) : d.currentUser ≠ none := by
  intro none_
  obtain ⟨⟨signUp, last'⟩, _⟩ := steady.signedOut none_
  exact other signUp (Option.some.inj (last.symm.trans last'))

/-- A tap. -/
theorem Steady.tap {web : Web} {E : Enumeration} {t : Tap} (steady : Steady d)
    (tapped : d.tap web E t = some d') :
    Steady d' := by
  unfold Device.tap at tapped
  split at tapped
  · cases t with
    | ok =>
        cases tapped
        exact steady.mono rfl rfl fun _ member => member
    | _ => cases tapped
  rename_i noAlert
  have alert : d.alert = false := by simpa using noAlert
  split at tapped
  · rename_i last
    cases tapped
    exact steady.startTop last (fun _ => ⟨_, rfl⟩) (by simp) (by simp)
  · rename_i last
    cases tapped
    exact steady.presentSignUpVC last
  · rename_i last
    split at tapped <;> cases tapped
    · exact steady.startTop last (fun _ => ⟨_, rfl⟩) (by simp) (by simp)
    · exact steady
    · exact steady.mono rfl rfl fun _ member => member
  · rename_i last
    cases tapped
    exact steady.present (getElem_top last) rfl fun _ _ => ⟨_, rfl⟩
  · rename_i last
    cases tapped
    exact steady.signOut last rfl alert
  · rename_i last
    cases tapped
    exact steady.startTop last (fun signs => by cases signs) (by simp) (by simp)
  · rename_i last
    cases tapped
    exact steady.signOut last rfl alert
  · rename_i last
    split at tapped <;> cases tapped
    · exact steady.startTop last (fun signs => by cases signs) (by simp) (by simp)
    · exact steady.mono rfl rfl fun _ member => member
  · rename_i last
    cases tapped
    exact steady.startTop last (fun signs => by cases signs) (by simp) (by simp)
  · obtain ⟨cell, _, rfl⟩ := Option.map_eq_some_iff.mp tapped
    exact steady.attempt _
  · obtain ⟨cell, _, rfl⟩ := Option.map_eq_some_iff.mp tapped
    exact steady.attempt _
  · rename_i last
    obtain ⟨cell, _, rfl⟩ := Option.map_eq_some_iff.mp tapped
    split
    · exact steady.startTop last (fun signs => by cases signs) (by simp) (by simp)
    · exact steady.mono rfl rfl fun _ member => member
  · rename_i last
    obtain ⟨cell, _, rfl⟩ := Option.map_eq_some_iff.mp tapped
    exact steady.startTop last (fun signs => by cases signs) (by simp) (by simp)
  · rename_i self new last
    split at tapped <;> cases tapped
    rename_i navigates
    refine steady.present (getElem_top last) ?_ fun none_ _ => absurd none_ ?_
    · cases self <;> cases new <;> first | exact navigates | cases navigates
    · refine steady.signedIn last fun signUp same => ?_
      subst same
      cases navigates
  · cases tapped

/-- A home screen is presented by a `SignInVC`. -/
theorem leadsTo_homeScreen (signUp : Bool) (accountType : Option String) :
    leadsTo (.signInVC signUp) (homeScreen accountType).viewController = true := by
  unfold homeScreen
  split <;> rfl

theorem Steady.handleUser {latitude longitude : String} {form : JobForm} (steady : Steady d)
    (success : Bool) : Steady (handleUser latitude longitude form c d success) := by
  unfold Device.handleUser
  split
  · split
    · exact Steady.presentAlert (steady.mono rfl rfl fun _ member => member)
    · exact steady.mono rfl rfl fun _ member => member
  · exact steady

/-- A callback. -/
theorem Steady.run {web : Web} {E : Enumeration} {now : Moment} (steady : Steady d)
    (placed : Placed d.presented c) (covered : d.currentUser = none → ∀ uid,
      c.callback = .accountType uid → c.vc + 1 < d.presented.length) :
    Steady (d.run web E c now) := by
  have same {d' : Device} (user : d'.currentUser = d.currentUser)
      (presented : d'.presented = d.presented) (pending : d'.pending = d.pending) : Steady d' :=
    steady.mono user presented fun c member => pending ▸ member
  have continues {callback : Callback} (signs : callback.signsIn = false)
      (notLaunch : ∀ email, callback ≠ .launch email) :
      Steady (d.enqueue { c with callback := callback }) := by
    refine steady.enqueue ⟨placed.below, fun signs' => ?_, notLaunch⟩ fun _ uid same => ?_
    · rw [signs] at signs'
      cases signs'
    · subst same
      cases signs
  unfold Device.run
  split
  · rename_i email launch
    exact absurd launch (placed.notLaunch email)
  · rename_i signs
    obtain ⟨signUp, at_⟩ := placed.signInVC (by rw [signs]; rfl)
    cases now.authDataResult with
    | none => exact steady.presentAlert
    | some user =>
        refine (steady.signIn user).enqueue ⟨placed.below, fun _ => ⟨signUp, at_⟩, by simp⟩ ?_
        intro none_
        cases none_
  · rename_i uid signs
    obtain ⟨signUp, at_⟩ := placed.signInVC (by rw [signs]; rfl)
    cases found : Controller.signIn uid now.users with
    | error trap => exact same rfl rfl rfl
    | ok screen =>
        obtain ⟨accType, _, home⟩ := bind_ok.mp found
        cases home
        refine steady.present at_ (leadsTo_homeScreen ..) fun none_ shown => ?_
        have below := covered none_ uid signs
        omega
  · rename_i handeler signs
    obtain ⟨signUp, at_⟩ := placed.signInVC (by rw [signs]; rfl)
    cases now.authDataResult with
    | none => exact steady.presentAlert
    | some user =>
        refine Steady.present ((steady.signIn user).mono rfl rfl fun _ member => member) at_
          (leadsTo_homeScreen ..) fun none_ => ?_
        cases none_
  · split
    · exact continues rfl (by simp)
    · exact same rfl rfl rfl
    · exact steady
  · split
    · split
      · split
        · exact continues rfl (by simp)
        · exact same rfl rfl rfl
      · exact steady.presentAlert
    · exact steady
  · rename_i email latitude longitude _
    have handled : Steady (((Model.findUser E email now.users).out.map Prod.snd).foldl
        (Device.handleUser latitude longitude now.jobForm c) d) :=
      List.foldlRecOn (motive := Steady) _ _ steady fun d steady success _ =>
        steady.handleUser success
    show Steady (if _ then _ else _)
    split
    · exact handled.mono rfl rfl fun _ member => member
    · exact handled
  · split
    · split
      · exact same rfl rfl rfl
      · exact same rfl rfl rfl
    · exact steady
    · exact same rfl rfl rfl
  · -- every load that a removal starts belongs to the screen of the removal
    have removed (jobIndex : ℕ) : Steady ((EditJob.removeJob E jobIndex now.postedJobs).out.foldl
        (removeKey c) d) ∧ c.vc < ((EditJob.removeJob E jobIndex now.postedJobs).out.foldl
        (removeKey c) d).presented.length := by
      refine List.foldlRecOn (motive := fun d => Steady d ∧ c.vc < d.presented.length) _ _
        ⟨steady, placed.below⟩ fun d both key _ => ⟨?_, both.2⟩
      refine Steady.enqueue (both.1.mono rfl rfl fun _ member => member)
        ⟨both.2, fun signs => ?_, by simp⟩ (by simp)
      cases signs
    exact (removed _).1.mono rfl rfl fun _ member => member
  · exact same rfl rfl rfl
  · exact same rfl rfl rfl
  · exact same rfl rfl rfl
  · exact same rfl rfl rfl
  · refine Steady.mono (steady.enqueueAll (fun c' member => ?_) fun _ c' member => ?_) rfl rfl
      fun _ member => member
    · obtain ⟨call, _, rfl⟩ := List.mem_map.mp member
      exact ⟨placed.below, fun signs => (by cases signs), by simp⟩
    · obtain ⟨call, _, rfl⟩ := List.mem_map.mp member
      simp
  · exact continues rfl (by simp)
  · exact same rfl rfl rfl

end Steady

/-- What every run keeps. -/
def Sane (d : Device) : Prop := Launching d ∨ Steady d

section Runs

variable {web : Web} {E : Enumeration} {d d' : Device}

theorem sane_launched (currentUser : Option AuthDataResult) : Sane (launched currentUser) := by
  cases currentUser with
  | some user => exact .inl ⟨rfl, fun _ => ⟨user, rfl, rfl⟩, by simp [launched]⟩
  | none =>
      refine .inr ⟨by simp [launched], List.isChain_singleton _, fun c member => ?_,
        fun _ => ⟨⟨false, rfl⟩, fun c member => ?_⟩⟩ <;> cases member

theorem sane_relaunched (d : Device) : Sane d.relaunched := by
  rcases sane_launched d.currentUser with launching | steady
  · exact .inl ⟨launching.presented, launching.pending, launching.signedIn⟩
  · exact .inr (steady.mono rfl rfl fun _ => id)

/-- A lookup that does not trap calls its handler. -/
theorem findUser_ne_nil {email : String} {users : UserTree}
    (untrapped : (Model.findUser E email users).trap = none) :
    (Model.findUser E email users).out ≠ [] := by
  by_cases found : users.HasEmail email
  · rw [findUser_found E found, Issued.out_done, Ne, List.map_eq_nil_iff, UserTree.filter_email_eq_nil]
    exact not_not.mpr found
  · rw [findUser_missed E found] at untrapped ⊢
    cases first : subscript (E.order users) 0 with
    | error trap => simp [first, Issued.ofExcept, Issued.stop] at untrapped
    | ok user => simp

/-- The lookup of the launch. -/
theorem sane_launch {now : Moment} {email : String} {c : Pending} (launching : d.presented = [])
    (signedIn : d.currentUser ≠ none) (pending : d.pending = [])
    (launch : c.callback = .launch email) : Sane (d.run web E c now) := by
  unfold Device.run
  simp only [launch]
  split
  · -- a home is shown, and loads its list
    rename_i screen shown
    refine .inr (Steady.viewDidLoad ⟨by simp, List.isChain_singleton _, fun c' member => ?_,
      fun none_ => absurd none_ signedIn⟩ Nat.one_pos)
    simp [pending] at member
  · rename_i shown
    refine .inl ⟨launching, fun running => ?_, signedIn⟩
    have untrapped : (Model.findUser E email now.users).trap = none := Option.map_eq_none_iff.mp running
    have silent : (Model.findUser E email now.users).out = [] := by
      simpa [Issued.map, getUserAccountType] using shown
    exact absurd silent (findUser_ne_nil untrapped)

/-- The step of the invariant. -/
theorem Sane.step {e : Event} (sane : Sane d) (stepped : Device.step web E d e = some d') :
    Sane d' := by
  cases e with
  | relaunch =>
      cases stepped
      exact sane_relaunched d
  | tap t =>
      obtain ⟨_, tapped⟩ := step_tap stepped
      rcases sane with launching | steady
      · -- there is nothing on the screen yet to tap
        unfold Device.tap at tapped
        rw [launching.presented] at tapped
        split at tapped
        · split at tapped
          · cases tapped
            exact .inl ⟨rfl, launching.pending, launching.signedIn⟩
          · cases tapped
        · cases t <;> cases tapped
      · exact .inr (steady.tap tapped)
  | fire index now =>
      obtain ⟨running, c, at_, rfl⟩ := step_fire stepped
      have member : c ∈ d.pending := List.mem_of_getElem? at_
      rcases sane with launching | steady
      · obtain ⟨user, signedIn, pending⟩ := launching.pending running
        rw [pending] at member at_
        obtain rfl := List.mem_singleton.mp member
        obtain rfl : index = 0 := by
          obtain ⟨bound, _⟩ := List.getElem?_eq_some_iff.mp at_
          simpa using bound
        exact sane_launch launching.presented launching.signedIn (by simp [pending]) rfl
      · refine .inr (Steady.run (steady.mono rfl rfl fun c' rest => List.mem_of_mem_eraseIdx rest)
          (steady.placed c member) fun none_ => (steady.signedOut none_).2 c member)
  | display vc row =>
      obtain ⟨_, displayed⟩ := step_display stepped
      obtain ⟨ended, rfl⟩ := display_eq displayed
      rcases sane with launching | steady
      · exact absurd displayed (by simp [Device.display, launching.presented])
      · exact .inr (steady.mono rfl rfl fun _ => id)

theorem sane_run {currentUser : Option AuthDataResult} {es : List Event}
    (ran : Theory.run (Device.step web E) (launched currentUser) es = some d) : Sane d :=
  invariant_of_run (I := Sane) (fun _ _ _ => Sane.step) (sane_launched currentUser) ran

/-- A screen is presented by one of its own role, or by a `SignInVC`, or is one. -/
theorem role_leadsTo {self new : ViewController} (leads : leadsTo self new = true)
    (apart : self.role ≠ new.role) : self.role = .signInVC ∨ new.role = .signInVC := by
  cases self <;> cases new <;>
    first
      | exact .inl rfl
      | exact .inr rfl
      | exact absurd rfl apart
      | cases leads

end Runs

/-- **Signed out.**  Whatever is tapped, in whatever order the callbacks run, and whenever the
app is launched anew, the screen that is shown while nobody is signed in is a `SignInVC`.
Nobody is signed out here but by `SignOut`: the authentication service revokes no session. -/
theorem signedOut_shows_signInVC {web : Web} {E : Enumeration} {currentUser : Option AuthDataResult}
    {es : List Event} {d : Device} (ran : Theory.run (step web E) (launched currentUser) es = some d)
    (signedOut : d.currentUser = none) :
    ∃ signUp, d.presented.getLast? = some (.signInVC signUp) := by
  rcases sane_run ran with launching | steady
  · exact absurd signedOut launching.signedIn
  · exact (steady.signedOut signedOut).1

/-- Eve signs in, and out again. -/
def evesSession : List Event :=
  [.tap .login, .fire 0 .sample, .fire 0 .sample, .tap .signOut]

theorem signedOut_shows_signInVC_eve :
    ∃ d, Theory.run (step CreateJob.twoCities .inserted) (launched none) evesSession = some d ∧
      d.currentUser = none ∧ ∃ signUp, d.presented.getLast? = some (.signInVC signUp) :=
  ⟨_, rfl, rfl, @signedOut_shows_signInVC CreateJob.twoCities .inserted none evesSession _ rfl rfl⟩

/-- **Roles apart.**  Wherever two screens are presented that belong to different roles, a
`SignInVC` is presented between them, or is one of the two. -/
theorem roles_apart {web : Web} {E : Enumeration} {currentUser : Option AuthDataResult}
    {es : List Event} {d : Device} (ran : Theory.run (step web E) (launched currentUser) es = some d)
    {i j : ℕ} {self other : ViewController} (order : i ≤ j) (lower : d.presented[i]? = some self)
    (upper : d.presented[j]? = some other) (apart : self.role ≠ other.role) :
    ∃ k between, i ≤ k ∧ k ≤ j ∧ d.presented[k]? = some between ∧ between.role = .signInVC := by
  have chain : d.presented.IsChain fun self new => leadsTo self new = true := by
    rcases sane_run ran with launching | steady
    · rw [launching.presented]
      exact List.isChain_nil
    · exact steady.chain
  induction j generalizing other with
  | zero =>
      obtain rfl : i = 0 := by omega
      cases lower.symm.trans upper
      exact absurd rfl apart
  | succ j ih =>
      by_cases here : i = j + 1
      · subst here
        cases lower.symm.trans upper
        exact absurd rfl apart
      obtain ⟨bound, _⟩ := List.getElem?_eq_some_iff.mp upper
      have before : d.presented[j]? = some d.presented[j] := List.getElem?_eq_getElem (by omega)
      -- either the roles differ further down, or they differ at this step
      by_cases same : self.role = (d.presented[j]).role
      · have leads := chain.getElem j bound
        have at_ : d.presented[j + 1] = other := (List.getElem?_eq_some_iff.mp upper).2
        rw [at_] at leads
        rcases role_leadsTo leads (same ▸ apart) with signIn | signIn
        · exact ⟨j, _, by omega, by omega, before, signIn⟩
        · exact ⟨j + 1, other, order, le_rfl, upper, signIn⟩
      · obtain ⟨k, between, above, below, at_, signIn⟩ := ih (by omega) before same
        exact ⟨k, between, above, by omega, at_, signIn⟩

/-- Ann signs in as a poster, and out again, and then Eve as a searcher. -/
def annThenEve : List Event :=
  [.tap .login, .fire 0 .ofAnn, .fire 0 .ofAnn, .tap .signOut, .tap .login, .fire 0 .sample,
    .fire 0 .sample]

theorem roles_apart_annThenEve :
    ∃ d, Theory.run (step CreateJob.twoCities .inserted) (launched none) annThenEve = some d ∧
      d.presented[1]? = some .createJobVC ∧ d.presented[3]? = some .exploreVC ∧
      ∃ k between, 1 ≤ k ∧ k ≤ 3 ∧ d.presented[k]? = some between ∧ between.role = .signInVC :=
  ⟨_, rfl, rfl, rfl, @roles_apart CreateJob.twoCities .inserted none annThenEve _ rfl 1 3 .createJobVC
    .exploreVC (by decide) rfl rfl (by decide)⟩

end Device

end JobFinder.Controller
