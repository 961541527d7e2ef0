/-
# Controller.Attribution -- in whose name a device acts

A callback writes the email of the user who is signed in when it runs, not of the one who
tapped; and with nobody signed in it ends the app, `CreateJob` after six of its seven
writes.  The home screen on display is that of the user whose account type was read, not
of the one who is signed in by now.

`Patient` users wait: they sign out when nothing is pending any more, and do not ask to be
signed in while they already have.  For them all three agree, whatever the order of the
callbacks (`patient_inOrder`).  The two traces after the theorem are of users who do not
wait.
-/
import JobFinder.Controller.Device

namespace JobFinder.Controller.Device

open JobFinder.Theory JobFinder.Database JobFinder.Model

set_option autoImplicit false

/-- A write that names a user names the one who tapped, and a job is posted whole. -/
def InName : Option String × Write → Prop
  | (startedBy, .createJob writes) => ∃ latitude longitude form email,
      startedBy = some email ∧ writes = CreateJob.jobWrites latitude longitude form email
  | (startedBy, .fileApplication _ _ email) => startedBy = some email
  | (_, .createDBUser _) => True
  | (_, .removeJob _) => True
  | (_, .removeApplicant ..) => True

/-- Nothing has been written in another name, the app has not ended for want of a user, and
the screen on display is of the role of the user who is signed in. -/
structure InOrder (homeOf : String → Screen) (d : Device) : Prop where
  issued : ∀ entry ∈ d.issued, InName entry
  ended : d.ended ≠ some .signedOut
  home : ∀ shown, d.presented.getLast? = some shown → shown.role ≠ .signInVC →
    ∃ user, d.currentUser = some user ∧ shown.role = homeOf user.uid

/-- What is read of the profiles is as registrations store it: an account type for each of
the two homes, and no email twice. -/
structure Stored (homeOf : String → Screen) (users : UserTree) : Prop where
  title : ∀ uid profile, users.lookup uid = some profile →
    profile.accountType = "Job Searcher" ∨ profile.accountType = "Job Poster"
  home : ∀ uid profile, users.lookup uid = some profile →
    homeScreen (some profile.accountType) = homeOf uid
  emails : users.EmailsDistinct

/-- The user signs out when nothing is pending, and taps Login or Sign Up when no sign-in is.
At the launch the signed-in user has a profile; a registration completes with the segment
selected that the account was made for. -/
def Patient (homeOf : String → Screen) (d : Device) : Event → Prop
  | .tap .signOut => d.pending = []
  | .tap .login => ∀ c ∈ d.pending, c.callback.signsIn = false
  | .tap (.signUp _) => ∀ c ∈ d.pending, c.callback.signsIn = false
  | .tap _ => True
  | .display .. => True
  | .relaunch => True
  | .fire index now =>
      Stored homeOf now.users ∧
      (∀ c ∈ d.pending[index]?, ∀ user,
        (∀ handeler, c.callback = .registerUser handeler → now.authDataResult = some user →
          homeScreen now.signUpForm.accountType = homeOf user.uid) ∧
        (∀ email, c.callback = .launch email → d.currentUser = some user →
          ∃ profile, now.users.lookup user.uid = some profile ∧ profile.email = user.email))

/-- The invariant.  While a `SignInVC` is shown, at most one sign-in is pending and nothing
else; otherwise everything pending was started by the user who is signed in. -/
structure Orderly (homeOf : String → Screen) (d : Device) : Prop where
  issued : ∀ entry ∈ d.issued, InName entry
  ended : d.ended ≠ some .signedOut
  atSignIn : ∀ signUp, d.presented.getLast? = some (.signInVC signUp) →
    d.pending.length ≤ 1 ∧ ∀ c ∈ d.pending, c.callback.signsIn = true ∧
      ∀ uid, c.callback = .accountType uid → ∃ user, d.currentUser = some user ∧ user.uid = uid
  atHome : ∀ shown, d.presented.getLast? = some shown → shown.role ≠ .signInVC →
    ∃ user, d.currentUser = some user ∧ shown.role = homeOf user.uid ∧
      ∀ c ∈ d.pending, c.callback.signsIn = false ∧ c.startedBy = some user.email

section Patience

variable {web : Web} {E : Enumeration} {homeOf : String → Screen} {d d' : Device} {vc : ℕ}
  {shown new : ViewController} {callback : Callback}

theorem Orderly.inOrder (orderly : Orderly homeOf d) : InOrder homeOf d where
  issued := orderly.issued
  ended := orderly.ended
  home shown last apart := by
    obtain ⟨user, signedIn, home, _⟩ := orderly.atHome shown last apart
    exact ⟨user, signedIn, home⟩

/-- Only writes, and the alert, are added. -/
theorem Orderly.mono (orderly : Orderly homeOf d) (user : d'.currentUser = d.currentUser)
    (presented : d'.presented = d.presented) (pending : d'.pending = d.pending)
    (issued : ∀ entry ∈ d'.issued, InName entry) (ended : d'.ended ≠ some .signedOut) :
    Orderly homeOf d' where
  issued := issued
  ended := ended
  atSignIn := by
    rw [presented, pending, user]
    exact orderly.atSignIn
  atHome := by
    rw [presented, pending, user]
    exact orderly.atHome

theorem Orderly.trap (orderly : Orderly homeOf d) (trap : Trap) : Orderly homeOf (d.trap trap) :=
  orderly.mono rfl rfl rfl orderly.issued (by simp [Device.trap])

theorem Orderly.attempt {α : Type} (orderly : Orderly homeOf d) (x : Except Trap α) :
    Orderly homeOf (d.attempt x) := by
  cases x with
  | ok _ => exact orderly
  | error trap => exact orderly.trap trap

theorem Orderly.presentAlert (orderly : Orderly homeOf d) : Orderly homeOf (d.presentAlert vc) := by
  obtain ⟨alert, same⟩ := presentAlert_eq d vc
  rw [same]
  exact orderly.mono rfl rfl rfl orderly.issued orderly.ended

/-- Callbacks are pending that go back to the user of the home screen. -/
theorem Orderly.enqueueAll {more : List Pending} {user : AuthDataResult} (orderly : Orderly homeOf d)
    (last : d.presented.getLast? = some shown) (apart : shown.role ≠ .signInVC)
    (signedIn : d.currentUser = some user)
    (own : ∀ c ∈ more, c.callback.signsIn = false ∧ c.startedBy = some user.email) :
    Orderly homeOf { d with pending := d.pending ++ more } where
  issued := orderly.issued
  ended := orderly.ended
  atSignIn signUp last' := by
    cases last.symm.trans last'
    exact absurd rfl apart
  atHome shown' last' apart' := by
    obtain ⟨user', signedIn', home, pending⟩ := orderly.atHome shown' last' apart'
    cases signedIn.symm.trans signedIn'
    exact ⟨user, signedIn, home, fun c member => (List.mem_append.mp member).elim (pending c) (own c)⟩

theorem Orderly.enqueue {c : Pending} {user : AuthDataResult} (orderly : Orderly homeOf d)
    (last : d.presented.getLast? = some shown) (apart : shown.role ≠ .signInVC)
    (signedIn : d.currentUser = some user) (signs : c.callback.signsIn = false)
    (startedBy : c.startedBy = some user.email) : Orderly homeOf (d.enqueue c) :=
  orderly.enqueueAll last apart signedIn fun _ member =>
    List.mem_singleton.mp member ▸ ⟨signs, startedBy⟩

/-- A chain of callbacks that the user of a home screen starts. -/
theorem Orderly.start (orderly : Orderly homeOf d) (last : d.presented.getLast? = some shown)
    (apart : shown.role ≠ .signInVC) (signs : callback.signsIn = false) :
    Orderly homeOf (d.start vc callback) := by
  obtain ⟨user, signedIn, _⟩ := orderly.atHome shown last apart
  exact orderly.enqueue last apart signedIn signs (by rw [email, signedIn]; rfl)

/-- A screen of the user's loads its list. -/
theorem Orderly.viewDidLoad (orderly : Orderly homeOf d) (last : d.presented.getLast? = some shown)
    (apart : shown.role ≠ .signInVC) : Orderly homeOf (d.viewDidLoad vc new) := by
  obtain ⟨user, signedIn, _⟩ := orderly.atHome shown last apart
  refine (orderly.enqueueAll last apart signedIn fun c member => ?_).mono currentUser_viewDidLoad
    presented_viewDidLoad pending_viewDidLoad ?_ ?_
  · obtain ⟨callback, loads, rfl⟩ := Option.map_eq_some_iff.mp (Option.mem_toList.mp member)
    refine ⟨?_, by rw [email, signedIn]; rfl⟩
    rcases load_cases loads with rfl | rfl | rfl <;> rfl
  · rw [issued_viewDidLoad]
    exact orderly.issued
  · rw [ended_viewDidLoad]
    exact orderly.ended

/-- The one sign-in that a `SignInVC` starts. -/
theorem Orderly.startSignIn {signUp : Bool} (orderly : Orderly homeOf d)
    (last : d.presented.getLast? = some (.signInVC signUp))
    (none_ : ∀ c ∈ d.pending, c.callback.signsIn = false) (signs : callback.signsIn = true)
    (notRead : ∀ uid, callback ≠ .accountType uid) : Orderly homeOf (d.start vc callback) := by
  have nothing : d.pending = [] := by
    refine List.eq_nil_iff_forall_not_mem.mpr fun c member => ?_
    have signs := ((orderly.atSignIn signUp last).2 c member).1
    rw [none_ c member] at signs
    cases signs
  refine ⟨orderly.issued, orderly.ended, fun _ _ => ?_, fun shown last' apart => ?_⟩
  · rw [pending_start, nothing, List.nil_append]
    refine ⟨le_rfl, fun c member => ?_⟩
    obtain rfl := List.mem_singleton.mp member
    exact ⟨signs, fun uid same => absurd same (notRead uid)⟩
  · cases last.symm.trans last'
    exact absurd rfl apart

/-- One screen with the posters' navigation bar leads to another. -/
theorem Orderly.navigate (orderly : Orderly homeOf d) (last : d.presented.getLast? = some shown)
    (navigates : shown.navigatesTo new = true) : Orderly homeOf (d.present vc new) := by
  have roles : shown.role = .createJobVC ∧ new.role = .createJobVC := by
    cases shown <;> cases new <;> first | exact ⟨rfl, rfl⟩ | cases navigates
  by_cases covered : vc + 1 = d.presented.length ∧ d.alert = false
  · rw [present_of_shown covered.1 covered.2]
    obtain ⟨user, signedIn, home, pending⟩ := orderly.atHome shown last (by rw [roles.1]; decide)
    have pushed : Orderly homeOf { d with presented := d.presented ++ [new] } := by
      refine ⟨orderly.issued, orderly.ended, fun signUp last' => ?_, fun shown' last' _ => ?_⟩
      · have same : new = .signInVC signUp := by simpa using last'
        subst same
        cases roles.2
      · have same : new = shown' := by simpa using last'
        subst same
        exact ⟨user, signedIn, by rw [roles.2, ← roles.1, home], pending⟩
    have last' : ({ d with presented := d.presented ++ [new] } : Device).presented.getLast? = some new := by
      simp
    have apart : new.role ≠ .signInVC := by
      rw [roles.2]
      decide
    exact pushed.viewDidLoad last' apart
  · rw [present_of_covered covered]
    exact orderly

/-- With nothing pending, a `SignInVC` may be shown. -/
theorem Orderly.pushSignIn (orderly : Orderly homeOf d) (signUp : Bool) (presented : List ViewController)
    (currentUser : Option AuthDataResult) (small : d.pending.length ≤ 1)
    (signs : ∀ c ∈ d.pending, c.callback.signsIn = true ∧
      ∀ uid, c.callback = .accountType uid → ∃ user, currentUser = some user ∧ user.uid = uid) :
    Orderly homeOf { d with
      currentUser := currentUser
      presented := presented ++ [.signInVC signUp] } where
  issued := orderly.issued
  ended := orderly.ended
  atSignIn _ _ := ⟨small, signs⟩
  atHome shown last apart := by
    have same : ViewController.signInVC signUp = shown := by simpa using last
    subst same
    exact absurd rfl apart

/-- A tap of a patient user. -/
theorem Orderly.tap {t : Tap} (orderly : Orderly homeOf d) (steady : Steady d)
    (patient : Patient homeOf d (.tap t)) (tapped : d.tap web E t = some d') : Orderly homeOf d' := by
  unfold Device.tap at tapped
  split at tapped
  · cases t with
    | ok =>
        cases tapped
        exact orderly.mono rfl rfl rfl orderly.issued orderly.ended
    | _ => cases tapped
  rename_i noAlert
  have alert : d.alert = false := by simpa using noAlert
  have top : d.top + 1 = d.presented.length := by
    have some_ := List.length_pos_iff.mpr steady.shown
    unfold Device.top
    omega
  have leaves (nothing : d.pending = []) : Orderly homeOf d.signOut := by
    rw [signOut, present_of_shown (d := { d with currentUser := none }) top alert]
    exact orderly.pushSignIn false d.presented none (by simp [nothing]) (by simp [nothing])
  split at tapped
  · rename_i last
    cases tapped
    exact orderly.startSignIn last patient rfl (by simp)
  · rename_i last
    cases tapped
    obtain ⟨small, signs⟩ := orderly.atSignIn false last
    exact orderly.pushSignIn true d.presented.dropLast d.currentUser small signs
  · rename_i last
    split at tapped <;> cases tapped
    · exact orderly.startSignIn last patient rfl (by simp)
    · exact orderly
    · exact orderly.trap _
  · rename_i last
    cases tapped
    rw [present_of_shown top alert]
    obtain ⟨small, signs⟩ := orderly.atSignIn true last
    exact orderly.pushSignIn false d.presented d.currentUser small signs
  · rename_i last
    cases tapped
    exact leaves patient
  · rename_i last
    cases tapped
    exact orderly.start last (by decide) rfl
  · rename_i last
    cases tapped
    exact leaves patient
  · rename_i last
    split at tapped <;> cases tapped
    · exact orderly.start last (by decide) rfl
    · exact orderly.trap _
  · rename_i last
    cases tapped
    exact orderly.start last (by decide) rfl
  · obtain ⟨cell, _, rfl⟩ := Option.map_eq_some_iff.mp tapped
    exact orderly.attempt _
  · obtain ⟨cell, _, rfl⟩ := Option.map_eq_some_iff.mp tapped
    exact orderly.attempt _
  · rename_i last
    obtain ⟨cell, _, rfl⟩ := Option.map_eq_some_iff.mp tapped
    split
    · exact orderly.start last (by decide) rfl
    · exact orderly.trap _
  · rename_i last
    obtain ⟨cell, _, rfl⟩ := Option.map_eq_some_iff.mp tapped
    exact orderly.start last (by decide) rfl
  · rename_i self new last
    split at tapped <;> cases tapped
    rename_i navigates
    exact orderly.navigate last navigates
  · cases tapped

/-- A cell is set up. -/
theorem Orderly.display {row : ℕ} (orderly : Orderly homeOf d)
    (displayed : d.display E vc row = some d') : Orderly homeOf d' := by
  have attempted {α : Type} (x : Except Trap α) {n : ℕ}
      (displayed : (if row < n then some (d.attempt x) else none) = some d') : Orderly homeOf d' := by
    split at displayed <;> cases displayed
    exact orderly.attempt x
  unfold Device.display at displayed
  split at displayed
  · exact attempted _ displayed
  · exact attempted _ displayed
  · exact attempted _ displayed
  · cases displayed

/-- With nothing pending, the home of the user who has just signed in may be shown. -/
theorem Orderly.pushHome {screen : Screen} {user : AuthDataResult} (presented : List ViewController)
    (issued : ∀ entry ∈ d.issued, InName entry) (ended : d.ended ≠ some .signedOut)
    (signedIn : d.currentUser = some user) (nothing : d.pending = [])
    (home : screen = homeOf user.uid) (known : ∃ accountType, screen = homeScreen accountType) :
    Orderly homeOf
      ({ d with presented := presented ++ [screen.viewController] }.viewDidLoad vc
        screen.viewController) := by
  have role : screen.viewController.role = screen := by cases screen <;> rfl
  have apart : screen.viewController.role ≠ .signInVC := by
    obtain ⟨accountType, rfl⟩ := known
    unfold homeScreen
    split <;> decide
  have pushed : Orderly homeOf { d with presented := presented ++ [screen.viewController] } := by
    refine ⟨issued, ended, fun signUp last => ?_, fun shown last _ => ?_⟩
    · simp [nothing]
    · have same : screen.viewController = shown := by simpa using last
      subst same
      exact ⟨user, signedIn, role.trans home, by simp [nothing]⟩
  exact pushed.viewDidLoad (by simp) apart

/-- It is presented. -/
theorem Orderly.presentHome {screen : Screen} {user : AuthDataResult} (orderly : Orderly homeOf d)
    (signedIn : d.currentUser = some user) (nothing : d.pending = [])
    (home : screen = homeOf user.uid) (known : ∃ accountType, screen = homeScreen accountType) :
    Orderly homeOf (d.present vc screen.viewController) := by
  by_cases covered : vc + 1 = d.presented.length ∧ d.alert = false
  · rw [present_of_shown covered.1 covered.2]
    exact pushHome d.presented orderly.issued orderly.ended signedIn nothing home known
  · rw [present_of_covered covered]
    exact orderly

/-- What a lookup that `CreateJob` waits for does while its user is signed in. -/
theorem Orderly.handleUser {latitude longitude : String} {form : JobForm} {c : Pending} {email : String}
    (orderly : Orderly homeOf d) (same : d.email = some email) (startedBy : c.startedBy = some email)
    (success : Bool) :
    Orderly homeOf (handleUser latitude longitude form c d success) ∧
      (handleUser latitude longitude form c d success).email = some email := by
  unfold Device.handleUser
  split
  · rw [same]
    have posted : Orderly homeOf { d with issued := d.issued ++ [(c.startedBy,
        Write.createJob (CreateJob.jobWrites latitude longitude form email))] } := by
      refine orderly.mono rfl rfl rfl (fun entry member => ?_) orderly.ended
      rcases List.mem_append.mp member with before | now
      · exact orderly.issued entry before
      · obtain rfl := List.mem_singleton.mp now
        exact ⟨latitude, longitude, form, email, startedBy, rfl⟩
    exact ⟨posted.presentAlert, email_presentAlert.trans same⟩
  · exact ⟨orderly, same⟩

/-- A callback that a signed-in user has started, on a screen of the user's role. -/
theorem Orderly.runAtHome {c : Pending} {user : AuthDataResult} {now : Moment}
    (orderly : Orderly homeOf d) (placed : Placed d.presented c)
    (last : d.presented.getLast? = some shown) (apart : shown.role ≠ .signInVC)
    (signedIn : d.currentUser = some user) (signs : c.callback.signsIn = false)
    (startedBy : c.startedBy = some user.email) : Orderly homeOf (d.run web E c now) := by
  have same : d.email = some user.email := by rw [email, signedIn]; rfl
  have issues {write : Write} (inName : InName (c.startedBy, write)) :
      Orderly homeOf { d with issued := d.issued ++ [(c.startedBy, write)] } := by
    refine orderly.mono rfl rfl rfl (fun entry member => ?_) orderly.ended
    rcases List.mem_append.mp member with before | new
    · exact orderly.issued entry before
    · obtain rfl := List.mem_singleton.mp new
      exact inName
  have trapped (trap : Option Trap) : trap.map Ended.trapped ≠ some .signedOut := by
    cases trap <;> simp
  have ends {d : Device} (orderly : Orderly homeOf d) (trap : Option Trap) :
      Orderly homeOf { d with ended := trap.map .trapped } :=
    orderly.mono rfl rfl rfl orderly.issued (trapped trap)
  unfold Device.run
  split
  · rename_i email launch
    exact absurd launch (placed.notLaunch email)
  · rename_i is
    rw [is] at signs
    cases signs
  · rename_i is
    rw [is] at signs
    cases signs
  · rename_i is
    rw [is] at signs
    cases signs
  · split
    · exact orderly.enqueue last apart signedIn rfl startedBy
    · exact orderly.trap _
    · exact orderly
  · rw [same]
    split
    · split
      · exact orderly.enqueue last apart signedIn rfl startedBy
      · exact orderly.presentAlert
    · exact orderly
  · rename_i email latitude longitude _
    have handled := List.foldlRecOn
      (motive := fun d => Orderly homeOf d ∧ d.email = some user.email)
      ((Model.findUser E email now.users).out.map Prod.snd)
      (Device.handleUser latitude longitude now.jobForm c) ⟨orderly, same⟩
      fun d both success _ => both.1.handleUser both.2 startedBy success
    show Orderly homeOf (if _ then _ else _)
    split
    · exact ends handled.1 _
    · exact handled.1
  · rw [same]
    split
    · exact issues startedBy
    · exact orderly
    · exact orderly.trap _
  · rename_i jobIndex _
    have removed := List.foldlRecOn
      (motive := fun d => Orderly homeOf d ∧ d.presented.getLast? = some shown ∧
        d.currentUser = some user)
      (EditJob.removeJob E jobIndex now.postedJobs).out (removeKey c) ⟨orderly, last, signedIn⟩
      fun d both key _ => by
        have issued : Orderly homeOf { d with issued := d.issued ++ [(c.startedBy,
            Write.removeJob key)] } := by
          refine both.1.mono rfl rfl rfl (fun entry member => ?_) both.1.ended
          rcases List.mem_append.mp member with before | new
          · exact both.1.issued entry before
          · obtain rfl := List.mem_singleton.mp new
            trivial
        have cleared : Orderly homeOf ({ d with issued := d.issued ++ [(c.startedBy,
            Write.removeJob key)] }.setJobs c.vc .empty) :=
          issued.mono rfl rfl rfl issued.issued issued.ended
        exact ⟨cleared.enqueue both.2.1 apart both.2.2 rfl startedBy, both.2⟩
    exact ends removed.1 _
  · exact orderly.mono rfl rfl rfl orderly.issued orderly.ended
  · rw [comparePosters, same]
    exact orderly.mono rfl rfl rfl orderly.issued (trapped _)
  · rw [comparePosters, same]
    exact orderly.mono rfl rfl rfl orderly.issued (trapped _)
  · exact ends orderly _
  · refine ends (orderly.enqueueAll last apart signedIn fun c' member => ?_) _
    obtain ⟨call, _, rfl⟩ := List.mem_map.mp member
    exact ⟨rfl, startedBy⟩
  · exact orderly.enqueue last apart signedIn rfl startedBy
  · refine orderly.mono rfl rfl rfl (fun entry member => ?_) (trapped _)
    rcases List.mem_append.mp member with before | new
    · exact orderly.issued entry before
    · obtain ⟨path, _, rfl⟩ := List.mem_map.mp new
      trivial

/-- The end of a sign-in, with nothing else pending. -/
theorem Orderly.runAtSignIn {c : Pending} {now : Moment} (orderly : Orderly homeOf d)
    (placed : Placed d.presented c) (nothing : d.pending = [])
    (signs : c.callback.signsIn = true)
    (read : ∀ uid, c.callback = .accountType uid → ∃ user, d.currentUser = some user ∧ user.uid = uid)
    (stored : Stored homeOf now.users)
    (segment : ∀ user handeler, c.callback = .registerUser handeler →
      now.authDataResult = some user → homeScreen now.signUpForm.accountType = homeOf user.uid)
    (shown : ∃ signUp, d.presented.getLast? = some (.signInVC signUp)) :
    Orderly homeOf (d.run web E c now) := by
  obtain ⟨signUp, last⟩ := shown
  have notHome {shown : ViewController} (last' : d.presented.getLast? = some shown) :
      ¬ shown.role ≠ .signInVC := by
    cases last.symm.trans last'
    exact not_not.mpr rfl
  have signedIn (user : AuthDataResult) (issued : List (Option String × Write))
      (inName : ∀ entry ∈ issued, InName entry) :
      Orderly homeOf { d with currentUser := some user, issued := issued } :=
    ⟨inName, orderly.ended, fun _ _ => by simp [nothing],
      fun _ last' apart => absurd apart (notHome last')⟩
  unfold Device.run
  split
  · rename_i email launch
    exact absurd launch (placed.notLaunch email)
  · cases now.authDataResult with
    | none => exact orderly.presentAlert
    | some user =>
        refine ⟨orderly.issued, orderly.ended, fun _ _ => ?_,
          fun _ last' apart => absurd apart (notHome last')⟩
        rw [pending_enqueue, nothing, List.nil_append]
        refine ⟨le_rfl, fun c' member => ?_⟩
        obtain rfl := List.mem_singleton.mp member
        refine ⟨rfl, fun uid same => ⟨user, rfl, ?_⟩⟩
        cases same
        rfl
  · rename_i uid is
    obtain ⟨user, current, rfl⟩ := read uid is
    cases found : Controller.signIn user.uid now.users with
    | error trap => exact orderly.trap trap
    | ok screen =>
        obtain ⟨accType, cast, home⟩ := bind_ok.mp found
        cases home
        obtain ⟨profile, at_, rfl⟩ := Option.map_eq_some_iff.mp (forceCast_ok.mp cast)
        exact orderly.presentHome current nothing (stored.home _ _ at_) ⟨_, rfl⟩
  · rename_i handeler is
    cases came : now.authDataResult with
    | none => exact orderly.presentAlert
    | some user =>
        refine Orderly.presentHome (signedIn user _ fun entry member => ?_) rfl nothing
          (segment user handeler is came) ⟨_, rfl⟩
        rcases List.mem_append.mp member with before | new
        · exact orderly.issued entry before
        · cases List.mem_singleton.mp (by simpa [AccountHandeler.registerUser] using new)
          trivial
  all_goals
    rename_i is
    rw [is] at signs
    cases signs

/-- The launch of a user who has a profile. -/
theorem Orderly.runLaunch {c : Pending} {user : AuthDataResult} {now : Moment}
    (orderly : Orderly homeOf d) (signedIn : d.currentUser = some user) (nothing : d.pending = [])
    (launch : c.callback = .launch user.email) (stored : Stored homeOf now.users)
    (own : ∃ profile, now.users.lookup user.uid = some profile ∧ profile.email = user.email) :
    Orderly homeOf (d.run web E c now) := by
  obtain ⟨profile, at_, email⟩ := own
  have found : Model.findUser E user.email now.users = .done [(⟨user.uid, profile⟩, true)] :=
    email ▸ findUser_stored E stored.emails at_
  have home : (if profile.accountType = "Job Searcher" then Screen.exploreVC else .createJobVC) =
      homeOf user.uid := by
    rw [← stored.home _ _ at_]
    rcases stored.title _ _ at_ with searcher | poster
    · rw [searcher]
      rfl
    · rw [poster]
      rfl
  have searcher : ∃ accountType, (if profile.accountType = "Job Searcher" then Screen.exploreVC
      else .createJobVC) = homeScreen accountType := by
    rw [home, ← stored.home _ _ at_]
    exact ⟨_, rfl⟩
  unfold Device.run
  rw [launch]
  simp only [getUserAccountType, found, Issued.map_done, List.map_cons, List.map_nil, Issued.out_done,
    Issued.trap_done, List.getLast?_singleton, Option.map_none]
  exact pushHome (d := { d with ended := none }) [] orderly.issued (by simp) signedIn nothing home searcher

theorem orderly_launched (homeOf : String → Screen) (currentUser : Option AuthDataResult) :
    Orderly homeOf (launched currentUser) := by
  refine ⟨fun _ member => absurd member List.not_mem_nil, by simp [launched], ?_, ?_⟩
  · cases currentUser with
    | none => exact fun _ _ => ⟨Nat.zero_le _, fun _ member => absurd member List.not_mem_nil⟩
    | some user =>
        intro signUp last
        cases last
  · cases currentUser with
    | none =>
        intro shown last apart
        cases last
        exact absurd rfl apart
    | some user =>
        intro shown last
        cases last

theorem Orderly.relaunched (orderly : Orderly homeOf d) : Orderly homeOf d.relaunched where
  issued := orderly.issued
  ended := by simp [Device.relaunched, launched]
  atSignIn := (orderly_launched homeOf d.currentUser).atSignIn
  atHome := (orderly_launched homeOf d.currentUser).atHome

/-- The step of the invariant. -/
theorem Orderly.step {e : Event} (sane : Sane d) (orderly : Orderly homeOf d)
    (patient : Patient homeOf d e) (stepped : Device.step web E d e = some d') :
    Orderly homeOf d' := by
  cases e with
  | relaunch =>
      cases stepped
      exact orderly.relaunched
  | tap t =>
      obtain ⟨_, tapped⟩ := step_tap stepped
      rcases sane with launching | steady
      · unfold Device.tap at tapped
        rw [launching.presented] at tapped
        split at tapped
        · split at tapped
          · cases tapped
            exact orderly.mono rfl launching.presented.symm rfl orderly.issued orderly.ended
          · cases tapped
        · cases t <;> cases tapped
      · exact orderly.tap steady patient tapped
  | fire index now =>
      obtain ⟨running, c, at_, rfl⟩ := step_fire stepped
      obtain ⟨stored, user_⟩ := patient
      have firing : c ∈ d.pending := List.mem_of_getElem? at_
      have fewer : ∀ c' ∈ d.pending.eraseIdx index, c' ∈ d.pending :=
        fun c' rest => List.mem_of_mem_eraseIdx rest
      rcases sane with launching | steady
      · obtain ⟨user, signedIn, pending⟩ := launching.pending running
        obtain rfl := List.mem_singleton.mp (pending ▸ firing)
        obtain rfl : index = 0 := by
          rw [pending] at at_
          obtain ⟨bound, _⟩ := List.getElem?_eq_some_iff.mp at_
          simpa using bound
        have erased : Orderly homeOf { d with pending := d.pending.eraseIdx 0 } :=
          ⟨orderly.issued, orderly.ended,
            fun signUp last => (by rw [launching.presented] at last; cases last),
            fun shown last => (by rw [launching.presented] at last; cases last)⟩
        exact erased.runLaunch signedIn (by simp [pending]) rfl stored
          ((user_ _ at_ user).2 user.email rfl signedIn)
      · have placed := steady.placed c firing
        obtain ⟨shown, last⟩ : ∃ shown, d.presented.getLast? = some shown := by
          cases last : d.presented.getLast? with
          | none => exact absurd (List.getLast?_eq_none_iff.mp last) steady.shown
          | some shown => exact ⟨shown, rfl⟩
        by_cases role : shown.role = .signInVC
        · obtain ⟨signUp, rfl⟩ : ∃ signUp, shown = .signInVC signUp := by
            cases shown <;> first | exact ⟨_, rfl⟩ | cases role
          obtain ⟨small, signs⟩ := orderly.atSignIn signUp last
          have nothing : d.pending.eraseIdx index = [] := by
            obtain ⟨bound, _⟩ := List.getElem?_eq_some_iff.mp at_
            rw [← List.length_eq_zero_iff, List.length_eraseIdx_of_lt bound]
            omega
          have erased : Orderly homeOf { d with pending := d.pending.eraseIdx index } := by
            refine ⟨orderly.issued, orderly.ended, fun _ _ => by simp [nothing], ?_⟩
            intro shown last' apart
            cases last.symm.trans last'
            exact absurd rfl apart
          exact erased.runAtSignIn placed nothing (signs c firing).1 (signs c firing).2 stored
            (fun user handeler is => (user_ c at_ user).1 handeler is) ⟨signUp, last⟩
        · obtain ⟨user, signedIn, home, started⟩ := orderly.atHome shown last role
          have erased : Orderly homeOf { d with pending := d.pending.eraseIdx index } := by
            refine ⟨orderly.issued, orderly.ended, fun signUp last' => ?_, fun shown' last' _ => ?_⟩
            · cases last.symm.trans last'
              exact absurd rfl role
            · cases last.symm.trans last'
              exact ⟨user, signedIn, home, fun c' rest => started c' (fewer c' rest)⟩
          exact erased.runAtHome placed last role signedIn (started c firing).1 (started c firing).2
  | display vc row =>
      obtain ⟨_, displayed⟩ := step_display stepped
      exact orderly.display displayed

end Patience

/-- **In the user's name.**  However the callbacks are ordered, whatever is edited in between,
and whenever the app is launched anew: if the user waits before signing out and before asking
again to be signed in, then every job a device posts has all its seven fields and the email of
the user who tapped, every application has the email of the user who tapped, the app never
ends for want of a signed-in user, and the screen on display is of the role of the one who is
signed in.  As above, the authentication service revokes no session. -/
theorem patient_inOrder {web : Web} {E : Enumeration} {homeOf : String → Screen}
    {currentUser : Option AuthDataResult} {es : List Event}
    (patient : Along (step web E) (Patient homeOf) (launched currentUser) es) {d : Device}
    (ran : Theory.run (step web E) (launched currentUser) es = some d) : InOrder homeOf d := by
  have both : Sane d ∧ Orderly homeOf d :=
    invariant_of_along (I := fun d => Sane d ∧ Orderly homeOf d)
      (fun _ _ _ both patient stepped => ⟨both.1.step stepped, both.2.step both.1 patient stepped⟩)
      es _ _ ⟨sane_launched currentUser, orderly_launched homeOf currentUser⟩ patient ran
  exact both.2.inOrder

/-- Eve signs in, opens Ann's job, applies for it and signs out. -/
def evesVisit : List Event :=
  [.tap .login, .fire 0 .sample, .fire 0 .sample, .fire 0 .sample, .display 1 0,
    .tap (.select 0 .sample), .tap (.applyToJob 0 "v"), .fire 0 .sample, .tap .signOut]

/-- One profile, as a registration stores it. -/
theorem stored_singleton {homeOf : String → Screen} {uid : String} {profile : Profile}
    (title : profile.accountType = "Job Searcher" ∨ profile.accountType = "Job Poster")
    (home : homeScreen (some profile.accountType) = homeOf uid) :
    Stored homeOf (AList.singleton uid profile) := by
  have only {v : String} {stored : Profile}
      (at_ : (AList.singleton uid profile : UserTree).lookup v = some stored) :
      v = uid ∧ stored = profile := by
    obtain rfl := key_of_singleton at_
    rw [← AList.insert_empty, AList.lookup_insert] at at_
    exact ⟨rfl, (Option.some.inj at_).symm⟩
  refine ⟨fun v stored at_ => ?_, fun v stored at_ => ?_,
    fun u v p q listed stored _ => (only listed).1.trans (only stored).1.symm⟩
  · rw [(only at_).2]
    exact title
  · obtain ⟨rfl, rfl⟩ := only at_
    exact home

theorem stored_sample : Stored (fun _ => .exploreVC) Moment.sample.users :=
  stored_singleton (.inl rfl) rfl

/-- Eve's callbacks neither complete a registration nor answer for a launch. -/
theorem patient_fire_sample {d : Device} {index : ℕ} {c : Pending} (at_ : d.pending[index]? = some c)
    (notRegister : ∀ handeler, c.callback ≠ .registerUser handeler)
    (notLaunch : ∀ email, c.callback ≠ .launch email) :
    Patient (fun _ => .exploreVC) d (.fire index .sample) := by
  refine ⟨stored_sample, fun c' at' user => ?_⟩
  cases at_.symm.trans at'
  exact ⟨fun handeler is => absurd is (notRegister handeler), fun email is => absurd is (notLaunch email)⟩

theorem patient_inOrder_eve :
    ∃ d, Theory.run (step CreateJob.twoCities .inserted) (launched none) evesVisit = some d ∧
      d.issued.length = 1 ∧ InOrder (fun _ => .exploreVC) d := by
  refine ⟨_, rfl, rfl, @patient_inOrder CreateJob.twoCities .inserted (fun _ => .exploreVC) none
    evesVisit ?_ _ rfl⟩
  refine fun d₁ tapped => ⟨fun c pending => absurd pending List.not_mem_nil, ?_⟩
  cases tapped
  refine fun d₂ signedIn => ⟨patient_fire_sample rfl (by simp) (by simp), ?_⟩
  cases signedIn
  refine fun d₃ shown => ⟨patient_fire_sample rfl (by simp) (by simp), ?_⟩
  cases shown
  refine fun d₄ loaded => ⟨patient_fire_sample rfl (by simp) (by simp), ?_⟩
  cases loaded
  refine fun d₅ displayed => ⟨trivial, ?_⟩
  cases displayed
  refine fun d₆ opened => ⟨trivial, ?_⟩
  cases opened
  refine fun d₇ tapped => ⟨trivial, ?_⟩
  cases tapped
  refine fun d₈ filed => ⟨patient_fire_sample rfl (by simp) (by simp), ?_⟩
  cases filed
  exact fun d₉ _ => ⟨rfl, trivial⟩

/-- Ann signs out while `CreateJob` looks her up: the job is posted without `jobPoster`, and
the app has ended. -/
example :
    (Theory.run (step CreateJob.twoCities .inserted)
      (launched (some ⟨"u", "password", "ann@x"⟩))
      [.fire 0 { Moment.sample with users := CreateJob.twoCities.users },
        .tap (.createJob .sample), .fire 0 .sample, .fire 0 .sample, .tap .signOut,
        .fire 0 { Moment.sample with users := CreateJob.twoCities.users }]).map
      (fun d => (d.issued.length, d.ended)) = some (1, some .signedOut) := by
  decide +kernel

/-- Login is tapped twice, for Eve and then for Ann: Ann is signed in, on Eve's screen. -/
example :
    (Theory.run (step CreateJob.twoCities .inserted) (launched none)
      [.tap .login, .tap .login, .fire 0 .sample,
        .fire 0 { Moment.sample with authDataResult := some ⟨"ann", "password", "ann@x"⟩ },
        .fire 0 .sample]).map
      (fun d => (d.email, d.presented.getLast?)) = some (some "ann@x", some .exploreVC) := by
  decide +kernel

end JobFinder.Controller.Device
