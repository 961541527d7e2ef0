/-
# Controller.Roles -- searchers apply, and posters post

Nothing in the database ties a write to an account type: which screens a user sees is all
that keeps a searcher from posting a job.  The home screen is that of the account type
(`Attribution.Orderly`), and the screens of one home do not lead to the other.

So what a device has pending for the screens of a home belongs to the user who is signed in,
whose home it is, and what it has issued there was issued for such a user (`InRole.step`).
That the users are known accounts is what the authentication service answers with.
-/
import JobFinder.Controller.Attribution
import JobFinder.Controller.Sending

namespace JobFinder.Controller

open JobFinder.Theory JobFinder.Database JobFinder.Model

set_option autoImplicit false

/-- What ends in a sign-in belongs to neither home. -/
theorem Callback.role_of_signsIn {callback : Callback} (signs : callback.signsIn = true) :
    callback.role = none := by
  cases callback <;> first | rfl | cases signs

theorem Callback.signsIn_of_authenticates {callback : Callback}
    (authenticates : callback.authenticates = true) : callback.signsIn = true := by
  cases callback <;> first | rfl | cases authenticates

/-- No callback is for the `SignInVC`. -/
theorem Callback.role_ne_signInVC {callback : Callback} : callback.role ≠ some .signInVC := by
  cases callback <;> simp [role]

namespace Device

/-- The authentication service answers with accounts that are known. -/
def Genuine (Known : AuthDataResult → Prop) (d : Device) : Event → Prop
  | .tap _ | .display _ _ | .relaunch => True
  | .fire index now => ∀ c ∈ d.pending[index]?, c.callback.authenticates = true →
      ∀ user ∈ now.authDataResult, Known user

/-- Whoever is signed in is known; what is pending for the screens of a home is pending for
its user, and what was issued there was issued for one. -/
structure InRole (homeOf : String → Screen) (Known : AuthDataResult → Prop) (d : Device) : Prop where
  known : ∀ user ∈ d.currentUser, Known user
  pending : ∀ c ∈ d.pending, ∀ screen, c.callback.role = some screen →
    ∃ user ∈ d.currentUser, homeOf user.uid = screen
  issued : ∀ entry ∈ d.issued, ∀ screen, entry.2.role = some screen →
    ∃ user, Known user ∧ entry.1 = some user.email ∧ homeOf user.uid = screen

section Roles

variable {web : Web} {E : Enumeration} {homeOf : String → Screen} {Known : AuthDataResult → Prop}
  {d d' : Device} {c : Pending}

theorem inRole_launched {currentUser : Option AuthDataResult}
    (known : ∀ user ∈ currentUser, Known user) : InRole homeOf Known (launched currentUser) where
  known := known
  pending c member screen is := by
    obtain ⟨user, _, rfl⟩ := Option.map_eq_some_iff.mp (Option.mem_toList.mp member)
    cases is
  issued _ member := absurd member List.not_mem_nil

/-- A sign-in, or a launch, is alone; anything else is for the user who is signed in. -/
theorem Orderly.pending_cases (sane : Sane d) (orderly : Orderly homeOf d) (running : d.ended = none)
    (member : c ∈ d.pending) : (d.pending.length ≤ 1 ∧ c.callback.role = none) ∨
      (c.callback.signsIn = false ∧ ∃ user ∈ d.currentUser, c.startedBy = some user.email) := by
  rcases sane with launching | steady
  · obtain ⟨user, _, pending⟩ := launching.pending running
    rw [pending] at member ⊢
    obtain rfl := List.mem_singleton.mp member
    exact .inl ⟨le_rfl, rfl⟩
  · obtain ⟨shown, last⟩ := Option.ne_none_iff_exists'.mp (mt List.getLast?_eq_none_iff.mp steady.shown)
    by_cases role : shown.role = .signInVC
    · obtain ⟨signUp, rfl⟩ : ∃ signUp, shown = .signInVC signUp := by
        cases shown <;> first | exact ⟨_, rfl⟩ | cases role
      obtain ⟨small, signs⟩ := orderly.atSignIn signUp last
      exact .inl ⟨small, Callback.role_of_signsIn (signs c member).1⟩
    · obtain ⟨user, signedIn, _, started⟩ := orderly.atHome shown last role
      exact .inr ⟨(started c member).1, user, signedIn, (started c member).2⟩

/-- A tap of a patient user. -/
theorem InRole.tap {t : Tap} (inRole : InRole homeOf Known d) (orderly : Orderly homeOf d)
    (patient : Patient homeOf d (.tap t)) (tapped : d.tap web E t = some d') : InRole homeOf Known d' := by
  have issued : d'.issued = d.issued := issued_tap tapped
  by_cases leaves : t = .signOut
  · subst leaves
    obtain ⟨nobody, pending⟩ := tap_signOut tapped
    have nothing : d.pending = [] := patient
    exact ⟨by simp [nobody], by simp [pending, nothing], issued ▸ inRole.issued⟩
  · have same : d'.currentUser = d.currentUser := by
      rw [currentUser_tap tapped]
      cases t <;> first | rfl | exact absurd rfl leaves
    refine ⟨same ▸ inRole.known, fun c member screen is => ?_, issued ▸ inRole.issued⟩
    rw [same]
    rcases starts_tap tapped member with before | new
    · exact inRole.pending c before screen is
    · obtain ⟨shown, last, rfl⟩ := new.role screen is
      obtain ⟨user, signedIn, home, _⟩ := orderly.atHome shown last fun signIn =>
        Callback.role_ne_signInVC (is.trans (congrArg some signIn))
      exact ⟨user, signedIn, home.symm⟩

/-- A callback, of an answer that is genuine. -/
theorem InRole.fire {index : ℕ} {now : Moment} (inRole : InRole homeOf Known d) (sane : Sane d)
    (orderly : Orderly homeOf d) (running : d.ended = none)
    (genuine : Genuine Known d (.fire index now)) (at_ : d.pending[index]? = some c) :
    InRole homeOf Known ({ d with pending := d.pending.eraseIdx index }.run web E c now) := by
  have member : c ∈ d.pending := List.mem_of_getElem? at_
  have user : ({ d with pending := d.pending.eraseIdx index }.run web E c now).currentUser = _ :=
    currentUser_run now
  obtain ⟨more, pending, next⟩ : Starts now.postedJobs c.callback
    { d with pending := d.pending.eraseIdx index }
    ({ d with pending := d.pending.eraseIdx index }.run web E c now) := starts_run now
  obtain ⟨writes, issued, _, sent⟩ :=
    @issues_run web E { d with pending := d.pending.eraseIdx index } c now
  rcases orderly.pending_cases sane running member with
    ⟨small, noRole⟩ | ⟨signs, starter, current, startedBy⟩
  · -- the only callback, and for no home
    have nothing : d.pending.eraseIdx index = [] := by
      obtain ⟨bound, _⟩ := List.getElem?_eq_some_iff.mp at_
      rw [← List.length_eq_zero_iff, List.length_eraseIdx_of_lt bound]
      omega
    refine ⟨fun account signedIn => ?_, fun c' pends screen is => ?_, fun entry isIssued screen is => ?_⟩
    · rw [user] at signedIn
      split at signedIn
      · rename_i authenticates
        rcases Option.or_eq_some_iff.mp signedIn with answer | ⟨_, before⟩
        · exact genuine c at_ authenticates account answer
        · exact inRole.known account before
      · exact inRole.known account signedIn
    · rw [pending, nothing, List.nil_append] at pends
      rw [(next c' pends).role_eq, noRole] at is
      cases is
    · rw [issued] at isIssued
      rcases List.mem_append.mp isIssued with before | new
      · exact inRole.issued entry before screen is
      · rw [(sent entry new).2, noRole] at is
        cases is
  · -- nobody signs in
    have same : ({ d with pending := d.pending.eraseIdx index }.run web E c now).currentUser =
        d.currentUser := by
      rw [user, if_neg]
      intro authenticates
      rw [Callback.signsIn_of_authenticates authenticates] at signs
      cases signs
    refine ⟨fun account signedIn => ?_, fun c' pends screen is => ?_, fun entry isIssued screen is => ?_⟩
    · rw [same] at signedIn
      exact inRole.known account signedIn
    · rw [same]
      rw [pending] at pends
      rcases List.mem_append.mp pends with rest | new
      · exact inRole.pending c' (List.mem_of_mem_eraseIdx rest) screen is
      · rw [(next c' new).role_eq] at is
        exact inRole.pending c member screen is
    · rw [issued] at isIssued
      rcases List.mem_append.mp isIssued with before | new
      · exact inRole.issued entry before screen is
      · obtain ⟨by_, role⟩ := sent entry new
        obtain ⟨account, signedIn, home⟩ := inRole.pending c member screen (role ▸ is)
        obtain rfl : account = starter := Option.mem_unique signedIn current
        exact ⟨account, inRole.known account signedIn, by_.trans startedBy, home⟩

theorem InRole.relaunched (inRole : InRole homeOf Known d) : InRole homeOf Known d.relaunched where
  known := inRole.known
  pending := (inRole_launched inRole.known).pending
  issued := inRole.issued

/-- **The step of the invariant.** -/
theorem InRole.step {e : Event} (inRole : InRole homeOf Known d) (sane : Sane d)
    (orderly : Orderly homeOf d) (patient : Patient homeOf d e) (genuine : Genuine Known d e)
    (stepped : Device.step web E d e = some d') : InRole homeOf Known d' := by
  cases e with
  | relaunch =>
      cases stepped
      exact inRole.relaunched
  | tap t =>
      obtain ⟨_, tapped⟩ := step_tap stepped
      exact inRole.tap orderly patient tapped
  | fire index now =>
      obtain ⟨running, c, at_, rfl⟩ := step_fire stepped
      exact inRole.fire sane orderly running genuine at_
  | display vc row =>
      obtain ⟨_, displayed⟩ := step_display stepped
      obtain ⟨ended, rfl⟩ := display_eq displayed
      exact ⟨inRole.known, inRole.pending, inRole.issued⟩

end Roles

end Device

end JobFinder.Controller
