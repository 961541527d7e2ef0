/-
# Controller.SignUp -- what a registration stores, and the screen it opens

`SignUpVC.SignUp` captures the form when it is tapped.  When `RegisterUser` reports
success it looks at the form again: the home screen it presents is the one for the
segment selected *then*.  The write of the profile may at that point still be
applied, be rejected, or never be sent.

`SignUp.completed_registered_iff` is exact: after a success report the profile is
stored as it was at the tap, and the screen presented is the one for it, if and
only if the write is applied and the segment at the completion leads to the same
screen as the segment at the tap.
-/
import JobFinder.Model.AccountHandeler
import JobFinder.Model.DataHandeler
import JobFinder.Theory.Run

namespace JobFinder.Controller

open JobFinder.Theory JobFinder.Database JobFinder.Model

set_option autoImplicit false

/-- The view controllers a signed-in or signed-out user may be sent to. -/
inductive Screen where
  | signInVC
  | createJobVC
  | exploreVC
deriving DecidableEq, Repr

/-- The screen for an account type, where posters are told from all others. -/
def homeScreen : Option String → Screen
  | some "Job Poster" => .createJobVC
  | _ => .exploreVC

/-- The form of `SignUpVC`. -/
structure SignUpForm where
  emailTxt : String
  passwordTxt : String
  firstNameTxt : String
  lastNameTxt : String
  selectedSegmentIndex : ℕ
deriving DecidableEq, Repr

/-- `accountTypeSeg.titleForSegment(at: i)`. -/
def titleForSegment (i : ℕ) : Option String := ["Job Searcher", "Job Poster"][i]?

/-- The title of the selected segment. -/
def SignUpForm.accountType (form : SignUpForm) : Option String :=
  titleForSegment form.selectedSegmentIndex

/-- The form of a job searcher. -/
def SignUpForm.sample : SignUpForm := ⟨"eve@x", "secret", "Eve", "Hill", 0⟩

/-- A tap on Sign Up: the registration it asks for, if every field is filled in. -/
def signUp (form : SignUpForm) : Except Trap (Option AccountHandeler) :=
  if form.emailTxt ≠ "" ∧ form.passwordTxt ≠ "" ∧ form.firstNameTxt ≠ "" ∧
      form.lastNameTxt ≠ "" then do
    let accountType ← unwrap form.accountType
    return some ⟨form.emailTxt, form.passwordTxt, form.firstNameTxt, form.lastNameTxt, accountType⟩
  else return none

/-- A tap that asks for a registration captures the form. -/
theorem signUp_ok {form : SignUpForm} {self : AccountHandeler} (tapped : signUp form = .ok (some self)) :
    self.email = form.emailTxt ∧ self.firstName = form.firstNameTxt ∧
      self.lastName = form.lastNameTxt ∧ form.accountType = some self.accountType := by
  unfold signUp at tapped
  split at tapped
  · obtain ⟨accountType, titled, tapped⟩ := bind_ok.mp tapped
    cases tapped
    exact ⟨rfl, rfl, rfl, unwrap_ok.mp titled⟩
  · cases tapped

/-- A registration under way: the form, the profiles, the profile write that is
issued and not yet decided, what `createUser` came back with, and the screen
presented. -/
structure SignUp where
  form : SignUpForm
  users : UserTree
  write : Option ProfileWrite
  completed : Option (Option AuthDataResult)
  presented : Option Screen

namespace SignUp

inductive Event where
  /-- The user changes the form. -/
  | edit (form : SignUpForm)
  /-- `createUser` completes, with an account or with an error. -/
  | complete (authDataResult : Option AuthDataResult)
  /-- The profile write is applied by the server. -/
  | apply
  /-- The profile write is rejected by the server. -/
  | reject
deriving DecidableEq, Repr

/-- The screen just after the tap. -/
def tapped (form : SignUpForm) (users : UserTree) : SignUp := ⟨form, users, none, none, none⟩

/-- One event.  An account is created with the email entered, under a new uid.  A
run in which the app dies is one that ends. -/
def step (self : AccountHandeler) (s : SignUp) : Event → Option SignUp
  | .edit form => some { s with form := form }
  | .complete authDataResult =>
      if s.completed = none ∧
          ∀ account ∈ authDataResult, account.email = self.email ∧ account.uid ∉ s.users then
        some { s with
          write := (self.registerUser authDataResult).1
          completed := some authDataResult
          presented :=
            if (self.registerUser authDataResult).2 then some (homeScreen s.form.accountType)
            else s.presented }
      else none
  | .apply =>
      s.write.map fun w => { s with users := createDBUser w.uid w.userData s.users, write := none }
  | .reject => s.write.map fun _ => { s with write := none }

/-- The profile is stored as it was at the tap, and the screen presented is the one
for it. -/
def Registered (form : SignUpForm) (uid : String) (s : SignUp) : Prop :=
  ∃ profile, s.users.lookup uid = some profile ∧ profile.email = form.emailTxt ∧
    profile.firstName = form.firstNameTxt ∧ profile.lastName = form.lastNameTxt ∧
    form.accountType = some profile.accountType ∧
    s.presented = some (homeScreen (some profile.accountType))

section Registration

variable {self : AccountHandeler} {s t : SignUp} {es : List Event}

/-- Until `createUser` completes, only the form changes. -/
structure Waiting (users : UserTree) (s : SignUp) : Prop where
  write : s.write = none
  users : s.users = users

theorem waiting_step {users : UserTree} {e : Event} (waiting : s.completed = none → Waiting users s)
    (stepped : step self s e = some t) : t.completed = none → Waiting users t := by
  cases e with
  | edit form =>
      cases stepped
      exact fun open_ => ⟨(waiting open_).write, (waiting open_).users⟩
  | complete authDataResult =>
      simp only [step] at stepped
      split at stepped
      · cases stepped
        exact fun impossible => nomatch impossible
      · cases stepped
  | apply =>
      obtain ⟨w, issued, rfl⟩ := Option.map_eq_some_iff.mp stepped
      exact fun open_ => nomatch issued.symm.trans (waiting open_).write
  | reject =>
      obtain ⟨w, issued, rfl⟩ := Option.map_eq_some_iff.mp stepped
      exact fun open_ => nomatch issued.symm.trans (waiting open_).write

/-- After the completion the screen stays, and the profiles change exactly if the
issued write is applied. -/
theorem run_completed (closed : s.completed ≠ none) (ran : run (step self) s es = some t) :
    t.presented = s.presented ∧
      ((∃ w, s.write = some w ∧ .apply ∈ es ∧ t.users = createDBUser w.uid w.userData s.users) ∨
        (.apply ∉ es ∧ t.users = s.users)) := by
  induction es generalizing s with
  | nil =>
      cases ran
      exact ⟨rfl, .inr ⟨List.not_mem_nil, rfl⟩⟩
  | cons e es ih =>
      obtain ⟨s', stepped, rest⟩ := run_cons_some.mp ran
      cases e with
      | edit form =>
          cases stepped
          simpa using ih (s := { s with form := form }) closed rest
      | complete authDataResult =>
          simp [step, closed] at stepped
      | apply =>
          obtain ⟨w, issued, rfl⟩ := Option.map_eq_some_iff.mp stepped
          obtain ⟨presented, ⟨w', impossible, _⟩ | ⟨_, users⟩⟩ :=
            ih (s := { s with users := createDBUser w.uid w.userData s.users, write := none })
              closed rest
          · cases impossible
          · exact ⟨presented, .inl ⟨w, issued, List.mem_cons_self, users⟩⟩
      | reject =>
          obtain ⟨w, issued, rfl⟩ := Option.map_eq_some_iff.mp stepped
          obtain ⟨presented, ⟨w', impossible, _⟩ | ⟨never, users⟩⟩ :=
            ih (s := { s with write := none }) closed rest
          · cases impossible
          · exact ⟨presented, .inr ⟨by simpa using never, users⟩⟩

/-- What the completion does to a registration that is waiting. -/
theorem step_complete {users : UserTree} {authDataResult : Option AuthDataResult}
    (waiting : s.completed = none → Waiting users s)
    (stepped : step self s (.complete authDataResult) = some t) :
    (∀ account ∈ authDataResult, account.email = self.email ∧ account.uid ∉ users) ∧
      t.users = users ∧ t.completed ≠ none ∧ t.write = (self.registerUser authDataResult).1 ∧
      ((self.registerUser authDataResult).2 = true →
        t.presented = some (homeScreen s.form.accountType)) := by
  simp only [step] at stepped
  split at stepped
  · rename_i enabled
    obtain ⟨open_, created⟩ := enabled
    have same := (waiting open_).users
    cases stepped
    exact ⟨same ▸ created, same, by simp, rfl, fun reported => by simp [reported]⟩
  · cases stepped

end Registration

/-- **What a registration ends with.**  Whatever the user changes on the form: if
`RegisterUser` reports success, then the profile is stored as the form was at the
tap, and the screen presented is the one for it, if and only if the profile write
is applied and the segment selected at the completion leads to the same screen as
the one at the tap.  If it reports failure, no profile has been added. -/
theorem completed_registered_iff {form : SignUpForm} {users : UserTree} {self : AccountHandeler}
    (asked : signUp form = .ok (some self)) {pre post : List Event}
    {authDataResult : Option AuthDataResult} {s : SignUp}
    (ran : run (step self) (.tapped form users) (pre ++ .complete authDataResult :: post) = some s) :
    (∀ account, authDataResult = some account →
      (Registered form account.uid s ↔
        .apply ∈ post ∧ ∀ s₁, run (step self) (.tapped form users) pre = some s₁ →
          homeScreen s₁.form.accountType = homeScreen form.accountType)) ∧
      (authDataResult = none → s.users = users) := by
  obtain ⟨s₁, before, after⟩ := run_append_some.mp ran
  obtain ⟨s₂, completes, decided⟩ := run_cons_some.mp after
  have waiting : s₁.completed = none → Waiting users s₁ :=
    invariant_of_run (I := fun s => s.completed = none → Waiting users s)
      (fun _ _ _ => waiting_step) (fun _ => ⟨rfl, rfl⟩) before
  obtain ⟨created, stored, closed, issued, presents⟩ := step_complete waiting completes
  obtain ⟨presented, outcome⟩ := run_completed closed decided
  constructor
  · rintro account rfl
    obtain ⟨email, newUid⟩ := created account rfl
    obtain ⟨email', firstName, lastName, titled⟩ := signUp_ok asked
    rw [presents rfl] at presented
    have sameScreen : (∀ s₁', run (step self) (.tapped form users) pre = some s₁' →
        homeScreen s₁'.form.accountType = homeScreen form.accountType) ↔
          homeScreen s₁.form.accountType = homeScreen form.accountType :=
      ⟨fun all => all s₁ before, fun same s₁' before' => by
        cases before.symm.trans before'
        exact same⟩
    rw [sameScreen, titled]
    constructor
    · rintro ⟨profile, found, _, _, _, titled', shown⟩
      rcases outcome with ⟨w, written, applied, _⟩ | ⟨_, same⟩
      · refine ⟨applied, Option.some.inj ?_⟩
        rw [← presented, shown, ← titled', titled]
      · rw [same, stored, AList.lookup_eq_none.mpr newUid] at found
        cases found
    · rintro ⟨applied, same⟩
      rcases outcome with ⟨w, written, _, users'⟩ | ⟨never, _⟩
      · cases issued.symm.trans written
        refine ⟨⟨account.providerID, account.email, self.firstName, self.lastName,
          self.accountType⟩, ?_, email.trans email', firstName, lastName, titled,
          presented.trans (congrArg some same)⟩
        rw [users']
        exact AList.lookup_insert _
      · exact absurd applied never
  · rintro rfl
    rcases outcome with ⟨w, written, _⟩ | ⟨_, same⟩
    · cases issued.symm.trans written
    · rw [same, stored]

/-- The registration that the form asks for. -/
def sampleHandeler : AccountHandeler := ⟨"eve@x", "secret", "Eve", "Hill", "Job Searcher"⟩

/-- The account that is created for it. -/
def sampleAccount : AuthDataResult := ⟨"u", "password", "eve@x"⟩

/-- A registration that is left alone, with its write applied. -/
theorem completed_registered_iff_sample :
    ∃ s, run (step sampleHandeler) (.tapped .sample ∅)
        ([] ++ .complete (some sampleAccount) :: [.apply]) = some s ∧
      (∀ account, some sampleAccount = some account →
        (Registered .sample account.uid s ↔
          .apply ∈ [Event.apply] ∧ ∀ s₁, run (step sampleHandeler) (.tapped .sample ∅) [] = some s₁ →
            homeScreen s₁.form.accountType = homeScreen SignUpForm.sample.accountType)) ∧
      (some sampleAccount = none → s.users = ∅) :=
  ⟨_, rfl, @completed_registered_iff .sample ∅ sampleHandeler rfl [] [.apply] _ _ rfl⟩

/-- The user switches the segment before the completion, and is stored as a searcher
and sent to the posters' screen; or the profile write is rejected, and success was
reported for a profile that is nowhere. -/
theorem completed_not_registered :
    (∃ s, run (step sampleHandeler) (.tapped .sample ∅)
        [.edit { SignUpForm.sample with selectedSegmentIndex := 1 },
          .complete (some sampleAccount), .apply] = some s ∧
      ¬ Registered .sample "u" s) ∧
    ∃ s, run (step sampleHandeler) (.tapped .sample ∅)
        [.complete (some sampleAccount), .reject] = some s ∧
      ¬ Registered .sample "u" s := by
  refine ⟨⟨_, rfl, ?_⟩, ⟨_, rfl, ?_⟩⟩
  · rintro ⟨profile, stored, _, _, _, titled, shown⟩
    rw [← titled] at shown
    exact absurd shown (by decide)
  · rintro ⟨profile, stored, _⟩
    cases stored

end SignUp

end JobFinder.Controller
