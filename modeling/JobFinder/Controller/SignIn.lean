/-
# Controller.SignIn -- two ways to the home screen of a signed-in user

A user who signs in is sent to the home screen by the account type under the
account's uid, with everyone but posters sent to the searchers' screen.  A user
who is still signed in when the app launches is sent there by the account type of
the profiles that hold the account's *email*, with everyone but searchers sent to
the posters' screen.

The two agree on every profile that a registration has written
(`Accounts.launch_eq_signIn`): a stored profile holds the email of the account with
its uid, no two accounts share an email, and a stored account type is one of the
two titles of the form.  `Accounts.Consistent` is that invariant.
-/
import JobFinder.Controller.SignUp

namespace JobFinder.Controller

open JobFinder.Theory JobFinder.Database JobFinder.Model

set_option autoImplicit false

/-- `SignInVC.SignIn` after a login, when its read is delivered: the screen it
presents. -/
def signIn (uid : String) (users : UserTree) : Except Trap Screen := do
  let accType ← forceCast ((users.lookup uid).map Profile.accountType)
  return homeScreen (some accType)

/-- `scene(_:willConnectTo:options:)`, given the email of the current user if there
is one: the root view controllers it sets, in order. -/
def scene (E : Enumeration) (currentUser : Option String) (users : UserTree) : Issued Screen :=
  match currentUser with
  | some email =>
      (getUserAccountType E email users).map fun result =>
        if result = "Job Searcher" then .exploreVC else .createJobVC
  | none => .done [.signInVC]

/-- The accounts by uid, the profiles, the profile writes issued and not yet decided,
and the uid signed in on each device.  The last two no step reads: the profile writes
that registrations have issued, and those of them that have come to nothing. -/
structure Accounts where
  accounts : Dict String AuthDataResult
  users : UserTree
  writes : List ProfileWrite
  sessions : Dict ℕ String
  issued : List ProfileWrite
  rejected : List ProfileWrite

namespace Accounts

inductive Event where
  /-- A registration on a device completes with an account. -/
  | register (device : ℕ) (form : SignUpForm) (authDataResult : AuthDataResult)
  /-- A profile write is applied. -/
  | apply (write : ℕ)
  /-- A profile write is rejected by the server, or lost with the app that issued it. -/
  | reject (write : ℕ)
  | signIn (device : ℕ) (uid : String)
  | signOut (device : ℕ)
deriving DecidableEq, Repr

/-- Nobody has registered. -/
def initial : Accounts := ⟨∅, ∅, [], ∅, [], []⟩

/-- A new account has a uid of its own and an email of its own. -/
def New (s : Accounts) (authDataResult : AuthDataResult) : Prop :=
  authDataResult.uid ∉ s.accounts ∧
    ∀ entry ∈ s.accounts.entries, entry.2.email ≠ authDataResult.email

instance (s : Accounts) (authDataResult : AuthDataResult) : Decidable (s.New authDataResult) :=
  inferInstanceAs (Decidable (_ ∧ _))

/-- One event.  `createUser` also signs the new user in. -/
def step (s : Accounts) : Event → Option Accounts
  | .register device form authDataResult =>
      match signUp form with
      | .ok (some self) =>
          if s.New authDataResult then
            some { s with
              accounts := s.accounts.insert authDataResult.uid authDataResult
              writes := s.writes ++ (self.registerUser (some authDataResult)).1.toList
              sessions := s.sessions.insert device authDataResult.uid
              issued := s.issued ++ (self.registerUser (some authDataResult)).1.toList }
          else none
      | _ => none
  | .apply i =>
      s.writes[i]?.map fun w =>
        { s with users := createDBUser w.uid w.userData s.users, writes := s.writes.eraseIdx i }
  | .reject i =>
      s.writes[i]?.map fun w => { s with writes := s.writes.eraseIdx i, rejected := w :: s.rejected }
  | .signIn device uid =>
      if uid ∈ s.accounts then some { s with sessions := s.sessions.insert device uid } else none
  | .signOut device => some { s with sessions := s.sessions.erase device }

/-- `Auth.auth().currentUser?.email` on a device. -/
def currentUser (s : Accounts) (device : ℕ) : Option String :=
  (s.sessions.lookup device).bind fun uid => (s.accounts.lookup uid).map AuthDataResult.email

/-- What a registration stores under a uid: the email of the account with that uid,
and one of the two titles of the form. -/
def Describes (s : Accounts) (uid : String) (profile : Profile) : Prop :=
  (∃ account, s.accounts.lookup uid = some account ∧ profile.email = account.email) ∧
    (profile.accountType = "Job Searcher" ∨ profile.accountType = "Job Poster")

/-- The accounts have emails of their own, and profiles, stored or about to be, describe
the account of their uid. -/
structure Consistent (s : Accounts) : Prop where
  emails : ∀ u v a b, s.accounts.lookup u = some a → s.accounts.lookup v = some b →
    a.email = b.email → u = v
  users : ∀ uid profile, s.users.lookup uid = some profile → s.Describes uid profile
  writes : ∀ w ∈ s.writes, s.Describes w.uid w.userData

theorem consistent_initial : Consistent initial where
  emails _ _ _ _ impossible := nomatch impossible
  users _ _ impossible := nomatch impossible
  writes _ impossible := nomatch impossible

/-- An account type that a form was submitted with is one of its two titles. -/
theorem accountType_titles {form : SignUpForm} {title : String}
    (titled : form.accountType = some title) : title = "Job Searcher" ∨ title = "Job Poster" := by
  have member : title ∈ ["Job Searcher", "Job Poster"] := List.mem_of_getElem? titled
  simpa using member

/-- A profile goes on describing its account when another account is created. -/
theorem Describes.insert {s s' : Accounts} {uid : String} {profile : Profile}
    (describes : s.Describes uid profile) {authDataResult : AuthDataResult}
    (new : s.New authDataResult)
    (accounts : s'.accounts = s.accounts.insert authDataResult.uid authDataResult) :
    s'.Describes uid profile := by
  obtain ⟨⟨account, known, email⟩, title⟩ := describes
  have other : uid ≠ authDataResult.uid := by
    rintro rfl
    exact new.1 (AList.lookup_isSome.mp (by rw [known]; rfl))
  exact ⟨⟨account, by rw [accounts, AList.lookup_insert_ne other, known], email⟩, title⟩

/-- A new account keeps the emails of the accounts apart. -/
theorem emails_insert {s : Accounts} (consistent : s.Consistent) {new : AuthDataResult}
    (isNew : s.New new) :
    ∀ u v a b, (s.accounts.insert new.uid new).lookup u = some a →
      (s.accounts.insert new.uid new).lookup v = some b → a.email = b.email → u = v := by
  have apart : ∀ u a, s.accounts.lookup u = some a → a.email ≠ new.email := fun u a known =>
    isNew.2 ⟨u, a⟩ (AList.mem_lookup_iff.mp known)
  intro u v a b atU atV same
  by_cases isU : u = new.uid <;> by_cases isV : v = new.uid
  · rw [isU, isV]
  · subst isU
    rw [AList.lookup_insert] at atU
    rw [AList.lookup_insert_ne isV] at atV
    cases atU
    exact absurd same.symm (apart v b atV)
  · subst isV
    rw [AList.lookup_insert_ne isU] at atU
    rw [AList.lookup_insert] at atV
    cases atV
    exact absurd same (apart u a atU)
  · rw [AList.lookup_insert_ne isU] at atU
    rw [AList.lookup_insert_ne isV] at atV
    exact consistent.emails u v a b atU atV same

/-- Only an account that is there is signed in. -/
theorem signIn_cases {s s' : Accounts} {device : ℕ} {uid : String}
    (stepped : s.step (.signIn device uid) = some s') :
    uid ∈ s.accounts ∧ s' = { s with sessions := s.sessions.insert device uid } := by
  simp only [Accounts.step] at stepped
  split at stepped <;> cases stepped
  exact ⟨‹_›, rfl⟩

/-- The step of the invariant. -/
theorem Consistent.step {s s' : Accounts} {e : Event} (consistent : s.Consistent)
    (stepped : s.step e = some s') : s'.Consistent := by
  cases e with
  | register device form authDataResult =>
      simp only [Accounts.step] at stepped
      split at stepped
      · rename_i self asked
        split at stepped
        · rename_i new
          cases stepped
          refine ⟨emails_insert consistent new, ?_, ?_⟩
          · exact fun uid profile stored => (consistent.users uid profile stored).insert new rfl
          · intro w issued
            rcases List.mem_append.mp issued with before | now
            · exact (consistent.writes w before).insert new rfl
            · obtain rfl := List.mem_singleton.mp now
              obtain ⟨_, _, _, titled⟩ := signUp_ok asked
              exact ⟨⟨authDataResult, AList.lookup_insert _, rfl⟩, accountType_titles titled⟩
        · cases stepped
      · cases stepped
  | apply i =>
      obtain ⟨w, issued, rfl⟩ := Option.map_eq_some_iff.mp stepped
      refine ⟨consistent.emails, ?_, ?_⟩
      · intro uid profile stored
        by_cases same : uid = w.uid
        · subst same
          have written : some w.userData = some profile := (AList.lookup_insert _).symm.trans stored
          cases written
          exact consistent.writes w (List.mem_of_getElem? issued)
        · refine consistent.users uid profile ?_
          rw [← stored]
          exact (AList.lookup_insert_ne same).symm
      · exact fun w' member => consistent.writes w' (List.mem_of_mem_eraseIdx member)
  | reject i =>
      obtain ⟨w, issued, rfl⟩ := Option.map_eq_some_iff.mp stepped
      exact ⟨consistent.emails, consistent.users,
        fun w' member => consistent.writes w' (List.mem_of_mem_eraseIdx member)⟩
  | signIn device uid =>
      obtain ⟨_, rfl⟩ := signIn_cases stepped
      exact ⟨consistent.emails, consistent.users, consistent.writes⟩
  | signOut device =>
      cases stepped
      exact ⟨consistent.emails, consistent.users, consistent.writes⟩

theorem Consistent.emailsDistinct {s : Accounts} (consistent : s.Consistent) :
    s.users.EmailsDistinct := by
  intro u v p q atU atV same
  obtain ⟨⟨a, knownU, emailU⟩, _⟩ := consistent.users u p atU
  obtain ⟨⟨b, knownV, emailV⟩, _⟩ := consistent.users v q atV
  exact consistent.emails u v a b knownU knownV (emailU.symm.trans (same.trans emailV))

/-- **The two ways agree.**  However registrations, profile writes, sign-ins and sign-outs
are interleaved, a signed-in user whose profile has been stored is sent to one screen
by the launch, and to the same screen by a sign-in: the posters' screen if the
stored account type is "Job Poster", and the searchers' screen otherwise. -/
theorem launch_eq_signIn {es : List Event} {s : Accounts} (ran : run step initial es = some s)
    {device : ℕ} {uid : String} (signedIn : s.sessions.lookup device = some uid)
    {profile : Profile} (stored : s.users.lookup uid = some profile) (E : Enumeration) :
    ∃ screen, scene E (s.currentUser device) s.users = .done [screen] ∧
      signIn uid s.users = .ok screen ∧
      screen = if profile.accountType = "Job Poster" then .createJobVC else .exploreVC := by
  have consistent : s.Consistent :=
    invariant_of_run (I := Consistent) (fun _ _ _ => Consistent.step) consistent_initial ran
  obtain ⟨⟨account, known, email⟩, title⟩ := consistent.users uid profile stored
  have found : findUser E account.email s.users = .done [(⟨uid, profile⟩, true)] :=
    email ▸ findUser_stored E consistent.emailsDistinct stored
  have current : s.currentUser device = some account.email := by
    rw [currentUser, signedIn, Option.bind_some, known, Option.map_some]
  refine ⟨_, ?_, ?_, rfl⟩
  · simp only [current, scene, getUserAccountType, found, Issued.map_done, List.map_cons, List.map_nil]
    rcases title with searcher | poster
    · rw [searcher]
      rfl
    · rw [poster]
      rfl
  · rw [signIn, stored]
    rcases title with searcher | poster
    · simp only [Option.map_some, searcher]
      rfl
    · simp only [Option.map_some, poster]
      rfl

/-- A poster registers, and signs in again on a second device. -/
theorem launch_eq_signIn_sample :
    ∃ s, run step initial
        [.register 0 { SignUpForm.sample with selectedSegmentIndex := 1 } ⟨"u", "password", "eve@x"⟩,
          .apply 0, .signIn 1 "u"] = some s ∧
      ∃ screen, scene .inserted (s.currentUser 1) s.users = .done [screen] ∧
        signIn "u" s.users = .ok screen ∧
        screen = if "Job Poster" = "Job Poster" then .createJobVC else .exploreVC :=
  ⟨_, rfl, @launch_eq_signIn
    [.register 0 { SignUpForm.sample with selectedSegmentIndex := 1 } ⟨"u", "password", "eve@x"⟩,
      .apply 0, .signIn 1 "u"] _ rfl 1 "u" rfl
    ⟨"password", "eve@x", "Eve", "Hill", "Job Poster"⟩ rfl .inserted⟩

end Accounts

end JobFinder.Controller
