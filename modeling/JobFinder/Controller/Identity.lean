/-
# Controller.Identity -- who an email names

An application keeps nothing of its applicant but the email that was signed in when it was
filed.  `ShowUserInfo` looks the email up among the profiles, maybe much later.

An account is never changed and never removed, no two accounts share an email, and a uid
gets one profile write, that of its registration.  So an email goes on naming one uid, and
the profile found under it has the names that were typed when its account was made
(`applicant_shown`).
-/
import JobFinder.Controller.ApplicantCells
import JobFinder.Controller.SignIn

namespace JobFinder.Controller.Accounts

open JobFinder.Theory JobFinder.Database JobFinder.Model

set_option autoImplicit false

/-- The profile is that of the account, with the texts of the form. -/
structure FilledIn (form : SignUpForm) (account : AuthDataResult) (profile : Profile) : Prop where
  provider : profile.provider = account.providerID
  email : profile.email = account.email
  firstName : profile.firstName = form.firstNameTxt
  lastName : profile.lastName = form.lastNameTxt
  accountType : form.accountType = some profile.accountType

/-- The account is there, and every profile of its uid, stored or about to be, is the one of
its registration. -/
structure Registered (form : SignUpForm) (account : AuthDataResult) (s : Accounts) : Prop where
  known : s.accounts.lookup account.uid = some account
  users : ∀ profile, s.users.lookup account.uid = some profile → FilledIn form account profile
  writes : ∀ w ∈ s.writes, w.uid = account.uid → FilledIn form account w.userData

section Runs

variable {s s' : Accounts} {form : SignUpForm} {account : AuthDataResult} {device : ℕ}

/-- A registration that is accepted: the form was submitted, the account is new, and one
profile write is issued. -/
theorem register_cases (stepped : s.step (.register device form account) = some s') :
    s.New account ∧ ∃ profile, FilledIn form account profile ∧
      s' = { s with
        accounts := s.accounts.insert account.uid account
        writes := s.writes ++ [⟨account.uid, profile⟩]
        sessions := s.sessions.insert device account.uid
        issued := s.issued ++ [⟨account.uid, profile⟩] } := by
  simp only [Accounts.step] at stepped
  split at stepped
  · rename_i self asked
    split at stepped
    · rename_i new
      cases stepped
      obtain ⟨_, firstName, lastName, titled⟩ := signUp_ok asked
      exact ⟨new, _, ⟨rfl, rfl, firstName, lastName, titled⟩, rfl⟩
    · cases stepped
  · cases stepped

/-- A new uid has no profile yet, and no write is under way for it. -/
theorem Consistent.unused (consistent : s.Consistent) (new : s.New account) :
    s.users.lookup account.uid = none ∧ ∀ w ∈ s.writes, w.uid ≠ account.uid := by
  have unknown : s.accounts.lookup account.uid = none := AList.lookup_eq_none.mpr new.1
  constructor
  · cases stored : s.users.lookup account.uid with
    | none => rfl
    | some profile =>
        obtain ⟨⟨_, known, _⟩, _⟩ := consistent.users _ _ stored
        cases unknown.symm.trans known
  · intro w issued same
    obtain ⟨⟨_, known, _⟩, _⟩ := consistent.writes w issued
    rw [same] at known
    cases unknown.symm.trans known

theorem registered_of_register (consistent : s.Consistent)
    (stepped : s.step (.register device form account) = some s') : Registered form account s' := by
  obtain ⟨new, profile, filledIn, rfl⟩ := register_cases stepped
  obtain ⟨noProfile, noWrite⟩ := consistent.unused new
  refine ⟨AList.lookup_insert _, fun profile' stored => ?_, fun w issued same => ?_⟩
  · cases noProfile.symm.trans stored
  · rcases List.mem_append.mp issued with before | now
    · exact absurd same (noWrite w before)
    · obtain rfl := List.mem_singleton.mp now
      exact filledIn

/-- The step of the invariant. -/
theorem Registered.step {e : Event} (registered : Registered form account s)
    (stepped : s.step e = some s') : Registered form account s' := by
  cases e with
  | register device form' account' =>
      obtain ⟨new, profile, _, rfl⟩ := register_cases stepped
      have other : account.uid ≠ account'.uid := by
        intro same
        refine new.1 (AList.lookup_isSome.mp ?_)
        rw [← same, registered.known]
        rfl
      refine ⟨(AList.lookup_insert_ne other).trans registered.known, registered.users, ?_⟩
      intro w issued same
      rcases List.mem_append.mp issued with before | now
      · exact registered.writes w before same
      · obtain rfl := List.mem_singleton.mp now
        exact absurd same.symm other
  | apply i =>
      obtain ⟨w, issued, rfl⟩ := Option.map_eq_some_iff.mp stepped
      have member : w ∈ s.writes := List.mem_of_getElem? issued
      refine ⟨registered.known, fun profile stored => ?_, fun w' rest =>
        registered.writes w' (List.mem_of_mem_eraseIdx rest)⟩
      by_cases own : account.uid = w.uid
      · rw [own] at stored
        have written : some w.userData = some profile := (AList.lookup_insert _).symm.trans stored
        cases written
        exact registered.writes w member own.symm
      · exact registered.users profile ((AList.lookup_insert_ne own).symm.trans stored)
  | reject i =>
      obtain ⟨w, _, rfl⟩ := Option.map_eq_some_iff.mp stepped
      exact ⟨registered.known, registered.users, fun w' rest =>
        registered.writes w' (List.mem_of_mem_eraseIdx rest)⟩
  | signIn device uid =>
      obtain ⟨_, rfl⟩ := signIn_cases stepped
      exact ⟨registered.known, registered.users, registered.writes⟩
  | signOut device =>
      cases stepped
      exact ⟨registered.known, registered.users, registered.writes⟩

/-- What `ShowUserInfo` shows of an email: the profiles that hold it. -/
theorem showUserInfo_out {E : Enumeration} {applicants : Counted Application} {tag : ℕ}
    {data : Application} {users : UserTree} (row : applicants.row E tag = .ok data) :
    (ShowApplicants.showUserInfo E applicants tag users).out =
      ((E.order users).filter fun user => user.2.email = data.email).map
        fun user => .ofProfile user.2 := by
  by_cases has : users.HasEmail data.email
  · rw [ShowApplicants.showUserInfo_found row has, Issued.out_done]
  · rw [(UserTree.filter_email_eq_nil E).mpr has]
    refine List.eq_nil_iff_forall_not_mem.mpr fun info presented => ?_
    obtain ⟨uid, p, at_, same, _⟩ := ShowApplicants.mem_showUserInfo row presented
    exact has ⟨uid, p, at_, same⟩

/-- What `FindUser` makes of the email of an account: the profile of its uid, or nothing that
it reports as found. -/
theorem Consistent.filter_email (consistent : s.Consistent)
    (known : s.accounts.lookup account.uid = some account) (E : Enumeration) :
    (E.order s.users).filter (fun user => user.2.email = account.email) =
      ((s.users.lookup account.uid).map fun profile => (⟨account.uid, profile⟩ : User)).toList := by
  cases stored : s.users.lookup account.uid with
  | some profile =>
      obtain ⟨⟨account', known', email⟩, _⟩ := consistent.users _ _ stored
      cases known.symm.trans known'
      rw [← email]
      exact UserTree.filter_email E consistent.emailsDistinct stored
  | none =>
      refine (UserTree.filter_email_eq_nil E).mpr ?_
      rintro ⟨uid, profile, at_, same⟩
      -- whoever else has the email would have an account with it
      obtain ⟨⟨account', known', email⟩, _⟩ := consistent.users uid profile at_
      obtain rfl := consistent.emails _ _ _ _ known' known (email.symm.trans same)
      cases stored.symm.trans at_

/-- What `ShowUserInfo` shows of the email of an account: its profile, once it is stored. -/
theorem Consistent.showUserInfo (consistent : s.Consistent)
    (known : s.accounts.lookup account.uid = some account) {E : Enumeration}
    {applicants : Counted Application} {tag : ℕ} {data : Application}
    (row : applicants.row E tag = .ok data) (email : data.email = account.email) :
    (ShowApplicants.showUserInfo E applicants tag s.users).out =
      ((s.users.lookup account.uid).map UserInfo.ofProfile).toList := by
  rw [showUserInfo_out row, email, consistent.filter_email known]
  cases s.users.lookup account.uid <;> rfl

end Runs

/-- **Who an application is from.**  An account is registered; at some later moment its user
is signed in on a device, and files an application with the email of the current user.
However registrations, profile writes, sign-ins and sign-outs are interleaved before, between
and after: for a row with that email `ShowUserInfo` shows the names that were typed when the
account was registered, once and nobody else's, or nothing as long as the profile is not
stored; and it does not trap as soon as anybody's is. -/
theorem applicant_shown {es fs gs : List Event} {s s' m t : Accounts} {device device' : ℕ}
    {form : SignUpForm} {account : AuthDataResult} (before : run step initial es = some s)
    (registers : s.step (.register device form account) = some s')
    (between : run step s' fs = some m) (signedIn : m.sessions.lookup device' = some account.uid)
    (after : run step m gs = some t) {E : Enumeration} {applicants : Counted Application} {tag : ℕ}
    {data : Application} (row : applicants.row E tag = .ok data)
    (filed : m.currentUser device' = some data.email) :
    (ShowApplicants.showUserInfo E applicants tag t.users).out =
        (if account.uid ∈ t.users then [⟨data.email, form.firstNameTxt, form.lastNameTxt⟩] else []) ∧
      ((ShowApplicants.showUserInfo E applicants tag t.users).trap = none ↔
        ∃ uid, uid ∈ t.users) := by
  refine ⟨?_, ShowApplicants.trap_showUserInfo row⟩
  have consistent : s.Consistent :=
    invariant_of_run (I := Consistent) (fun _ _ _ => Consistent.step) consistent_initial before
  have both : ∀ {fs m}, run step s' fs = some m → m.Consistent ∧ Registered form account m :=
    fun ran => invariant_of_run (I := fun s => s.Consistent ∧ Registered form account s)
      (fun _ _ _ kept stepped => ⟨kept.1.step stepped, kept.2.step stepped⟩)
      ⟨consistent.step registers, registered_of_register consistent registers⟩ ran
  have email : data.email = account.email := by
    rw [currentUser, signedIn, Option.bind_some, (both between).2.known] at filed
    exact (Option.some.inj filed).symm
  have ended : run step s' (fs ++ gs) = some t := run_append_some.mpr ⟨m, between, after⟩
  obtain ⟨consistent', registered⟩ := both ended
  rw [consistent'.showUserInfo registered.known row email]
  cases stored : t.users.lookup account.uid with
  | none =>
      rw [if_neg (AList.lookup_eq_none.mp stored)]
      rfl
  | some profile =>
      have filledIn := registered.users profile stored
      rw [if_pos (AList.lookup_isSome.mp (by rw [stored]; rfl)), email]
      simp only [Option.map_some, Option.toList_some, UserInfo.ofProfile, filledIn.email,
        filledIn.firstName, filledIn.lastName]

/-- Ann registers after Eve has applied, and both profiles are stored before she looks. -/
def annsRegistration : List Event :=
  [.register 1 { SignUpForm.sample with firstNameTxt := "Ann" } ⟨"v", "password", "ann@x"⟩,
    .apply 0, .apply 0]

theorem applicant_shown_eve :
    ∃ t, run step initial
        (.register 0 .sample ⟨"u", "password", "eve@x"⟩ :: annsRegistration) = some t ∧
      (ShowApplicants.showUserInfo .inserted (Counted.empty.push ⟨"eve@x", some "Gardener"⟩) 0
          t.users).out = (if "u" ∈ t.users then [⟨"eve@x", "Eve", "Hill"⟩] else []) ∧
        ((ShowApplicants.showUserInfo .inserted (Counted.empty.push ⟨"eve@x", some "Gardener"⟩) 0
          t.users).trap = none ↔ ∃ uid, uid ∈ t.users) :=
  ⟨_, rfl, @applicant_shown [] [] annsRegistration initial _ _ _ 0 0 .sample
    ⟨"u", "password", "eve@x"⟩ rfl rfl rfl rfl rfl .inserted
    (Counted.empty.push ⟨"eve@x", some "Gardener"⟩) 0 _ rfl rfl⟩

end JobFinder.Controller.Accounts
