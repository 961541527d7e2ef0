/-
# Controller.Profiles -- one profile for each account

A registration makes an account and issues the write of its profile, which may be applied
much later, or come to nothing.  Every profile write is accounted for: it is applied, on its
way, or has been rejected, and only one of these and only once (`Profiled.accounted`).  And
nothing that happens to the accounts changes the profile that an account was registered with
(`Within`).
-/
import JobFinder.Controller.Identity

namespace JobFinder.Controller

open JobFinder.Theory JobFinder.Database JobFinder.Model

set_option autoImplicit false

/-- The form that asks for a registration. -/
def SignUpForm.asking (self : AccountHandeler) : SignUpForm where
  emailTxt := self.email
  passwordTxt := self.password
  firstNameTxt := self.firstName
  lastNameTxt := self.lastName
  selectedSegmentIndex := if self.accountType = "Job Poster" then 1 else 0

theorem signUp_asking {form : SignUpForm} {self : AccountHandeler}
    (asked : signUp form = .ok (some self)) : signUp (.asking self) = .ok (some self) := by
  unfold signUp at asked
  split at asked
  · rename_i filled
    obtain ⟨accountType, titled, same⟩ := bind_ok.mp asked
    cases same
    have title := Accounts.accountType_titles (unwrap_ok.mp titled)
    refine (if_pos (c := form.emailTxt ≠ "" ∧ form.passwordTxt ≠ "" ∧ form.firstNameTxt ≠ "" ∧
      form.lastNameTxt ≠ "") filled).trans ?_
    rcases title with rfl | rfl <;> rfl
  · cases asked

namespace Accounts

/-- The profile that the registration of the uid has issued. -/
def OwnProfile (s : Accounts) (uid : String) (profile : Profile) : Prop := ⟨uid, profile⟩ ∈ s.issued

/-- The profile writes that are applied. -/
def stored (s : Accounts) : List ProfileWrite := s.users.entries.map fun user => ⟨user.1, user.2⟩

/-- `Auth.auth().currentUser` on a device. -/
def user (s : Accounts) (device : ℕ) : Option AuthDataResult :=
  (s.sessions.lookup device).bind s.accounts.lookup

/-- The profile that an account was registered with. -/
def profile (s : Accounts) (uid : String) : Option Profile :=
  (s.issued.find? fun w => w.uid = uid).map ProfileWrite.userData

/-- The home screen of an account. -/
def home (s : Accounts) (uid : String) : Screen := homeScreen ((s.profile uid).map Profile.accountType)

/-- The account is there, under its uid. -/
def Known (s : Accounts) (account : AuthDataResult) : Prop :=
  s.accounts.lookup account.uid = some account

/-- The account is known, and the profile it was registered with has this account type. -/
structure RegisteredAs (s : Accounts) (account : AuthDataResult) (accountType : String) : Prop where
  known : s.Known account
  profile : ∃ profile, s.OwnProfile account.uid profile ∧ profile.email = account.email ∧
    profile.accountType = accountType

/-- Every account was registered with one profile, every profile write is accounted for, and
every session is of an account. -/
structure Profiled (s : Accounts) : Prop where
  consistent : s.Consistent
  own : ∀ uid account, s.accounts.lookup uid = some account →
    account.uid = uid ∧ ∃ profile, s.OwnProfile uid profile
  describes : ∀ uid profile, s.OwnProfile uid profile → s.Describes uid profile
  apart : (s.issued.map ProfileWrite.uid).Nodup
  accounted : s.issued.Perm (s.stored ++ s.writes ++ s.rejected)
  sessions : ∀ device uid, s.sessions.lookup device = some uid → uid ∈ s.accounts

/-- The second state has the accounts of the first, and their profiles. -/
structure Within (s t : Accounts) : Prop where
  accounts : ∀ uid account, s.accounts.lookup uid = some account → t.accounts.lookup uid = some account
  profiles : ∀ uid profile, s.OwnProfile uid profile → t.OwnProfile uid profile

section Lookup

variable {s : Accounts} {uid : String} {p q : Profile}

theorem mem_stored : ⟨uid, p⟩ ∈ s.stored ↔ s.users.lookup uid = some p := by
  rw [stored, List.mem_map]
  constructor
  · rintro ⟨⟨_, _⟩, entry, same⟩
    cases same
    exact AList.mem_lookup_iff.mpr entry
  · exact fun here => ⟨_, AList.mem_lookup_iff.mp here, rfl⟩

/-- There is one profile to an account, -/
theorem Profiled.single (profiled : s.Profiled) (hasP : s.OwnProfile uid p)
    (hasQ : s.OwnProfile uid q) : p = q :=
  congrArg ProfileWrite.userData (List.inj_on_of_nodup_map profiled.apart hasP hasQ rfl)

/-- and whatever is stored is that profile. -/
theorem Profiled.own_of_stored (profiled : s.Profiled) (here : s.users.lookup uid = some p) :
    s.OwnProfile uid p :=
  profiled.accounted.mem_iff.mpr (List.mem_append_left _ (List.mem_append_left _ (mem_stored.mpr here)))

theorem Profiled.profile_eq (profiled : s.Profiled) (has : s.OwnProfile uid p) :
    s.profile uid = some p := by
  cases found : s.issued.find? fun w => w.uid = uid with
  | none => simpa using List.find?_eq_none.mp found _ has
  | some w =>
      have own : w.uid = uid := by simpa using List.find?_some found
      have issued : s.OwnProfile uid w.userData := own ▸ List.mem_of_find?_eq_some found
      rw [profile, found, Option.map_some, profiled.single issued has]

theorem Profiled.home_eq (profiled : s.Profiled) (has : s.OwnProfile uid p) :
    s.home uid = homeScreen (some p.accountType) := by
  rw [home, profiled.profile_eq has]
  rfl

/-- A new account has no profile. -/
theorem Profiled.unused {account : AuthDataResult} (profiled : s.Profiled) (new : s.New account) :
    ∀ w ∈ s.issued, w.uid ≠ account.uid := by
  rintro w issued own
  obtain ⟨⟨_, known, _⟩, _⟩ := profiled.describes w.uid w.userData issued
  exact new.1 (AList.lookup_isSome.mp (by rw [← own, known]; rfl))

end Lookup

theorem Within.refl (s : Accounts) : Within s s := ⟨fun _ _ => id, fun _ _ => id⟩

theorem Within.trans {s t u : Accounts} (first : Within s t) (second : Within t u) : Within s u :=
  ⟨fun uid account known => second.accounts uid account (first.accounts uid account known),
    fun uid profile has => second.profiles uid profile (first.profiles uid profile has)⟩

section Steps

variable {s s' : Accounts} {e : Event} {uid : String} {profile : Profile}

theorem profiled_initial : Profiled initial where
  consistent := consistent_initial
  own _ _ impossible := nomatch impossible
  describes _ _ impossible := nomatch impossible
  apart := List.nodup_nil
  accounted := .nil
  sessions _ _ impossible := nomatch impossible

/-- What is issued is what registrations issue. -/
theorem issued_step (stepped : s.step e = some s') : s'.issued = s.issued ∨
    ∃ device form account profile, e = .register device form account ∧ s.New account ∧
      FilledIn form account profile ∧ s'.issued = s.issued ++ [⟨account.uid, profile⟩] := by
  cases e with
  | register device form account =>
      obtain ⟨new, profile, filledIn, rfl⟩ := register_cases stepped
      exact .inr ⟨device, form, account, profile, rfl, new, filledIn, rfl⟩
  | apply i =>
      obtain ⟨w, _, rfl⟩ := Option.map_eq_some_iff.mp stepped
      exact .inl rfl
  | reject i =>
      obtain ⟨w, _, rfl⟩ := Option.map_eq_some_iff.mp stepped
      exact .inl rfl
  | signIn device uid' =>
      obtain ⟨_, rfl⟩ := signIn_cases stepped
      exact .inl rfl
  | signOut device =>
      cases stepped
      exact .inl rfl

theorem OwnProfile.step (has : s.OwnProfile uid profile) (stepped : s.step e = some s') :
    s'.OwnProfile uid profile := by
  unfold OwnProfile
  rcases issued_step stepped with same | ⟨_, _, _, _, _, _, _, more⟩
  · exact same ▸ has
  · exact more ▸ List.mem_append_left _ has

theorem lookup_step {account : AuthDataResult} (known : s.accounts.lookup uid = some account)
    (stepped : s.step e = some s') : s'.accounts.lookup uid = some account := by
  cases e with
  | register device form account' =>
      obtain ⟨new, profile', _, rfl⟩ := register_cases stepped
      refine (AList.lookup_insert_ne ?_).trans known
      rintro rfl
      exact new.1 (AList.lookup_isSome.mp (by rw [known]; rfl))
  | apply i =>
      obtain ⟨w, _, rfl⟩ := Option.map_eq_some_iff.mp stepped
      exact known
  | reject i =>
      obtain ⟨w, _, rfl⟩ := Option.map_eq_some_iff.mp stepped
      exact known
  | signIn device uid' =>
      obtain ⟨_, rfl⟩ := signIn_cases stepped
      exact known
  | signOut device =>
      cases stepped
      exact known

/-- A new account comes from a registration. -/
theorem lookup_of_step {account : AuthDataResult} (stepped : s.step e = some s')
    (known : s'.accounts.lookup uid = some account) : s.accounts.lookup uid = some account ∨
      ∃ device form, e = .register device form account ∧ account.uid = uid := by
  cases e with
  | register device form account' =>
      obtain ⟨_, profile', _, rfl⟩ := register_cases stepped
      by_cases own : uid = account'.uid
      · subst own
        have same : some account' = some account := (AList.lookup_insert _).symm.trans known
        cases same
        exact .inr ⟨device, form, rfl, rfl⟩
      · exact .inl ((AList.lookup_insert_ne own).symm.trans known)
  | apply i =>
      obtain ⟨w, _, rfl⟩ := Option.map_eq_some_iff.mp stepped
      exact .inl known
  | reject i =>
      obtain ⟨w, _, rfl⟩ := Option.map_eq_some_iff.mp stepped
      exact .inl known
  | signIn device uid' =>
      obtain ⟨_, rfl⟩ := signIn_cases stepped
      exact .inl known
  | signOut device =>
      cases stepped
      exact .inl known

/-- A new session is of an account. -/
theorem session_of_step {device : ℕ} (stepped : s.step e = some s')
    (session : s'.sessions.lookup device = some uid) :
    s.sessions.lookup device = some uid ∨ uid ∈ s'.accounts := by
  cases e with
  | register device' form account =>
      obtain ⟨_, profile', _, rfl⟩ := register_cases stepped
      by_cases here : device = device'
      · subst here
        have same : some account.uid = some uid := (AList.lookup_insert _).symm.trans session
        cases same
        exact .inr ((AList.mem_insert _).mpr (.inl rfl))
      · exact .inl ((AList.lookup_insert_ne here).symm.trans session)
  | apply i =>
      obtain ⟨w, _, rfl⟩ := Option.map_eq_some_iff.mp stepped
      exact .inl session
  | reject i =>
      obtain ⟨w, _, rfl⟩ := Option.map_eq_some_iff.mp stepped
      exact .inl session
  | signIn device' uid' =>
      obtain ⟨known, rfl⟩ := signIn_cases stepped
      by_cases here : device = device'
      · subst here
        have same : some uid' = some uid := (AList.lookup_insert _).symm.trans session
        cases same
        exact .inr known
      · exact .inl ((AList.lookup_insert_ne here).symm.trans session)
  | signOut device' =>
      cases stepped
      by_cases here : device = device'
      · subst here
        have gone : (s.sessions.erase device).lookup device = none := AList.lookup_erase ..
        cases gone.symm.trans session
      · exact .inl ((AList.lookup_erase_ne here).symm.trans session)

theorem within_step (stepped : s.step e = some s') : Within s s' :=
  ⟨fun _ _ known => lookup_step known stepped, fun _ _ has => has.step stepped⟩

/-- The registration of an account issues its profile. -/
theorem ownProfile_register {device : ℕ} {form : SignUpForm} {account : AuthDataResult}
    (stepped : s.step (.register device form account) = some s') :
    ∃ profile, s'.OwnProfile account.uid profile ∧ FilledIn form account profile := by
  obtain ⟨_, profile, filledIn, rfl⟩ := register_cases stepped
  exact ⟨profile, List.mem_append_right _ (List.mem_singleton_self _), filledIn⟩

/-- The profile that a registration issues. -/
theorem ownProfile_registerUser {device : ℕ} {self : AccountHandeler} {account : AuthDataResult}
    {write : ProfileWrite} (asked : signUp (.asking self) = .ok (some self))
    (stepped : s.step (.register device (.asking self) account) = some s')
    (issues : (self.registerUser (some account)).1 = some write) :
    s'.OwnProfile write.uid write.userData := by
  simp only [Accounts.step, asked] at stepped
  split at stepped <;> cases stepped
  show write ∈ s.issued ++ _
  rw [issues]
  exact List.mem_append_right _ (List.mem_singleton_self _)

/-- What describes an account goes on doing so. -/
theorem Describes.step (describes : s.Describes uid profile) (stepped : s.step e = some s') :
    s'.Describes uid profile := by
  obtain ⟨⟨account, known, email⟩, title⟩ := describes
  exact ⟨⟨account, lookup_step known stepped, email⟩, title⟩

/-- A write that is applied moves from those on their way to those stored. -/
theorem Profiled.accounted_apply {i : ℕ} {w : ProfileWrite} (profiled : s.Profiled)
    (at_ : s.writes[i]? = some w) :
    s.issued.Perm (({ s with users := createDBUser w.uid w.userData s.users } : Accounts).stored ++
      s.writes.eraseIdx i ++ s.rejected) := by
  -- nothing is stored under the uid yet: the write is accounted for once
  have free : w.uid ∉ s.users := by
    intro member
    obtain ⟨p, here⟩ := Option.isSome_iff_exists.mp (AList.lookup_isSome.mpr member)
    have apart := (profiled.accounted.map ProfileWrite.uid).nodup_iff.mp profiled.apart
    rw [List.append_assoc, List.map_append] at apart
    refine (List.nodup_append.mp apart).2.2 _ (List.mem_map_of_mem (mem_stored.mpr here)) w.uid ?_ rfl
    exact List.mem_map_of_mem (List.mem_append_left _ (List.mem_of_getElem? at_))
  have stores : ({ s with users := createDBUser w.uid w.userData s.users } : Accounts).stored =
      w :: s.stored := by
    simp only [stored, createDBUser, AList.entries_insert_of_notMem free, List.map_cons]
  rw [stores]
  refine profiled.accounted.trans (.trans (((perm_eraseIdx at_).append_left _).append_right _) ?_)
  rw [List.cons_append, List.cons_append]
  exact List.perm_middle.append_right _

/-- Every write stays accounted for. -/
theorem Profiled.accounted_step (profiled : s.Profiled) (stepped : s.step e = some s') :
    s'.issued.Perm (s'.stored ++ s'.writes ++ s'.rejected) := by
  cases e with
  | register device form account =>
      obtain ⟨_, profile, _, rfl⟩ := register_cases stepped
      show (s.issued ++ [_]).Perm (s.stored ++ (s.writes ++ [_]) ++ s.rejected)
      rw [← List.append_assoc, List.append_assoc _ [_]]
      refine (profiled.accounted.append_right _).trans ?_
      rw [List.append_assoc _ s.rejected]
      exact List.perm_append_comm.append_left _
  | apply i =>
      obtain ⟨w, at_, rfl⟩ := Option.map_eq_some_iff.mp stepped
      exact profiled.accounted_apply at_
  | reject i =>
      obtain ⟨w, at_, rfl⟩ := Option.map_eq_some_iff.mp stepped
      refine profiled.accounted.trans (.trans (((perm_eraseIdx at_).append_left _).append_right _) ?_)
      exact (List.perm_middle.append_right _).trans List.perm_middle.symm
  | signIn device uid' =>
      obtain ⟨_, rfl⟩ := signIn_cases stepped
      exact profiled.accounted
  | signOut device =>
      cases stepped
      exact profiled.accounted

/-- **One profile, accounted for.** -/
theorem Profiled.step (profiled : s.Profiled) (stepped : s.step e = some s') : s'.Profiled where
  consistent := profiled.consistent.step stepped
  own uid account known := by
    rcases lookup_of_step stepped known with before | ⟨device, form, rfl, own⟩
    · obtain ⟨own, profile, has⟩ := profiled.own uid account before
      exact ⟨own, profile, has.step stepped⟩
    · obtain ⟨profile, has, _⟩ := ownProfile_register stepped
      exact ⟨own, profile, own ▸ has⟩
  describes uid profile has := by
    rcases issued_step stepped with same | ⟨device, form, account, profile', rfl, _, filledIn, more⟩
    · rw [OwnProfile, same] at has
      exact (profiled.describes uid profile has).step stepped
    · rw [OwnProfile, more] at has
      rcases List.mem_append.mp has with before | now
      · exact (profiled.describes uid profile before).step stepped
      · cases List.mem_singleton.mp now
        obtain ⟨_, _, _, rfl⟩ := register_cases stepped
        exact ⟨⟨account, AList.lookup_insert _, filledIn.email⟩, accountType_titles filledIn.accountType⟩
  apart := by
    rcases issued_step stepped with same | ⟨_, _, account, _, _, new, _, more⟩
    · exact same ▸ profiled.apart
    · rw [more, List.map_append]
      refine List.nodup_append.mpr ⟨profiled.apart, List.nodup_singleton _, ?_⟩
      intro uid before uid' now same
      obtain ⟨w, issued, rfl⟩ := List.mem_map.mp before
      rw [List.mem_map] at now
      obtain ⟨w', only, rfl⟩ := now
      cases List.mem_singleton.mp only
      exact profiled.unused new w issued same
  accounted := profiled.accounted_step stepped
  sessions device uid session := by
    rcases session_of_step stepped session with before | known
    · obtain ⟨account, known⟩ := Option.isSome_iff_exists.mp
        (AList.lookup_isSome.mpr (profiled.sessions device uid before))
      exact AList.lookup_isSome.mp (by rw [lookup_step known stepped]; rfl)
    · exact known

/-- Who is signed in on a device, after an event. -/
theorem user_step {device : ℕ} (profiled : s.Profiled) (stepped : s.step e = some s') :
    s'.user device = match e with
      | .register device' _ account => if device = device' then some account else s.user device
      | .signIn device' uid => if device = device' then s.accounts.lookup uid else s.user device
      | .signOut device' => if device = device' then none else s.user device
      | .apply _ | .reject _ => s.user device := by
  cases e with
  | register device' form account =>
      obtain ⟨new, profile', _, rfl⟩ := register_cases stepped
      by_cases here : device = device'
      · subst here
        simp [user]
      · simp only [user, AList.lookup_insert_ne here, if_neg here]
        refine Option.bind_congr fun uid session => AList.lookup_insert_ne ?_
        rintro rfl
        exact new.1 (profiled.sessions device _ session)
  | apply i =>
      obtain ⟨w, _, rfl⟩ := Option.map_eq_some_iff.mp stepped
      rfl
  | reject i =>
      obtain ⟨w, _, rfl⟩ := Option.map_eq_some_iff.mp stepped
      rfl
  | signIn device' uid =>
      obtain ⟨_, rfl⟩ := signIn_cases stepped
      by_cases here : device = device'
      · subst here
        simp [user]
      · simp [user, AList.lookup_insert_ne here, here]
  | signOut device' =>
      cases stepped
      by_cases here : device = device'
      · subst here
        simp [user]
      · simp [user, AList.lookup_erase_ne here, here]

/-- Everything is within what comes later. -/
theorem within_run {es : List Event} (profiled : s.Profiled) (ran : run step s es = some s') :
    s'.Profiled ∧ Within s s' :=
  invariant_of_run (I := fun s' => s'.Profiled ∧ Within s s')
    (fun _ _ _ kept stepped =>
      ⟨kept.1.step stepped, kept.2.trans (within_step stepped)⟩)
    ⟨profiled, .refl s⟩ ran

/-- Whoever is signed in is known. -/
theorem Profiled.known {device : ℕ} {account : AuthDataResult} (profiled : s.Profiled)
    (signedIn : s.user device = some account) : s.Known account := by
  obtain ⟨uid, _, known⟩ := Option.bind_eq_some_iff.mp signedIn
  rw [Known, (profiled.own uid account known).1]
  exact known

/-- The home screen tells the account type. -/
theorem Profiled.registeredAs {account : AuthDataResult} (profiled : s.Profiled)
    (known : s.Known account) :
    (s.home account.uid = .createJobVC → s.RegisteredAs account "Job Poster") ∧
      (s.home account.uid = .exploreVC → s.RegisteredAs account "Job Searcher") := by
  obtain ⟨_, profile, has⟩ := profiled.own _ _ known
  obtain ⟨⟨account', known', email⟩, title⟩ := profiled.describes _ _ has
  cases known.symm.trans known'
  rw [profiled.home_eq has]
  rcases title with searcher | poster
  · rw [searcher]
    exact ⟨fun impossible => (by cases impossible), fun _ => ⟨known, profile, has, email, searcher⟩⟩
  · rw [poster]
    exact ⟨fun _ => ⟨known, profile, has, email, poster⟩, fun impossible => (by cases impossible)⟩

end Steps

end Accounts

end JobFinder.Controller
