/-
# Clients.World -- the devices, the jobs and the accounts

`Network` takes what a device reads of the profiles, and what the authentication service
answers, as they come.  Here both come from the `Accounts`: a device reads the profiles that
are stored at that moment, a login is answered with an account that has been registered, and
a registration that succeeds makes a new one.

A profile write that a device has issued may also be rejected, or be lost with the app that
issued it; every one of them is accounted for (`profiles_accounted`).  When the users are
patient, the jobs that get posted are posters' and the applications searchers'
(`world_in_role`).
-/
import JobFinder.Clients.KeptJobs
import JobFinder.Clients.Network
import JobFinder.Controller.Profiles
import JobFinder.Controller.Roles

namespace JobFinder.Clients

open JobFinder.Theory JobFinder.Database JobFinder.Model JobFinder.Controller

set_option autoImplicit false

/-- The devices and the jobs, and the accounts. -/
structure World where
  network : Network
  accounts : Accounts

namespace World

/-- The devices have just been launched, with whoever has a session there. -/
def launched (accounts : Accounts) (t : JobTree) : World :=
  ⟨.launched accounts.user t, accounts⟩

inductive Event where
  | network (e : Network.Event)
  /-- A profile write is applied. -/
  | apply (write : ℕ)
  /-- A profile write is rejected, or lost with the app that issued it. -/
  | reject (write : ℕ)

/-- The answer to a callback.  A login is answered with the account, if there is one. -/
def answer (w : World) (n index : ℕ) (authDataResult : Option AuthDataResult) : Option AuthDataResult :=
  match (w.network.devices n).pending[index]?.map Pending.callback with
  | some .loginUser => authDataResult.bind fun user => w.accounts.accounts.lookup user.uid
  | _ => authDataResult

/-- The event, with what a callback finds. -/
def finds (w : World) : Network.Event → Network.Event
  | .fire n index now => .fire n index { now with
      users := w.accounts.users
      authDataResult := w.answer n index now.authDataResult }
  | e => e

/-- What happens to the accounts in an event. -/
def authenticates (w : World) : Network.Event → List Accounts.Event
  | .tap n .signOut => [.signOut n]
  | .fire n index now =>
      match (w.network.devices n).pending[index]?.map Pending.callback, now.authDataResult with
      | some .loginUser, some user => [.signIn n user.uid]
      | some (.registerUser handeler), some user => [.register n (.asking handeler) user]
      | _, _ => []
  | _ => []

/-- One event. -/
def step (web : Web) (E : Enumeration) (uuid : ℕ → String) (w : World) : Event → Option World
  | .network e =>
      (w.network.step web E uuid (w.finds e)).bind fun network =>
        (run Accounts.step w.accounts (w.authenticates (w.finds e))).map fun accounts =>
          ⟨network, accounts⟩
  | .apply write => (w.accounts.step (.apply write)).map fun accounts => { w with accounts := accounts }
  | .reject write => (w.accounts.step (.reject write)).map fun accounts => { w with accounts := accounts }

/-- A registration completes with a segment selected that leads to the home it was asked for,
and the lookup of a launch finds the profile stored. -/
def Ready (w : World) (n : ℕ) (now : Moment) : Callback → Prop
  | .registerUser handeler =>
      homeScreen now.signUpForm.accountType = homeScreen (some handeler.accountType)
  | .launch _ => ∀ user ∈ (w.network.devices n).currentUser, user.uid ∈ w.accounts.users
  | _ => True

/-- The users are patient: they sign out when nothing is pending, and tap Login or Sign Up
when no sign-in is. -/
def Patient (w : World) : Event → Prop
  | .network (.tap n .signOut) => (w.network.devices n).pending = []
  | .network (.tap n .login) => ∀ c ∈ (w.network.devices n).pending, c.callback.signsIn = false
  | .network (.tap n (.signUp _)) => ∀ c ∈ (w.network.devices n).pending, c.callback.signsIn = false
  | .network (.fire n index now) =>
      ∀ c ∈ (w.network.devices n).pending[index]?, w.Ready n now c.callback
  | _ => True

instance (w : World) (n : ℕ) (now : Moment) : (callback : Callback) → Decidable (w.Ready n now callback)
  | .registerUser handeler => inferInstanceAs (Decidable (_ = homeScreen (some handeler.accountType)))
  | .launch _ => inferInstanceAs (Decidable (∀ user ∈ (w.network.devices n).currentUser, user.uid ∈ _))
  | .loginUser | .accountType _ | .getJsonData _ | .onMain .. | .findUser .. | .applyToJob ..
  | .removeJob _ | .newJobs | .myPostedJobs | .applicants | .showUserInfo _ | .declineApplicant _
  | .removeApplication .. | .removeApplicationIn .. => isTrue trivial

instance (w : World) : (e : Event) → Decidable (w.Patient e)
  | .network (.tap n t) =>
      match t with
      | .signOut => inferInstanceAs (Decidable ((w.network.devices n).pending = []))
      | .login => inferInstanceAs (Decidable (∀ c ∈ (w.network.devices n).pending, _ = false))
      | .signUp _ => inferInstanceAs (Decidable (∀ c ∈ (w.network.devices n).pending, _ = false))
      | .ok | .presentSignUpVC | .back | .navigate _ | .createJob _ | .applyToJob .. | .removeJob _
      | .select .. | .showUserInfo _ | .declineApplicant _ => isTrue trivial
  | .network (.fire n index now) =>
      inferInstanceAs (Decidable (∀ c ∈ (w.network.devices n).pending[index]?, w.Ready n now c.callback))
  | .network (.display ..) | .network (.relaunch _) | .network (.arrive _) | .network (.lose _)
  | .apply _ | .reject _ => isTrue trivial

/-- The devices and the accounts fit together. -/
structure Linked (w : World) : Prop where
  profiled : w.accounts.Profiled
  user : ∀ n, (w.network.devices n).currentUser = w.accounts.user n
  forms : ∀ n, ∀ c ∈ (w.network.devices n).pending, ∀ handeler, c.callback = .registerUser handeler →
    ∃ form, signUp form = .ok (some handeler)
  profiles : ∀ n, ∀ entry ∈ (w.network.devices n).issued, ∀ write, entry.2 = .createDBUser write →
    w.accounts.OwnProfile write.uid write.userData

section Steps

variable {web : Web} {E : Enumeration} {uuid : ℕ → String} {w w' : World} {n : ℕ} {d : Device}
  {accounts : Accounts}

/-- The accounts after a callback: who is signed in, and the account that a registration made. -/
theorem authenticates_fire {index : ℕ} {now : Moment} {c : Pending} (linked : w.Linked)
    (at_ : (w.network.devices n).pending[index]? = some c)
    (ran : run Accounts.step w.accounts (w.authenticates (w.finds (.fire n index now))) =
      some accounts) :
    accounts.user n = (if c.callback.authenticates then
        (w.answer n index now.authDataResult).or (w.accounts.user n) else w.accounts.user n) ∧
      (∀ m, m ≠ n → accounts.user m = w.accounts.user m) ∧
      ∀ handeler user, c.callback = .registerUser handeler →
        w.answer n index now.authDataResult = some user →
          w.accounts.step (.register n (.asking handeler) user) = some accounts := by
  simp only [finds, authenticates, at_, Option.map_some] at ran
  cases is : c.callback with
  | loginUser =>
      cases answered : w.answer n index now.authDataResult with
      | none =>
          simp only [is, answered, run_nil] at ran
          cases ran
          exact ⟨rfl, fun _ _ => rfl, by simp⟩
      | some user =>
          simp only [is, answered] at ran
          obtain ⟨accounts', signsIn, done⟩ := run_cons_some.mp ran
          cases done
          have known : w.accounts.accounts.lookup user.uid = some user := by
            simp only [answer, at_, Option.map_some, is] at answered
            obtain ⟨user', _, known⟩ := Option.bind_eq_some_iff.mp answered
            rw [(linked.profiled.own _ _ known).1]
            exact known
          refine ⟨?_, fun m other => ?_, by simp⟩
          · rw [Accounts.user_step linked.profiled signsIn]
            simpa [Callback.authenticates] using known
          · rw [Accounts.user_step linked.profiled signsIn]
            exact if_neg other
  | registerUser handeler =>
      cases answered : w.answer n index now.authDataResult with
      | none =>
          simp only [is, answered, run_nil] at ran
          cases ran
          exact ⟨rfl, fun _ _ => rfl, by simp⟩
      | some user =>
          simp only [is, answered] at ran
          obtain ⟨accounts', registers, done⟩ := run_cons_some.mp ran
          cases done
          refine ⟨?_, fun m other => ?_, fun handeler' user' same answered' => ?_⟩
          · rw [Accounts.user_step linked.profiled registers]
            simp [Callback.authenticates]
          · rw [Accounts.user_step linked.profiled registers]
            exact if_neg other
          · cases same
            cases answered'
            exact registers
  | _ =>
      simp only [is, run_nil] at ran
      cases ran
      exact ⟨rfl, fun _ _ => rfl, by simp⟩

/-- A device has made a step. -/
theorem Linked.moved {network : Network} (linked : w.Linked) (profiled : accounts.Profiled)
    (at_ : network.devices = Function.update w.network.devices n d)
    (within : Accounts.Within w.accounts accounts) (user : d.currentUser = accounts.user n)
    (others : ∀ m, m ≠ n → accounts.user m = w.accounts.user m)
    (forms : ∀ c ∈ d.pending, c ∈ (w.network.devices n).pending ∨
      ∀ handeler, c.callback = .registerUser handeler → ∃ form, signUp form = .ok (some handeler))
    (profiles : ∀ entry ∈ d.issued, entry ∈ (w.network.devices n).issued ∨
      ∀ write, entry.2 = .createDBUser write → accounts.OwnProfile write.uid write.userData) :
    Linked ⟨network, accounts⟩ := by
  refine ⟨profiled, fun m => ?_, fun m c pends => ?_, fun m entry issued write is => ?_⟩
  · rw [at_]
    by_cases same : m = n
    · subst same
      rw [Function.update_self, user]
    · rw [Function.update_of_ne same, others m same]
      exact linked.user m
  · rw [at_] at pends
    by_cases same : m = n
    · subst same
      rw [Function.update_self] at pends
      exact (forms c pends).elim (linked.forms m c) id
    · rw [Function.update_of_ne same] at pends
      exact linked.forms m c pends
  · rw [at_] at issued
    by_cases same : m = n
    · subst same
      rw [Function.update_self] at issued
      rcases profiles entry issued with before | new
      · exact within.profiles _ _ (linked.profiles m entry before write is)
      · exact new write is
    · rw [Function.update_of_ne same] at issued
      exact within.profiles _ _ (linked.profiles m entry issued write is)

/-- At the launch nobody registers. -/
theorem forms_launched {currentUser : Option AuthDataResult} {c : Pending}
    (pends : c ∈ (Device.launched currentUser).pending) (handeler : AccountHandeler)
    (is : c.callback = .registerUser handeler) : ∃ form, signUp form = .ok (some handeler) := by
  obtain ⟨user, _, rfl⟩ := Option.map_eq_some_iff.mp (Option.mem_toList.mp pends)
  cases is

/-- A tap. -/
theorem Linked.tap {t : Device.Tap} (linked : w.Linked)
    (ran : run Accounts.step w.accounts (w.authenticates (.tap n t)) = some accounts)
    (moves : (w.network.devices n).step web E (.tap t) = some d) :
    Linked ⟨w.network.moved uuid n d, accounts⟩ := by
  obtain ⟨_, tapped⟩ := Device.step_tap moves
  have user := Device.currentUser_tap tapped
  rw [linked.user n] at user
  obtain ⟨signedIn, others⟩ : d.currentUser = accounts.user n ∧
      ∀ m, m ≠ n → accounts.user m = w.accounts.user m := by
    by_cases leaves : t = .signOut
    · subst leaves
      obtain ⟨accounts', leaves, done⟩ := run_cons_some.mp ran
      cases done
      rw [user, Accounts.user_step linked.profiled leaves]
      refine ⟨by simp, fun m other => ?_⟩
      rw [Accounts.user_step linked.profiled leaves]
      exact if_neg other
    · have nothing : w.authenticates (.tap n t) = [] := by
        cases t <;> first | rfl | exact absurd rfl leaves
      rw [nothing] at ran
      cases ran
      refine ⟨?_, fun _ _ => rfl⟩
      rw [user]
      cases t <;> first | rfl | exact absurd rfl leaves
  obtain ⟨profiled, within⟩ := Accounts.within_run linked.profiled ran
  refine linked.moved profiled Network.devices_sent within signedIn others (fun c pends => ?_)
    fun entry issued => ?_
  · exact (Device.starts_tap tapped pends).imp_right fun new handeler is => new.form handeler is
  · rw [Device.issued_tap tapped] at issued
    exact .inl issued

/-- A callback. -/
theorem Linked.fire {index : ℕ} {now : Moment} (linked : w.Linked)
    (ran : run Accounts.step w.accounts (w.authenticates (w.finds (.fire n index now))) =
      some accounts)
    (moves : (w.network.devices n).step web E (.fire index { now with
      users := w.accounts.users
      authDataResult := w.answer n index now.authDataResult
      postedJobs := w.network.postedJobs }) = some d) :
    Linked ⟨w.network.moved uuid n d, accounts⟩ := by
  obtain ⟨c, more, at_, pending, next⟩ := Device.starts_fire moves
  obtain ⟨user, others, registers⟩ := authenticates_fire linked at_ ran
  obtain ⟨profiled, within⟩ := Accounts.within_run linked.profiled ran
  obtain ⟨_, c', at', rfl⟩ := Device.step_fire moves
  cases at_.symm.trans at'
  refine linked.moved profiled Network.devices_sent within ?_ others (fun c' pends => ?_)
    fun entry issued => ?_
  · rw [Device.currentUser_run, user, linked.user n]
  · rw [pending] at pends
    rcases List.mem_append.mp pends with rest | new
    · exact .inl (List.mem_of_mem_eraseIdx rest)
    · exact .inr fun handeler is => absurd is ((next c' new).not_registerUser handeler)
  · by_cases profile : ∃ write, entry.2 = .createDBUser write
    · obtain ⟨write, is⟩ := profile
      refine (Device.profile_run issued is).imp_right fun new write' is' => ?_
      cases is.symm.trans is'
      obtain ⟨handeler, account, chain, answered, issues⟩ := new
      obtain ⟨form, asked⟩ := linked.forms n c (List.mem_of_getElem? at_) handeler chain
      exact Accounts.ownProfile_registerUser (signUp_asking asked)
        (registers handeler account chain answered) issues
    · exact .inr fun write is => absurd ⟨write, is⟩ profile

/-- What becomes of a profile write is no concern of the devices. -/
theorem Linked.decided {e : Accounts.Event} (linked : w.Linked)
    (stepped : w.accounts.step e = some accounts)
    (user : ∀ n, accounts.user n = w.accounts.user n) :
    Linked { w with accounts := accounts } ∧ Accounts.Within w.accounts accounts := by
  have within := Accounts.within_step stepped
  refine ⟨⟨linked.profiled.step stepped, fun n => ?_, linked.forms, fun n entry issued write is =>
    within.profiles _ _ (linked.profiles n entry issued write is)⟩, within⟩
  rw [user]
  exact linked.user n

/-- **The step of the invariant.** -/
theorem Linked.step {e : Event} (linked : w.Linked) (stepped : w.step web E uuid e = some w') :
    w'.Linked ∧ Accounts.Within w.accounts w'.accounts := by
  cases e with
  | apply write =>
      obtain ⟨accounts, applied, rfl⟩ := Option.map_eq_some_iff.mp stepped
      exact linked.decided applied fun n => Accounts.user_step linked.profiled applied
  | reject write =>
      obtain ⟨accounts, rejected, rfl⟩ := Option.map_eq_some_iff.mp stepped
      exact linked.decided rejected fun n => Accounts.user_step linked.profiled rejected
  | network e =>
      obtain ⟨network, moved, rest⟩ := Option.bind_eq_some_iff.mp stepped
      obtain ⟨accounts, ran, rfl⟩ := Option.map_eq_some_iff.mp rest
      refine ⟨?_, (Accounts.within_run linked.profiled ran).2⟩
      cases e with
      | tap n t =>
          obtain ⟨d, moves, rfl⟩ := Option.map_eq_some_iff.mp moved
          exact linked.tap ran moves
      | fire n index now =>
          obtain ⟨d, moves, rfl⟩ := Option.map_eq_some_iff.mp moved
          exact linked.fire ran moves
      | relaunch n =>
          cases moved
          cases ran
          exact linked.moved linked.profiled rfl (.refl _) (linked.user n) (fun _ _ => rfl)
            (fun c pends => .inr (forms_launched pends)) fun entry issued => .inl issued
      | display n vc row =>
          obtain ⟨d, moves, rfl⟩ := Option.map_eq_some_iff.mp moved
          cases ran
          obtain ⟨_, displayed⟩ := Device.step_display moves
          obtain ⟨ended, rfl⟩ := Device.display_eq displayed
          exact linked.moved linked.profiled Network.devices_sent (.refl _) (linked.user n)
            (fun _ _ => rfl) (fun c pends => .inl pends) fun entry issued => .inl issued
      | arrive index =>
          obtain ⟨_, _, _, rfl⟩ := Network.step_arrive moved
          cases ran
          exact ⟨linked.profiled, linked.user, linked.forms, linked.profiles⟩
      | lose index =>
          obtain ⟨_, _, _, rfl⟩ := Network.step_lose moved
          cases ran
          exact ⟨linked.profiled, linked.user, linked.forms, linked.profiles⟩

theorem linked_launched (profiled : accounts.Profiled) (t : JobTree) : (launched accounts t).Linked where
  profiled := profiled
  user _ := rfl
  forms _ _ pends := forms_launched pends
  profiles _ _ issued := absurd issued List.not_mem_nil

theorem linked_run {es : List Event} (linked : w.Linked) (ran : run (step web E uuid) w es = some w') :
    w'.Linked ∧ Accounts.Within w.accounts w'.accounts :=
  invariant_of_run (I := fun w' => w'.Linked ∧ Accounts.Within w.accounts w'.accounts)
    (fun _ _ _ kept stepped => ⟨(kept.1.step stepped).1, kept.2.trans (kept.1.step stepped).2⟩)
    ⟨linked, .refl w.accounts⟩ ran

/-! ## What the network takes as it comes -/

/-- What is read of the profiles is as registrations store it. -/
theorem stored_within {final : Accounts} (profiled : accounts.Profiled) (last : final.Profiled)
    (within : Accounts.Within accounts final) : Device.Stored final.home accounts.users where
  title uid profile at_ := (profiled.consistent.users uid profile at_).2
  home uid profile at_ := (last.home_eq (within.profiles uid profile (profiled.own_of_stored at_))).symm
  emails := profiled.consistent.emailsDistinct

/-- Patient users are patient on the network, and the answers are genuine. -/
theorem Linked.patient {e : Network.Event} {final : Accounts} (linked : w.Linked)
    (patient : w.Patient (.network e)) (stepped : w.step web E uuid (.network e) = some w')
    (last : final.Profiled) (within : Accounts.Within w'.accounts final) :
    w.network.Patient final.home (w.finds e) ∧
      w.network.Meets (Device.Genuine final.Known) (w.finds e) := by
  have linked' := (linked.step stepped).1
  have within₀ := (linked.step stepped).2.trans within
  cases e with
  | tap n t => exact ⟨by cases t <;> exact patient, trivial⟩
  | display n vc row => exact ⟨trivial, trivial⟩
  | relaunch n => exact ⟨trivial, trivial⟩
  | arrive index => exact ⟨trivial, trivial⟩
  | lose index => exact ⟨trivial, trivial⟩
  | fire n index now =>
      obtain ⟨network, _, rest⟩ := Option.bind_eq_some_iff.mp stepped
      obtain ⟨accounts, ran, rfl⟩ := Option.map_eq_some_iff.mp rest
      refine ⟨⟨stored_within linked.profiled last within₀, fun c at_ user =>
        ⟨fun handeler is answered => ?_, fun email is signedIn => ?_⟩⟩,
        fun c at_ authenticates user answered => ?_⟩
      · -- the profile that the registration has just issued
        obtain ⟨_, _, registers⟩ := authenticates_fire linked at_ ran
        obtain ⟨form, asked⟩ := linked.forms n c (List.mem_of_getElem? at_) handeler is
        obtain ⟨profile, has, filledIn⟩ :=
          Accounts.ownProfile_register (registers handeler user is answered)
        obtain ⟨_, _, _, titled⟩ := signUp_ok (signUp_asking asked)
        rw [last.home_eq (within.profiles _ _ has), ← filledIn.accountType, titled]
        have ready := patient c at_
        rw [is] at ready
        exact ready
      · -- the profile of the account that has the session
        have ready := patient c at_
        rw [is] at ready
        obtain ⟨profile, stored⟩ := Option.isSome_iff_exists.mp
          (AList.lookup_isSome.mpr (ready user signedIn))
        obtain ⟨⟨account, known, same⟩, _⟩ := linked.profiled.consistent.users _ _ stored
        rw [linked.user n] at signedIn
        cases known.symm.trans (linked.profiled.known signedIn)
        exact ⟨profile, stored, same⟩
      · obtain ⟨signedIn, _⟩ := authenticates_fire linked at_ ran
        have account : w.answer n index now.authDataResult = some user := answered
        rw [if_pos authenticates, account] at signedIn
        exact within.accounts _ _ (linked'.profiled.known signedIn)

/-- **The network does what the world does**, and its users are patient. -/
theorem exists_network {es : List Event} (linked : w.Linked)
    (patient : Along (step web E uuid) Patient w es) (ran : run (step web E uuid) w es = some w') : ∃ fs,
      Along (Network.step web E uuid) (fun net e => net.Patient w'.accounts.home e ∧
        net.Meets (Device.Genuine w'.accounts.Known) e) w.network fs ∧
      run (Network.step web E uuid) w.network fs = some w'.network := by
  have last := linked_run linked ran
  obtain ⟨_, within⟩ := along_of_grows (I := Linked)
    (R := fun w w' => Accounts.Within w.accounts w'.accounts) (fun w => .refl w.accounts) .trans
    (fun _ _ _ linked stepped => linked.step stepped) es _ _ linked ran
  obtain ⟨fs, net, along, ran', _, rfl⟩ : ∃ fs net, Along (Network.step web E uuid) (fun net e =>
        net.Patient w'.accounts.home e ∧ net.Meets (Device.Genuine w'.accounts.Known) e) w.network fs ∧
      run (Network.step web E uuid) w.network fs = some net ∧ w'.Linked ∧ w'.network = net :=
    run_simulated (R := fun w net => w.Linked ∧ w.network = net) (fun w e w₁ net both meets stepped => by
      obtain ⟨linked, rfl⟩ := both
      have linked₁ := (linked.step stepped).1
      cases e with
      | apply write | reject write =>
          obtain ⟨accounts, _, rfl⟩ := Option.map_eq_some_iff.mp stepped
          exact ⟨[], _, trivial, rfl, linked₁, rfl⟩
      | network e =>
          have patient := linked.patient meets.1 stepped last.1.profiled (meets.2 w₁ stepped)
          obtain ⟨network, moved, rest⟩ := Option.bind_eq_some_iff.mp stepped
          obtain ⟨accounts, _, rfl⟩ := Option.map_eq_some_iff.mp rest
          exact ⟨[w.finds e], _, fun _ _ => ⟨patient, trivial⟩, run_cons_some.mpr ⟨_, moved, rfl⟩,
            linked₁, rfl⟩)
    es _ _ _ ⟨linked, rfl⟩ (patient.and within) ran
  exact ⟨fs, along, ran'⟩

/-- Every device is in the role of its users. -/
theorem inRole_run {homeOf : String → Controller.Screen} {Known : AuthDataResult → Prop}
    {currentUser : ℕ → Option AuthDataResult} {t : JobTree}
    (known : ∀ n, ∀ user ∈ currentUser n, Known user)
    {es : List Network.Event} {net : Network}
    (along : Along (Network.step web E uuid) (fun net e => net.Patient homeOf e ∧
      net.Meets (Device.Genuine Known) e) (.launched currentUser t) es)
    (ran : run (Network.step web E uuid) (.launched currentUser t) es = some net) (n : ℕ) :
    Device.InRole homeOf Known (net.devices n) := by
  have both := invariant_of_along
    (I := fun net => ∀ n, (Device.Sane (net.devices n) ∧ Device.Orderly homeOf (net.devices n)) ∧
      Device.InRole homeOf Known (net.devices n))
    (fun net e net' all meets stepped => by
      have meets' : net.Meets (fun d e => Device.Patient homeOf d e ∧ Device.Genuine Known d e) e := by
        cases e with
        | tap n t => exact meets
        | fire n index now => exact meets
        | display n vc row => exact meets
        | relaunch n => exact meets
        | arrive index => trivial
        | lose index => trivial
      exact Network.devices_step
        (I := fun d => (Device.Sane d ∧ Device.Orderly homeOf d) ∧ Device.InRole homeOf Known d)
        (fun d e d' kept meets moves => ⟨⟨kept.1.1.step moves, kept.1.2.step kept.1.1 meets.1 moves⟩,
          kept.2.step kept.1.1 kept.1.2 meets.1 meets.2 moves⟩) all meets' stepped)
    es _ _ (fun n => ⟨Network.orderly_launched homeOf currentUser t n, Device.inRole_launched (known n)⟩)
    along ran
  exact (both n).2

/-- What is issued for a home was issued for someone who is registered for it. -/
theorem registeredAs_of_issued {entry : Option String × Write} (profiled : w.accounts.Profiled)
    (inRole : Device.InRole w.accounts.home w.accounts.Known (w.network.devices n))
    (issued : entry ∈ (w.network.devices n).issued) :
    (entry.2.role = some .createJobVC →
        ∃ account, w.accounts.RegisteredAs account "Job Poster" ∧ entry.1 = some account.email) ∧
      (entry.2.role = some .exploreVC →
        ∃ account, w.accounts.RegisteredAs account "Job Searcher" ∧ entry.1 = some account.email) := by
  constructor
  · intro role
    obtain ⟨account, known, startedBy, home⟩ := inRole.issued entry issued _ role
    exact ⟨account, (profiled.registeredAs known).1 home, startedBy⟩
  · intro role
    obtain ⟨account, known, startedBy, home⟩ := inRole.issued entry issued _ role
    exact ⟨account, (profiled.registeredAs known).2 home, startedBy⟩

/-- In a run with patient users the devices are in their roles, and the clients are where the
network is. -/
theorem exists_clients {t : JobTree} (fresh : CreateJob.Fresh uuid t) (profiled : accounts.Profiled)
    {es : List Event} (patient : Along (step web E uuid) Patient (launched accounts t) es)
    (ran : run (step web E uuid) (launched accounts t) es = some w) :
    w.Linked ∧ (∀ n, Device.InRole w.accounts.home w.accounts.Known (w.network.devices n)) ∧
      ∃ fs p, Along (Clients.step E) StartsAnything (.idle t) fs ∧
        run (Clients.step E) (.idle t) fs = some p ∧ Network.Simulates uuid t w.network p := by
  have start := linked_launched profiled t
  obtain ⟨linked, within⟩ := linked_run start ran
  obtain ⟨gs, along, ran'⟩ := exists_network start patient ran
  refine ⟨linked, fun n => ?_, Network.exists_clients fresh (fun _ _ => And.left)
    (fun _ _ _ _ _ matched => matched.1) along ran'⟩
  exact inRole_run (fun n user signedIn => within.accounts _ _ (profiled.known signedIn)) along ran' n

/-- A new application is a searcher's. -/
theorem searcher_of_applicant {t : JobTree} {fs : List (PoolEvent Task)} {p : State} (linked : w.Linked)
    (inRole : ∀ n, Device.InRole w.accounts.home w.accounts.Known (w.network.devices n))
    (ran : run (Clients.step E) (.idle t) fs = some p) (simulates : Network.Simulates uuid t w.network p)
    {k a email : String} (found : w.network.postedJobs.applicant k a = some email) :
    t.applicant k a = some email ∨
      ∃ account, w.accounts.RegisteredAs account "Job Searcher" ∧ account.email = email := by
  rw [← simulates.shared] at found
  rcases Network.filed_of_applicant ran found with initially | ⟨s, member⟩
  · exact .inl initially
  · obtain ⟨n, issued⟩ := (simulates.past _ s member).resolve_right id
    obtain ⟨account, registered, startedBy⟩ :=
      (registeredAs_of_issued linked.profiled (inRole n) issued).2 rfl
    exact .inr ⟨account, registered, (Option.some.inj startedBy).symm⟩

end Steps

end World

/-- **Every profile is accounted for.**  However taps, callbacks, launches, answers and writes
are interleaved, and whichever writes come to nothing: every account (it is made where the
callback of its registration runs) was registered with just one profile, which names its
email; every profile that a device has issued is that of an account; and each is stored, on
its way, or has been rejected or lost, and only one of these and only once. -/
theorem profiles_accounted {web : Web} {E : Enumeration} {uuid : ℕ → String} {t : JobTree}
    {es : List Accounts.Event} {accounts : Accounts}
    (before : run Accounts.step .initial es = some accounts) {fs : List World.Event} {w : World}
    (ran : run (World.step web E uuid) (.launched accounts t) fs = some w) :
    (∀ account, w.accounts.Known account →
        ∃ profile, profile.email = account.email ∧
          ∀ q, w.accounts.OwnProfile account.uid q ↔ q = profile) ∧
      (∀ n startedBy write, (startedBy, Write.createDBUser write) ∈ (w.network.devices n).issued →
        write ∈ w.accounts.issued) ∧
      (∀ write ∈ w.accounts.issued, ∃ account, w.accounts.Known account ∧ account.uid = write.uid) ∧
      w.accounts.issued.Perm (w.accounts.stored ++ w.accounts.writes ++ w.accounts.rejected) ∧
      (w.accounts.issued.map ProfileWrite.uid).Nodup := by
  obtain ⟨profiled, _⟩ := Accounts.within_run Accounts.profiled_initial before
  obtain ⟨linked, _⟩ := World.linked_run (World.linked_launched profiled t) ran
  refine ⟨fun account known => ?_, fun n startedBy write issued => linked.profiles n _ issued write rfl,
    fun write issued => ?_, linked.profiled.accounted, linked.profiled.apart⟩
  · obtain ⟨_, profile, has⟩ := linked.profiled.own _ _ known
    obtain ⟨⟨account', known', email⟩, _⟩ := linked.profiled.describes _ _ has
    cases known.symm.trans known'
    refine ⟨profile, email, fun q => ⟨fun other => linked.profiled.single other has, ?_⟩⟩
    rintro rfl
    exact has
  · obtain ⟨⟨account, known, _⟩, _⟩ := linked.profiled.describes write.uid write.userData issued
    have own := (linked.profiled.own _ _ known).1
    refine ⟨account, ?_, own⟩
    rw [Accounts.Known, own]
    exact known

/-- Ann registers as a poster and posts a job, and then launches her app anew. -/
def annsStory : List World.Event :=
  let annsForm : SignUpForm := ⟨"ann@x", "secret", "Ann", "Hall", 1⟩
  let now := { Moment.sample with
    signUpForm := annsForm
    authDataResult := some ⟨"a", "password", "ann@x"⟩ }
  [.network (.tap 0 .presentSignUpVC), .network (.tap 0 (.signUp annsForm)), .network (.fire 0 0 now),
    .apply 0, .network (.tap 0 (.createJob .sample))] ++
      List.replicate 3 (.network (.fire 0 0 now)) ++ List.replicate 8 (.network (.arrive 0)) ++
      [.network (.relaunch 0), .network (.fire 0 0 now)]

/-- On another device Eve registers as a searcher, and applies for it. -/
def evesStory : List World.Event :=
  [.network (.tap 1 .presentSignUpVC), .network (.tap 1 (.signUp .sample)),
    .network (.fire 1 0 .sample), .network (.fire 1 0 .sample), .network (.tap 1 (.applyToJob 0 "v")),
    .network (.fire 1 0 .sample), .network (.arrive 0)]

/-- Bob registers, but his profile is refused. -/
def bobsStory : List World.Event :=
  let bobsForm : SignUpForm := ⟨"bob@x", "secret", "Bob", "Reed", 1⟩
  let now := { Moment.sample with
    signUpForm := bobsForm
    authDataResult := some ⟨"b", "password", "bob@x"⟩ }
  [.network (.tap 2 .presentSignUpVC), .network (.tap 2 (.signUp bobsForm)), .network (.fire 2 0 now),
    .reject 0]

/-- Ann's profile is stored, Bob's refused, and Eve's on its way. -/
theorem profiles_accounted_story :
    ∃ w, run (World.step CreateJob.twoCities .inserted CreateJob.sampleKeys) (.launched .initial .empty)
        (annsStory ++ bobsStory ++ evesStory) = some w ∧
      (w.accounts.stored.map ProfileWrite.uid, w.accounts.writes.map ProfileWrite.uid,
        w.accounts.rejected.map ProfileWrite.uid) = (["a"], ["u"], ["b"]) ∧
      w.accounts.issued.Perm (w.accounts.stored ++ w.accounts.writes ++ w.accounts.rejected) := by
  have story : (run (World.step CreateJob.twoCities .inserted CreateJob.sampleKeys)
      (.launched .initial .empty) (annsStory ++ bobsStory ++ evesStory)).map (fun w =>
        (w.accounts.stored.map ProfileWrite.uid, w.accounts.writes.map ProfileWrite.uid,
          w.accounts.rejected.map ProfileWrite.uid)) = some (["a"], ["u"], ["b"]) := by decide +kernel
  obtain ⟨w, ran, split⟩ := Option.map_eq_some_iff.mp story
  exact ⟨w, ran, split, (@profiles_accounted CreateJob.twoCities .inserted CreateJob.sampleKeys .empty [] _
    rfl _ _ ran).2.2.2.1⟩

/-- **Each account type to its own.**  Let any number of devices share the accounts and the
jobs, with registrations, sign-ins and sign-outs on them, and everything in any order.  If
the users are patient, then a job that was not there at the start names an account that is
registered as a poster, one that was there at the start is as it was or a poster had it
removed, and an application that was not there at the start is that of an account that is
registered as a searcher. -/
theorem world_in_role {web : Web} {E : Enumeration} {uuid : ℕ → String} {t : JobTree}
    (fresh : CreateJob.Fresh uuid t) {es : List Accounts.Event} {accounts : Accounts}
    (before : run Accounts.step .initial es = some accounts) {fs : List World.Event}
    (patient : Along (World.step web E uuid) World.Patient (.launched accounts t) fs) {w : World}
    (ran : run (World.step web E uuid) (.launched accounts t) fs = some w) :
    (∀ k ∈ w.network.postedJobs, k ∉ t → ∃ account, w.accounts.RegisteredAs account "Job Poster" ∧
        ∀ v, w.network.postedJobs.field k .jobPoster = some v → v = account.email) ∧
      (∀ k ∈ t, (∀ f, w.network.postedJobs.field k f = t.field k f) ∨
        ∃ n account, w.accounts.RegisteredAs account "Job Poster" ∧
          (some account.email, Write.removeJob k) ∈ (w.network.devices n).issued) ∧
      ∀ k a email, w.network.postedJobs.applicant k a = some email → t.applicant k a = some email ∨
        ∃ account, w.accounts.RegisteredAs account "Job Searcher" ∧ account.email = email := by
  obtain ⟨profiled, _⟩ := Accounts.within_run Accounts.profiled_initial before
  obtain ⟨linked, inRole, gs, p, starts, ran', simulates⟩ :=
    World.exists_clients fresh profiled patient ran
  obtain ⟨keeping, standing⟩ := Standing.run starts ran'
  refine ⟨fun k present new => ?_, fun k present => ?_, fun k a email =>
    World.searcher_of_applicant linked inRole ran' simulates⟩
  · obtain ⟨writes, began, written⟩ := keeping.posted (simulates.shared ▸ present) new
    obtain ⟨n, email, issued, _, poster⟩ := simulates.posted began
    obtain ⟨account, registered, startedBy⟩ :=
      (World.registeredAs_of_issued linked.profiled (inRole n) issued).1 rfl
    refine ⟨account, registered, fun v leaf => ?_⟩
    rw [← simulates.shared] at leaf
    rw [written .jobPoster v leaf] at poster
    exact Option.some.inj (poster.trans startedBy)
  · by_cases removed : Removed p k
    · right
      obtain ⟨s, member⟩ := removed
      obtain ⟨n, startedBy, issued⟩ := (simulates.past _ s member).resolve_right id
      obtain ⟨account, registered, rfl⟩ :=
        (World.registeredAs_of_issued linked.profiled (inRole n) issued).1 rfl
      exact ⟨n, account, registered, issued⟩
    · left
      rw [← simulates.shared]
      exact standing.initial k present removed

/-- Ann's job is a poster's, and Eve's application a searcher's. -/
theorem world_in_role_story :
    ∃ w, run (World.step CreateJob.twoCities .inserted CreateJob.sampleKeys) (.launched .initial .empty)
        (annsStory ++ evesStory) = some w ∧
      (∃ account, w.accounts.RegisteredAs account "Job Poster" ∧ account.email = "ann@x") ∧
      ∃ account, w.accounts.RegisteredAs account "Job Searcher" ∧ account.email = "eve@x" := by
  have posted : (run (World.step CreateJob.twoCities .inserted CreateJob.sampleKeys)
      (.launched .initial .empty) (annsStory ++ evesStory)).map (fun w =>
        (w.network.postedJobs.field "kk" .jobPoster, w.network.postedJobs.applicant "kk" "v")) =
      some (some "ann@x", some "eve@x") := by decide +kernel
  obtain ⟨w, ran, leaves⟩ := Option.map_eq_some_iff.mp posted
  obtain ⟨poster, applicant⟩ := Prod.mk.inj leaves
  obtain ⟨jobs, _, applications⟩ := @world_in_role CreateJob.twoCities .inserted
    CreateJob.sampleKeys .empty CreateJob.sampleKeys_fresh [] _ rfl _ (by decide +kernel) _ ran
  obtain ⟨ann, registered, named⟩ := jobs "kk" (JobTree.mem_of_field poster) (by decide)
  exact ⟨w, ran, ⟨ann, registered, (named _ poster).symm⟩,
    (applications "kk" "v" "eve@x" applicant).resolve_left (by decide)⟩

end JobFinder.Clients
