/-
# Clients.NetworkBoard -- the devices together are a job board

The devices refine the clients (`Clients.Network`) and the clients refine the board
(`Clients.JobBoard`), so the devices refine the board; and here it is known who does what on
it.  A job is put up for its poster, an application is made for its applicant, and a job is
taken down for whoever tapped Remove (`network_refines_board`).

The apps trap on what they do not find.  Of all the conditions under which a device goes
on (`Device.GoesOn`), patience meets those on the user, and those on the posters come down to
one: no list of a user's is loaded while a job that stands in the tree is still being posted,
or was when its posting was lost (`network_alive_iff`).
-/
import JobFinder.Clients.Network
import JobFinder.Controller.Ending

namespace JobFinder.Clients

open JobFinder.Theory JobFinder.Database JobFinder.Model JobFinder.Controller

set_option autoImplicit false

namespace Network

/-- What lets the apps of patient users go on: a tap, a cell or a callback finds what it reads,
and no list of a user's is loaded while a job that stands in the tree is being posted. -/
def GoesOn (web : Web) (E : Enumeration) (net : Network) : Event → Prop
  | .tap n t => t.Finds web E (net.devices n)
  | .fire n index now => ∀ c ∈ (net.devices n).pending[index]?,
      Device.Finds web E ((net.devices n).applicants c.vc) { now with postedJobs := net.postedJobs }
        c.callback ∧
      (c.callback.loads = true → ∀ k ∈ net.postedJobs, ¬ BeingPosted net.server k)
  | .display n vc row => Device.CellFinds E (net.devices n) vc row
  | .relaunch _ | .arrive _ | .lose _ => True

section Steps

variable {web : Web} {E : Enumeration} {uuid : ℕ → String} {homeOf : String → Controller.Screen}
  {t : JobTree} {net net' : Network} {p p' : State} {e : Event} {task : Task} {k : String}
  {s : JobTree} {d : Device} {c : Pending}

/-- The board is that of the server. -/
theorem Simulates.board_eq (simulates : Simulates uuid t net p) : board p = board net.server := by
  obtain ⟨shared, tasks, history⟩ := p
  obtain rfl : shared = net.postedJobs := simulates.shared
  obtain rfl : tasks = net.onItsWay.map Sending.task := simulates.tasks
  rfl

theorem Simulates.beingPosted_iff (simulates : Simulates uuid t net p) :
    BeingPosted p k ↔ BeingPosted net.server k := by
  unfold BeingPosted
  rw [simulates.tasks]
  rfl

/-- While a posting is under way its job has no poster. -/
theorem posters_iff (keeping : Keeping t p) (whole : Whole p) :
    (∀ k ∈ p.shared, (p.shared.field k .jobPoster).isSome) ↔ ∀ k ∈ p.shared, ¬ BeingPosted p k := by
  constructor
  · rintro all k present ⟨w, writes, pending⟩
    obtain ⟨made, draft⟩ := keeping.draft k _ pending
    obtain ⟨poster, posted⟩ := Option.isSome_iff_exists.mp (all k present)
    have written := draft.own .jobPoster poster posted
    cases (draft.job.poster_last (List.cons_ne_nil w writes)).symm.trans written
  · exact fun none_ k present => whole k present (none_ k present) .jobPoster

/-- A callback of a patient user that reads the user finds one. -/
theorem signedIn_of_orderly {now : Moment} (sane : d.Sane) (orderly : Device.Orderly homeOf d)
    (alive : d.Alive) (pending : c ∈ d.pending) (reads : Device.ReadsUser now c.callback) :
    d.currentUser.isSome := by
  rcases sane with launching | steady
  · obtain ⟨user, _, only⟩ := launching.pending alive
    rw [only] at pending
    obtain rfl := List.mem_singleton.mp pending
    exact absurd reads id
  · have last := List.getLast?_eq_some_getLast steady.shown
    generalize d.presented.getLast steady.shown = shown at last
    by_cases atSignIn : shown.role = .signInVC
    · obtain ⟨signUp, rfl⟩ : ∃ signUp, shown = .signInVC signUp := by
        cases shown with
        | signInVC signUp => exact ⟨signUp, rfl⟩
        | _ => cases atSignIn
      exact absurd reads (Device.not_readsUser ((orderly.atSignIn signUp last).2 c pending).1)
    · obtain ⟨user, signedIn, _⟩ := orderly.atHome shown last atSignIn
      rw [signedIn]
      rfl

/-- The devices but one are as they were. -/
theorem all_alive_update {n : ℕ} (alive : ∀ n, (net.devices n).Alive) :
    (∀ m, (Function.update net.devices n d m).Alive) ↔ d.Alive := by
  constructor
  · intro all
    simpa using all n
  · intro on m
    by_cases same : m = n
    · subst same
      simpa using on
    · simpa only [Function.update_of_ne same] using alive m

theorem all_alive_moved {n : ℕ} (alive : ∀ n, (net.devices n).Alive) :
    (∀ m, ((moved uuid net n d).devices m).Alive) ↔ d.Alive := by
  rw [moved, devices_sent]
  exact all_alive_update alive

/-- **What a step of the network must find.** -/
theorem all_alive_step (orderly : net.Orderly homeOf) (simulates : Simulates uuid t net p)
    (keeping : Keeping t p) (whole : Whole p) (alive : ∀ n, (net.devices n).Alive)
    (stepped : net.step web E uuid e = some net') :
    (∀ n, (net'.devices n).Alive) ↔ net.GoesOn web E e := by
  cases e with
  | tap n t =>
      obtain ⟨d, moves, rfl⟩ := Option.map_eq_some_iff.mp stepped
      rw [all_alive_moved alive, Device.alive_step (alive n) moves]
      rfl
  | fire n index now =>
      obtain ⟨d, moves, rfl⟩ := Option.map_eq_some_iff.mp stepped
      rw [all_alive_moved alive, Device.alive_step (alive n) moves]
      refine forall₂_congr fun c at_ => ?_
      have pending : c ∈ (net.devices n).pending := List.mem_of_getElem? at_
      have posters : (∀ k ∈ net.postedJobs, (net.postedJobs.field k .jobPoster).isSome) ↔
          ∀ k ∈ net.postedJobs, ¬ BeingPosted net.server k := by
        rw [← simulates.shared, posters_iff keeping whole]
        exact forall₂_congr fun k _ => not_congr simulates.beingPosted_iff
      rw [← posters]
      exact ⟨fun on => ⟨on.finds, on.posters⟩, fun both => ⟨both.1,
        signedIn_of_orderly (orderly n).1 (orderly n).2 (alive n) pending, both.2⟩⟩
  | display n vc row =>
      obtain ⟨d, moves, rfl⟩ := Option.map_eq_some_iff.mp stepped
      rw [all_alive_moved alive, Device.alive_step (alive n) moves]
      rfl
  | relaunch n =>
      cases stepped
      exact iff_of_true ((all_alive_update alive).mpr rfl) trivial
  | arrive index =>
      obtain ⟨_, _, _, rfl⟩ := step_arrive stepped
      exact iff_of_true alive trivial
  | lose index =>
      obtain ⟨_, _, _, rfl⟩ := step_lose stepped
      exact iff_of_true alive trivial

end Steps

end Network

/-- **The devices refine the job board.**  Let any number of devices share the server, with
patient users, no key drawn twice, and every application arriving at its job and every last
write at the title.  Then there is a run of the board, from the jobs there were to the jobs
that are up now.  In it, every job is put up whole for the user whom it names as its poster,
and who has posted it on some device; every application is made with the email of the user
who has applied on some device; and no job is taken down that nobody has removed. -/
theorem network_refines_board {web : Web} {E : Enumeration} {uuid : ℕ → String}
    {homeOf : String → Controller.Screen} {t : JobTree} (complete : t.Complete)
    (fresh : CreateJob.Fresh uuid t) {currentUser : ℕ → Option AuthDataResult}
    {es : List Network.Event}
    (patient : Along (Network.step web E uuid) (Network.Patient homeOf) (.launched currentUser t) es)
    (inTime : Along (Network.step web E uuid) Network.InTime (.launched currentUser t) es)
    {net : Network} (ran : run (Network.step web E uuid) (.launched currentUser t) es = some net) :
    ∃ ops, run Board.step (board (.idle t)) ops = some (board net.server) ∧
      (∀ key up, .post key up ∈ ops → ∃ n email writes,
        (some email, Write.createJob writes) ∈ (net.devices n).issued ∧
        JobField.leaves writes .jobPoster = some email ∧ up.data = JobField.leaves writes) ∧
      (∀ key a email, .apply key a email ∈ ops →
        ∃ n, (some email, Write.fileApplication key a email) ∈ (net.devices n).issued) ∧
      ∀ key, .retire key ∈ ops →
        ∃ n startedBy, (startedBy, Write.removeJob key) ∈ (net.devices n).issued := by
  obtain ⟨fs, p, along, ran', simulates⟩ := Network.exists_clients fresh (fun _ _ both => both.1)
    (fun _ _ _ _ both matched => And.intro matched.1 (matched.2 both.2)) (patient.and inTime) ran
  have starts := along.mono fun _ _ both => both.1
  have prompt := along.mono fun _ _ both => both.2
  refine ⟨observed (step E) observe (.idle t) fs, ?_, fun key up seen => ?_,
    fun key a email seen => ?_, fun key seen => ?_⟩
  · rw [run_board complete starts prompt ran', simulates.board_eq]
  · obtain ⟨writes, began, whole⟩ := began_of_observed complete starts prompt ran' seen
    obtain ⟨n, email, issued, _, poster⟩ := simulates.posted began
    exact ⟨n, email, writes, issued, poster, whole⟩
  · obtain ⟨task, s, heard, kind⟩ := heard_of_observed ran' seen
    rcases kind with ⟨_, _, _, _, same⟩ | ⟨_, _, _, rfl, same⟩ | ⟨_, _, same⟩ | ⟨_, _, _, same⟩
    · cases same
    · cases same
      exact (simulates.past _ s heard).resolve_right id
    · cases same
    · cases same
  · obtain ⟨task, s, heard, kind⟩ := heard_of_observed ran' seen
    rcases kind with ⟨_, _, _, _, same⟩ | ⟨_, _, _, _, same⟩ | ⟨_, rfl, same⟩ | ⟨_, _, _, same⟩
    · cases same
    · cases same
    · cases same
      exact (simulates.past _ s heard).resolve_right id
    · cases same

theorem complete_sample : Moment.sample.postedJobs.Complete :=
  JobTree.complete_empty.put _ fun _ => rfl

theorem inTime_evesApplying :
    Along (Network.step CreateJob.twoCities .inserted CreateJob.sampleKeys) Network.InTime
      (.launched (fun _ => none) Moment.sample.postedJobs) evesApplying := by
  refine fun n₁ tapped => ⟨trivial, ?_⟩
  cases tapped
  refine fun n₂ signedIn => ⟨trivial, ?_⟩
  cases signedIn
  refine fun n₃ shown => ⟨trivial, ?_⟩
  cases shown
  refine fun n₄ loaded => ⟨trivial, ?_⟩
  cases loaded
  refine fun n₅ displayed => ⟨trivial, ?_⟩
  cases displayed
  refine fun n₆ opened => ⟨trivial, ?_⟩
  cases opened
  refine fun n₇ tapped => ⟨trivial, ?_⟩
  cases tapped
  refine fun n₈ read => ⟨trivial, ?_⟩
  cases read
  refine fun n₉ _ => ⟨⟨fun i hashID uuid email same at_ => ?_, fun i key w same at_ => ?_⟩, trivial⟩
  · cases same
    cases at_
    exact .inl (JobTree.mem_iff_leaf.mpr (.inl ⟨.title, by decide⟩))
  · cases same
    cases at_

theorem network_refines_board_eve :
    ∃ net, run (Network.step CreateJob.twoCities .inserted CreateJob.sampleKeys)
        (.launched (fun _ => none) Moment.sample.postedJobs) evesApplying = some net ∧
      ∃ ops, run Board.step (board (.idle Moment.sample.postedJobs)) ops = some (board net.server) ∧
        (∀ key up, .post key up ∈ ops → ∃ n email writes,
          (some email, Write.createJob writes) ∈ (net.devices n).issued ∧
          JobField.leaves writes .jobPoster = some email ∧ up.data = JobField.leaves writes) ∧
        (∀ key a email, .apply key a email ∈ ops →
          ∃ n, (some email, Write.fileApplication key a email) ∈ (net.devices n).issued) ∧
        ∀ key, .retire key ∈ ops →
          ∃ n startedBy, (startedBy, Write.removeJob key) ∈ (net.devices n).issued :=
  ⟨_, rfl, network_refines_board complete_sample sampleKeys_fresh_sample patient_evesApplying
    inTime_evesApplying rfl⟩

/-- **When no app ends.**  In every such run, all the apps are alive throughout if and only if
every tap, every cell and every callback finds what it reads, and no list of a user's is loaded
while a job that stands in the tree is being posted, or was when its posting was lost. -/
theorem network_alive_iff {web : Web} {E : Enumeration} {uuid : ℕ → String}
    {homeOf : String → Controller.Screen} {t : JobTree} (complete : t.Complete)
    (fresh : CreateJob.Fresh uuid t) {currentUser : ℕ → Option AuthDataResult}
    {es : List Network.Event}
    (patient : Along (Network.step web E uuid) (Network.Patient homeOf) (.launched currentUser t) es)
    (inTime : Along (Network.step web E uuid) Network.InTime (.launched currentUser t) es) :
    Always (Network.step web E uuid) (fun net => ∀ n, (net.devices n).Alive)
        (.launched currentUser t) es ↔
      Along (Network.step web E uuid) (Network.GoesOn web E) (.launched currentUser t) es := by
  refine always_iff_along
    (I := fun net => net.Orderly homeOf ∧ ∃ p, Network.Simulates uuid t net p ∧ Keeping t p ∧ Whole p)
    (fun net e net' kept both stepped => ?_) (fun net e net' kept _ alive stepped => ?_) es _ ?_
    (fun n => rfl) (patient.and inTime)
  · obtain ⟨orderly, p, simulates, keeping, whole⟩ := kept
    have orderly' := orderly.step both.1 stepped
    obtain ⟨fs, p', along, ran, simulates'⟩ := simulates.step fresh keeping orderly' stepped
    exact ⟨orderly', p', simulates', keeping_whole_run ⟨keeping, whole⟩
      (along.mono fun _ _ matched => ⟨matched.1, matched.2 both.2⟩) ran⟩
  · obtain ⟨orderly, p, simulates, keeping, whole⟩ := kept
    exact Network.all_alive_step orderly simulates keeping whole alive stepped
  · exact ⟨Network.orderly_launched homeOf currentUser t, .idle t,
      Network.simulates_launched uuid currentUser t, .initially t,
      fun _ present _ => complete.record present⟩

theorem network_alive_iff_eve :
    Always (Network.step CreateJob.twoCities .inserted CreateJob.sampleKeys)
        (fun net => ∀ n, (net.devices n).Alive)
        (.launched (fun _ => none) Moment.sample.postedJobs) evesApplying ↔
      Along (Network.step CreateJob.twoCities .inserted CreateJob.sampleKeys)
        (Network.GoesOn CreateJob.twoCities .inserted)
        (.launched (fun _ => none) Moment.sample.postedJobs) evesApplying :=
  network_alive_iff complete_sample sampleKeys_fresh_sample patient_evesApplying inTime_evesApplying

end JobFinder.Clients
