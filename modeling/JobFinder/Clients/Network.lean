/-
# Clients.Network -- any number of devices and the server

`Clients.Callbacks` is the server's side of the app: callbacks that read and write the tree,
and nothing of the devices they run on.  `Controller.Device` is one device, with its screens
and its user.  Here any number of devices share the tree.  What a device reads is the tree as
the server has it at that moment; what it writes is on its way until it arrives, a job under
a key that has been drawn for it.  The server takes whatever arrives.

What is on its way is kept in the memory of the app that wrote it, and nowhere else.  When
that app is gone, because it has ended or was launched anew, a write that had been sent still
arrives, and any other is lost.

When the users are patient, whatever the devices do to the tree the clients do
(`network_refines_clients`), so that what holds of the clients holds of the devices; and
nobody posts or applies in another's name (`network_in_name`).
-/
import JobFinder.Clients.JobBoard
import JobFinder.Clients.KeptApplications
import JobFinder.Controller.Attribution
import JobFinder.Controller.PostedRecord
import JobFinder.Controller.Sending

namespace JobFinder.Clients

open JobFinder.Theory JobFinder.Database JobFinder.Model JobFinder.Controller

set_option autoImplicit false

/-- How a write gets to the server: from an app that is there, from one that is gone, or not
at all. -/
inductive Passage where
  | underWay
  | orphaned
  | lost
deriving DecidableEq, Repr

/-- What a device has written and the server has not: the callback that carries it out. -/
structure Sending where
  device : ℕ
  task : Task
  passage : Passage

/-- The app on a device is gone. -/
def Sending.orphan (n : ℕ) (sending : Sending) : Sending :=
  if sending.device = n ∧ sending.passage = .underWay then { sending with passage := .orphaned }
  else sending

/-- It is gone with the app. -/
def Sending.lose (sending : Sending) : Sending := { sending with passage := .lost }

/-- What is left of it has the same way to go. -/
def Sending.onward (sending : Sending) (task : Task) : Sending := { sending with task := task }

/-- The devices, the jobs on the server, what is on its way there, and how many keys have
been drawn. -/
structure Network where
  devices : ℕ → Device
  postedJobs : JobTree
  onItsWay : List Sending
  drawn : ℕ

namespace Network

/-- The devices have just been launched. -/
def launched (currentUser : ℕ → Option AuthDataResult) (t : JobTree) : Network :=
  ⟨fun n => .launched (currentUser n), t, [], 0⟩

/-- The callback that carries out a write.  A profile is not one of the jobs. -/
def sends (key : String) : Write → Option Task
  | .createJob writes => some (.createJob key writes)
  | .fileApplication hashID uuid email => some (.fileApplication hashID uuid email)
  | .createDBUser _ => none
  | .removeJob key => some (.removeJobAt key)
  | .removeApplicant job applicant => some (.removeApplicantAt job applicant)

/-- A device issues a write. -/
def send (uuid : ℕ → String) (n : ℕ) (net : Network) (entry : Option String × Write) : Network :=
  { net with
    onItsWay := net.onItsWay ++
      ((sends (uuid net.drawn) entry.2).map fun task => ⟨n, task, .underWay⟩).toList
    drawn := net.drawn + 1 }

/-- A device has made a step, and sends what it has issued in it. -/
def moved (uuid : ℕ → String) (net : Network) (n : ℕ) (d : Device) : Network :=
  (d.issued.drop (net.devices n).issued.length).foldl (send uuid n)
    { net with devices := Function.update net.devices n d }

/-- Its app has ended, or has been launched anew. -/
def gone (net : Network) (sending : Sending) : Bool :=
  match sending.passage with
  | .underWay => (net.devices sending.device).ended.isSome
  | .orphaned => true
  | .lost => false

inductive Event where
  | tap (device : ℕ) (tap : Device.Tap)
  | fire (device index : ℕ) (now : Moment)
  /-- A list on a device sets up a cell. -/
  | display (device vc row : ℕ)
  /-- The app on a device is launched anew. -/
  | relaunch (device : ℕ)
  /-- Something arrives at the server. -/
  | arrive (index : ℕ)
  /-- Something is lost with the app that it came from. -/
  | lose (index : ℕ)

/-- One event. -/
def step (web : Web) (E : Enumeration) (uuid : ℕ → String) (net : Network) :
    Event → Option Network
  | .tap n t => ((net.devices n).step web E (.tap t)).map (moved uuid net n)
  | .fire n index now =>
      ((net.devices n).step web E (.fire index { now with postedJobs := net.postedJobs })).map
        (moved uuid net n)
  | .display n vc row => ((net.devices n).step web E (.display vc row)).map (moved uuid net n)
  | .relaunch n =>
      some { net with
        devices := Function.update net.devices n (net.devices n).relaunched
        onItsWay := net.onItsWay.map (Sending.orphan n) }
  | .arrive index =>
      net.onItsWay[index]?.bind fun sending =>
        if sending.passage = .lost then none
        else some { net with
          postedJobs := (sending.task.exec E net.postedJobs).1
          onItsWay := net.onItsWay.eraseIdx index ++
            (sending.task.exec E net.postedJobs).2.map sending.onward }
  | .lose index =>
      net.onItsWay[index]?.bind fun sending =>
        if net.gone sending then some { net with onItsWay := net.onItsWay.set index sending.lose }
        else none

/-- The device that makes a step makes one that meets `C`. -/
def Meets (C : Device → Device.Event → Prop) (net : Network) : Event → Prop
  | .tap n t => C (net.devices n) (.tap t)
  | .fire n index now => C (net.devices n) (.fire index { now with postedJobs := net.postedJobs })
  | .display n vc row => C (net.devices n) (.display vc row)
  | .relaunch n => C (net.devices n) .relaunch
  | .arrive _ => True
  | .lose _ => True

/-- All the users are patient. -/
def Patient (homeOf : String → Controller.Screen) (net : Network) (e : Event) : Prop :=
  net.Meets (Device.Patient homeOf) e

/-- The server: the jobs, and what is on its way to it, or was before it was lost. -/
def server (net : Network) : State := .start net.postedJobs (net.onItsWay.map Sending.task)

/-- Applications arrive at a job, or one that is being posted, and the last write of a
posting at the title. -/
def InTime (net : Network) : Event → Prop
  | .arrive index => Clients.InTime net.server (.fire index)
  | .tap .. | .fire .. | .display .. | .relaunch _ | .lose _ => True

section Steps

variable {web : Web} {E : Enumeration} {uuid : ℕ → String} {homeOf : String → Controller.Screen}
  {net net' : Network} {e : Event} {n : ℕ} {d : Device} {writes : List (Option String × Write)}

@[simp] theorem task_orphan (n : ℕ) (sending : Sending) : (sending.orphan n).task = sending.task := by
  unfold Sending.orphan
  split <;> rfl

/-- The passage changes, but not what is on its way. -/
theorem tasks_orphaned (n : ℕ) (way : List Sending) :
    (way.map (Sending.orphan n)).map Sending.task = way.map Sending.task := by
  rw [List.map_map]
  exact List.map_congr_left fun sending _ => task_orphan n sending

theorem tasks_lost {way : List Sending} {index : ℕ} {sending : Sending}
    (at_ : way[index]? = some sending) :
    (way.set index sending.lose).map Sending.task = way.map Sending.task := by
  obtain ⟨bound, rfl⟩ := List.getElem?_eq_some_iff.mp at_
  have bound' : index < (way.map Sending.task).length := by simpa using bound
  have same : way[index].lose.task = (way.map Sending.task)[index] := by simp [Sending.lose]
  rw [List.map_set, same, List.set_getElem_self]

@[simp] theorem devices_sent : (writes.foldl (send uuid n) net).devices = net.devices := by
  induction writes generalizing net with
  | nil => rfl
  | cons entry writes ih => exact ih

/-- A device makes a step, and sends what it issues in it.  A second read is left pending where
the first is made. -/
structure Moves (web : Web) (E : Enumeration) (uuid : ℕ → String) (net : Network) (e : Event)
    (net' : Network) (n : ℕ) (d : Device) (writes : List (Option String × Write)) : Prop where
  steps : ∃ e', (net.devices n).step web E e' = some d ∧
    ∀ C : Device → Device.Event → Prop, net.Meets C e → C (net.devices n) e'
  issued : d.issued = (net.devices n).issued ++ writes
  issues : writes ≠ [] → ∃ c ∈ (net.devices n).pending, Device.Issues E net.postedJobs c.callback writes
  captures : ∀ c ∈ d.pending, c ∈ (net.devices n).pending ∨ ∀ email jobTitle jobs,
    c.callback = .removeApplicationIn email jobTitle jobs → jobs = (getPostedJobs net.postedJobs).1
  sends : ∃ way, way.map Sending.task = net.onItsWay.map Sending.task ∧
    net' = writes.foldl (send uuid n)
      { net with devices := Function.update net.devices n d, onItsWay := way }

/-- A device that issues nothing. -/
theorem Moves.silent {e' : Device.Event} (moves : (net.devices n).step web E e' = some d)
    (meets : ∀ C : Device → Device.Event → Prop, net.Meets C e → C (net.devices n) e')
    (silent : d.issued = (net.devices n).issued)
    (captures : ∀ c ∈ d.pending, c ∈ (net.devices n).pending ∨ ∀ email jobTitle jobs,
      c.callback ≠ .removeApplicationIn email jobTitle jobs) :
    Moves web E uuid net e (moved uuid net n d) n d [] where
  steps := ⟨e', moves, meets⟩
  issued := by rw [silent, List.append_nil]
  issues some_ := absurd rfl some_
  captures c pends := (captures c pends).imp_right fun other email jobTitle jobs is =>
    absurd is (other email jobTitle jobs)
  sends := ⟨net.onItsWay, rfl, by rw [moved, silent, List.drop_length]⟩

/-- Nothing that is lost arrives. -/
theorem step_arrive {index : ℕ} (stepped : net.step web E uuid (.arrive index) = some net') :
    ∃ sending, net.onItsWay[index]? = some sending ∧ sending.passage ≠ .lost ∧ net' = { net with
      postedJobs := (sending.task.exec E net.postedJobs).1
      onItsWay := net.onItsWay.eraseIdx index ++
        (sending.task.exec E net.postedJobs).2.map sending.onward } := by
  obtain ⟨sending, at_, arrives⟩ := Option.bind_eq_some_iff.mp stepped
  split at arrives <;> cases arrives
  exact ⟨sending, at_, ‹_›, rfl⟩

/-- Only what is gone is lost. -/
theorem step_lose {index : ℕ} (stepped : net.step web E uuid (.lose index) = some net') :
    ∃ sending, net.onItsWay[index]? = some sending ∧ net.gone sending = true ∧
      net' = { net with onItsWay := net.onItsWay.set index sending.lose } := by
  obtain ⟨sending, at_, lost⟩ := Option.bind_eq_some_iff.mp stepped
  split at lost <;> cases lost
  exact ⟨sending, at_, ‹_›, rfl⟩

/-- What one event does: a device makes a step, something arrives, or something is lost. -/
theorem step_cases (stepped : net.step web E uuid e = some net') :
    (∃ n d writes, Moves web E uuid net e net' n d writes) ∨
    (∃ index sending, e = .arrive index ∧ net.onItsWay[index]? = some sending ∧
      sending.passage ≠ .lost ∧ net' = { net with
        postedJobs := (sending.task.exec E net.postedJobs).1
        onItsWay := net.onItsWay.eraseIdx index ++
          (sending.task.exec E net.postedJobs).2.map sending.onward }) ∨
    ∃ index sending, e = .lose index ∧ net.onItsWay[index]? = some sending ∧
      net.gone sending = true ∧ net' = { net with onItsWay := net.onItsWay.set index sending.lose } := by
  cases e with
  | tap n t =>
      obtain ⟨d, moves, rfl⟩ := Option.map_eq_some_iff.mp stepped
      obtain ⟨_, tapped⟩ := Device.step_tap moves
      exact .inl ⟨n, d, [], .silent moves (fun _ => id) (Device.issued_tap tapped) fun c pends =>
        (Device.starts_tap tapped pends).imp_right Device.StartedOn.noRead⟩
  | fire n index now =>
      obtain ⟨d, moves, rfl⟩ := Option.map_eq_some_iff.mp stepped
      obtain ⟨c, writes, at_, issued, kind, _⟩ := Device.issues_fire moves
      obtain ⟨c', more, at', pending, next⟩ := Device.starts_fire moves
      refine .inl ⟨n, d, writes, ⟨_, moves, fun _ => id⟩, issued,
        fun _ => ⟨c, List.mem_of_getElem? at_, kind⟩, fun c₂ pends => ?_, net.onItsWay, rfl, ?_⟩
      · rw [pending] at pends
        refine (List.mem_append.mp pends).imp List.mem_of_mem_eraseIdx fun new email jobTitle jobs is => ?_
        have chain := next c₂ new
        rw [is] at chain
        generalize c'.callback = callback at chain
        cases chain
        rfl
      · rw [moved, issued, List.drop_left]
  | display n vc row =>
      obtain ⟨d, moves, rfl⟩ := Option.map_eq_some_iff.mp stepped
      obtain ⟨_, displayed⟩ := Device.step_display moves
      obtain ⟨ended, rfl⟩ := Device.display_eq displayed
      exact .inl ⟨n, _, [], .silent moves (fun _ => id) rfl fun _ pends => .inl pends⟩
  | relaunch n =>
      cases stepped
      refine .inl ⟨n, _, [], ⟨.relaunch, rfl, fun _ => id⟩, (List.append_nil _).symm,
        fun some_ => absurd rfl some_, fun c pends => ?_, _, tasks_orphaned n net.onItsWay, rfl⟩
      obtain ⟨user, _, rfl⟩ := Option.map_eq_some_iff.mp (Option.mem_toList.mp pends)
      exact .inr fun email jobTitle jobs is => by cases is
  | arrive index =>
      obtain ⟨sending, arrives⟩ := step_arrive stepped
      exact .inr (.inl ⟨index, sending, rfl, arrives⟩)
  | lose index =>
      obtain ⟨sending, lost⟩ := step_lose stepped
      exact .inr (.inr ⟨index, sending, rfl, lost⟩)

/-- **What the devices keep, the network keeps.** -/
theorem devices_step {I : Device → Prop} {C : Device → Device.Event → Prop}
    (keep : ∀ d e d', I d → C d e → d.step web E e = some d' → I d') (all : ∀ n, I (net.devices n))
    (meets : net.Meets C e) (stepped : net.step web E uuid e = some net') :
    ∀ n, I (net'.devices n) := by
  rcases step_cases stepped with ⟨n, d, writes, moves⟩ | ⟨_, _, _, _, _, rfl⟩ | ⟨_, _, _, _, _, rfl⟩
  · obtain ⟨e', steps, meets'⟩ := moves.steps
    obtain ⟨way, _, rfl⟩ := moves.sends
    intro m
    rw [devices_sent]
    by_cases same : m = n
    · subst same
      simp only [Function.update_self]
      exact keep _ _ _ (all m) (meets' C meets) steps
    · simp only [Function.update_of_ne same]
      exact all m
  · exact all
  · exact all

/-- Every device is as a patient user leaves it. -/
def Orderly (homeOf : String → Controller.Screen) (net : Network) : Prop :=
  ∀ n, (net.devices n).Sane ∧ Device.Orderly homeOf (net.devices n)

theorem orderly_launched (homeOf : String → Controller.Screen) (currentUser : ℕ → Option AuthDataResult)
    (t : JobTree) : (launched currentUser t).Orderly homeOf :=
  fun n => ⟨Device.sane_launched (currentUser n), Device.orderly_launched homeOf (currentUser n)⟩

theorem Orderly.step (orderly : net.Orderly homeOf) (patient : net.Patient homeOf e)
    (stepped : net.step web E uuid e = some net') : net'.Orderly homeOf := by
  exact devices_step (I := fun d => d.Sane ∧ Device.Orderly homeOf d)
    (fun d e d' both patient moves => ⟨both.1.step moves, both.2.step both.1 patient moves⟩)
    orderly patient stepped

end Steps

/-! ## The clients do what the devices do -/

/-- A device has posted this job for the user who tapped. -/
def Posted (net : Network) (writes : List (JobField × String)) : Prop :=
  ∃ n email, (some email, Write.createJob writes) ∈ (net.devices n).issued ∧ PublishesJob writes ∧
    JobField.leaves writes .jobPoster = some email

/-- A device has filed this application for the user who tapped. -/
def Applied (net : Network) (k a email : String) : Prop :=
  ∃ n, (some email, Write.fileApplication k a email) ∈ (net.devices n).issued

/-- A device has issued the removal of this job. -/
def Removing (net : Network) (k : String) : Prop :=
  ∃ n startedBy, (startedBy, Write.removeJob k) ∈ (net.devices n).issued

/-- A device has issued the removal of this application. -/
def Withdrawing (net : Network) (k a : String) : Prop :=
  ∃ n startedBy, (startedBy, Write.removeApplicant k a) ∈ (net.devices n).issued

/-- Where a callback on its way comes from.  All reads have been made on the device. -/
def Sent (net : Network) : Task → Prop
  | .createJob _ writes => ∃ made, net.Posted (made ++ writes)
  | .fileApplication k a email => net.Applied k a email
  | .removeJobAt k => net.Removing k
  | .removeApplicantAt k a => net.Withdrawing k a
  | .applyToJob .. | .removeJob _ | .removeApplication .. | .removeApplicationIn ..
  | .declineApplicant .. => False

/-- What it has issued was read on the device. -/
def ReadsOnDevice : Task → Prop
  | .applyToJob .. | .removeJob _ | .removeApplicationIn .. => True
  | _ => False

/-- The clients are where the network is: the jobs and the callbacks are the same, the keys
in use are old or have been drawn, all that was written comes from a device, and what a device
has kept of a first read is what the jobs have been. -/
structure Simulates (uuid : ℕ → String) (t : JobTree) (net : Network) (p : State) : Prop where
  shared : p.shared = net.postedJobs
  tasks : p.tasks = net.onItsWay.map Sending.task
  used : ∀ k, Used p k → k ∈ t ∨ ∃ i < net.drawn, uuid i = k
  way : ∀ task ∈ p.tasks, net.Sent task
  past : ∀ task s, (task, s) ∈ p.history → net.Sent task ∨ ReadsOnDevice task
  captured : ∀ n, ∀ c ∈ (net.devices n).pending, ∀ email jobTitle jobs,
    c.callback = .removeApplicationIn email jobTitle jobs →
      ∃ s, HasBeen p s ∧ jobs = (getPostedJobs s).1

/-- The steps of the clients that one step of the network is matched by. -/
def Matches (net : Network) (e : Event) (p : State) (f : PoolEvent Task) : Prop :=
  StartsAnything p f ∧ (net.InTime e → Clients.InTime p f)

section Simulation

variable {web : Web} {E : Enumeration} {uuid : ℕ → String} {homeOf : String → Controller.Screen}
  {t : JobTree} {net net' : Network} {p p' : State} {e : Event} {n : ℕ} {d : Device} {task : Task}
  {k : String} {writes : List (Option String × Write)}

theorem sent_exec {s : JobTree} (sent : net.Sent task) :
    ∀ issued ∈ (task.exec E s).2, net.Sent issued := by
  intro issued member
  cases task with
  | createJob key ws =>
      cases ws with
      | nil => cases member
      | cons w ws =>
          obtain rfl := List.mem_singleton.mp member
          obtain ⟨made, posted⟩ := sent
          exact ⟨made ++ [w], by simpa using posted⟩
  | fileApplication hashID uuid email => cases member
  | removeJobAt key => cases member
  | removeApplicantAt job applicant => cases member
  | _ => exact absurd sent id

/-- What has been issued stays issued. -/
theorem Sent.mono (more : ∀ n, ∀ entry ∈ (net.devices n).issued, entry ∈ (net'.devices n).issued)
    (sent : net.Sent task) : net'.Sent task := by
  cases task with
  | createJob key ws =>
      obtain ⟨made, n, email, issued, rest⟩ := sent
      exact ⟨made, n, email, more n _ issued, rest⟩
  | fileApplication hashID uuid email =>
      obtain ⟨n, issued⟩ := sent
      exact ⟨n, more n _ issued⟩
  | removeJobAt key =>
      obtain ⟨n, startedBy, issued⟩ := sent
      exact ⟨n, startedBy, more n _ issued⟩
  | removeApplicantAt job applicant =>
      obtain ⟨n, startedBy, issued⟩ := sent
      exact ⟨n, startedBy, more n _ issued⟩
  | _ => exact absurd sent id

/-- Nothing has been sent since, nor has anything arrived. -/
theorem Simulates.mono (simulates : Simulates uuid t net p)
    (more : ∀ n, ∀ entry ∈ (net.devices n).issued, entry ∈ (net'.devices n).issued)
    (captured : ∀ n, ∀ c ∈ (net'.devices n).pending, c ∈ (net.devices n).pending ∨
      ∀ email jobTitle jobs, c.callback = .removeApplicationIn email jobTitle jobs →
        jobs = (getPostedJobs net.postedJobs).1)
    (same : net'.postedJobs = net.postedJobs)
    (way : net'.onItsWay.map Sending.task = net.onItsWay.map Sending.task)
    (drawn : net'.drawn = net.drawn) : Simulates uuid t net' p where
  shared := simulates.shared.trans same.symm
  tasks := simulates.tasks.trans way.symm
  used := drawn ▸ simulates.used
  way task member := (simulates.way task member).mono more
  past task s member := (simulates.past task s member).imp_left fun sent => sent.mono more
  captured n c pends email jobTitle jobs is := by
    rcases captured n c pends with before | now
    · exact simulates.captured n c before email jobTitle jobs is
    · exact ⟨p.shared, .inl rfl, by rw [simulates.shared]; exact now email jobTitle jobs is⟩

/-- A callback is started and run at once. -/
theorem run_read (p : State) (task : Task) :
    Theory.run (Clients.step E) p [.spawn task, .fire p.tasks.length] =
      some ⟨(task.exec E p.shared).1, p.tasks ++ (task.exec E p.shared).2,
        (task, p.shared) :: p.history⟩ := by
  have spawned : Clients.step E p (.spawn task) = some { p with tasks := p.tasks ++ [task] } := rfl
  have fired : Clients.step E { p with tasks := p.tasks ++ [task] } (.fire p.tasks.length) = some _ :=
    Pool.step_fire List.getElem?_concat_length
  rw [run_cons, spawned, Option.bind_some, run_cons, fired]
  simp [List.eraseIdx_append_of_length_le]

/-- A callback that makes a read has nothing to be in time for. -/
theorem inTime_read {index : ℕ} (reads : ReadsOnDevice task) (at_ : p.tasks[index]? = some task) :
    Clients.InTime p (.fire index) := by
  constructor
  · intro i hashID uuid email same at_'
    cases same
    cases at_.symm.trans at_'
    exact absurd reads id
  · intro i key w same at_'
    cases same
    cases at_.symm.trans at_'
    exact absurd reads id

/-- The same, of a read that a device makes. -/
theorem Simulates.read (simulates : Simulates uuid t net p) (starts : StartsAnything p (.spawn task))
    (reads : ReadsOnDevice task) (named : ∀ k, task.Names k → Used p k)
    (quiet : (task.exec E p.shared).1 = p.shared) {more : List Sending}
    (issued : more.map Sending.task = (task.exec E p.shared).2)
    (way : ∀ sending ∈ more, net.Sent sending.task) {drawn : ℕ} (drawing : net.drawn ≤ drawn) :
    ∃ fs p', Along (Clients.step E) (fun p f => StartsAnything p f ∧ Clients.InTime p f) p fs ∧
      Theory.run (Clients.step E) p fs = some p' ∧
      Simulates uuid t { net with
        onItsWay := net.onItsWay ++ more
        drawn := drawn } p' := by
  have along : Along (Clients.step E) (fun p f => StartsAnything p f ∧ Clients.InTime p f) p
      [.spawn task, .fire p.tasks.length] := by
    refine fun p₁ spawned => ⟨⟨starts, inTime_spawn task⟩, ?_⟩
    cases spawned
    exact fun p₂ _ => ⟨⟨startsAnything_fire _ _, inTime_read reads List.getElem?_concat_length⟩, trivial⟩
  have perm : (p.tasks ++ [task]).Perm (task :: p.tasks) := List.perm_append_singleton task p.tasks
  refine ⟨_, _, along, run_read p task, quiet.trans simulates.shared, ?_, fun k used => ?_,
    fun issued_ member => ?_, fun past s member => ?_, fun n c pends email jobTitle jobs is => ?_⟩
  · rw [List.map_append, issued, simulates.tasks]
  · have before : Used p k :=
      (used_start (used_fired (p := { p with tasks := p.tasks ++ [task] }) perm used)).elim id (named k)
    exact (simulates.used k before).imp_right fun ⟨i, below, same⟩ => ⟨i, below.trans_le drawing, same⟩
  · rcases List.mem_append.mp member with before | new
    · exact (simulates.way issued_ before).mono fun _ _ => id
    · rw [← issued] at new
      obtain ⟨sending, sent, rfl⟩ := List.mem_map.mp new
      exact (way sending sent).mono fun _ _ => id
  · rcases List.mem_cons.mp member with same | before
    · cases same
      exact .inr reads
    · exact (simulates.past past s before).imp_left fun sent => sent.mono fun _ _ => id
  · obtain ⟨s, been, same⟩ := simulates.captured n c pends email jobTitle jobs is
    exact ⟨s, (been.fired : HasBeen (Clients.fired E p task p.tasks) s), same⟩

/-- The jobs that a device posts, one after the other. -/
theorem Simulates.posts (fresh : CreateJob.Fresh uuid t) (simulates : Simulates uuid t net p)
    (only : ∀ entry ∈ writes, (∃ job, entry.2 = .createJob job ∧ net.Posted job) ∨
      ∃ profile, entry.2 = .createDBUser profile) :
    ∃ fs p', Along (Clients.step E) (fun p f => StartsAnything p f ∧ Clients.InTime p f) p fs ∧
      Theory.run (Clients.step E) p fs = some p' ∧
      Simulates uuid t (writes.foldl (send uuid n) net) p' := by
  induction writes generalizing net p with
  | nil => exact ⟨[], p, trivial, rfl, simulates⟩
  | cons entry writes ih =>
      have later (net' : Network) (same : net'.devices = net.devices) (entry' : Option String × Write)
          (member : entry' ∈ writes) : (∃ job, entry'.2 = .createJob job ∧ net'.Posted job) ∨
            ∃ profile, entry'.2 = .createDBUser profile := by
        rcases only entry' (List.mem_cons_of_mem _ member) with ⟨job, is, posted⟩ | profile
        · exact .inl ⟨job, is, by rw [Posted, same]; exact posted⟩
        · exact .inr profile
      have drawn {k : String} (before : k ∈ t ∨ ∃ i < net.drawn, uuid i = k) :
          k ∈ t ∨ ∃ i < net.drawn + 1, uuid i = k :=
        before.imp_right fun ⟨i, below, same⟩ => ⟨i, Nat.lt_succ_of_lt below, same⟩
      rcases only entry List.mem_cons_self with ⟨job, is, posted⟩ | ⟨profile, is⟩
      · -- a new job is posted under the key drawn next
        have new : ¬ Used p (uuid net.drawn) := by
          intro used
          rcases simulates.used _ used with old | ⟨i, below, same⟩
          · exact fresh.unused _ old
          · exact below.ne (fresh.distinct same)
        have publishes : PublishesJob job := by
          obtain ⟨_, _, _, publishes, _⟩ := posted
          exact publishes
        have starts := startsAnything_post publishes new
        have spawned : Clients.step E p (.spawn (.createJob (uuid net.drawn) job)) =
          some { p with tasks := p.tasks ++ [.createJob (uuid net.drawn) job] } := rfl
        have simulates' : Simulates uuid t (send uuid n net entry)
            { p with tasks := p.tasks ++ [.createJob (uuid net.drawn) job] } := by
          refine ⟨simulates.shared, ?_, fun k used => ?_, fun task member => ?_,
            fun task s member => ?_, simulates.captured⟩
          · simp [send, sends, is, simulates.tasks]
          · rcases used_start used with before | rfl
            · exact drawn (simulates.used k before)
            · exact .inr ⟨net.drawn, Nat.lt_succ_self _, rfl⟩
          · rcases List.mem_append.mp member with before | this
            · exact (simulates.way task before).mono fun _ _ => id
            · obtain rfl := List.mem_singleton.mp this
              exact ⟨[], posted⟩
          · exact (simulates.past task s member).imp_left fun sent => sent.mono fun _ _ => id
        obtain ⟨fs, p', along, ran, simulates''⟩ := ih simulates' (later _ rfl)
        refine ⟨_ :: fs, p', fun p₁ stepped => ?_, run_cons_some.mpr ⟨_, spawned, ran⟩, simulates''⟩
        cases spawned.symm.trans stepped
        exact ⟨⟨starts, inTime_spawn _⟩, along⟩
      · have simulates' : Simulates uuid t (send uuid n net entry) p := by
          refine ⟨simulates.shared, ?_, fun k used => drawn (simulates.used k used),
            fun task member => (simulates.way task member).mono fun _ _ => id,
            fun task s member => (simulates.past task s member).imp_left fun sent =>
              sent.mono fun _ _ => id, simulates.captured⟩
          simp [send, sends, is, simulates.tasks]
        exact ih simulates' (later _ rfl)

/-- The removals that a device sends. -/
theorem send_all {α : Type} (write : α → Write) (task : α → Task)
    (carries : ∀ key a, sends key (write a) = some (task a)) (startedBy : Option String) (l : List α) :
    (l.map fun a => (startedBy, write a)).foldl (send uuid n) net =
      { net with
        onItsWay := net.onItsWay ++ l.map fun a => ⟨n, task a, .underWay⟩
        drawn := net.drawn + l.length } := by
  induction l generalizing net with
  | nil => simp
  | cons a l ih =>
      rw [List.map_cons, List.foldl_cons, ih]
      simp [send, carries, Nat.add_assoc, Nat.add_comm 1]

/-- A device makes a step. -/
theorem Simulates.moves (fresh : CreateJob.Fresh uuid t) (keeping : Keeping t p)
    (simulates : Simulates uuid t net p) (orderly : net'.Orderly homeOf)
    (moves : Moves web E uuid net e net' n d writes) :
    ∃ fs p', Along (Clients.step E) (fun p f => StartsAnything p f ∧ Clients.InTime p f) p fs ∧
      Theory.run (Clients.step E) p fs = some p' ∧ Simulates uuid t net' p' := by
  obtain ⟨way, tasks, rfl⟩ := moves.sends
  have before : Simulates uuid t
      { net with devices := Function.update net.devices n d, onItsWay := way } p := by
    refine simulates.mono (fun m entry member => ?_) (fun m c pends => ?_) rfl tasks rfl
    · by_cases same : m = n
      · subst same
        simp only [Function.update_self, moves.issued]
        exact List.mem_append_left _ member
      · simpa only [Function.update_of_ne same] using member
    · by_cases same : m = n
      · subst same
        exact moves.captures c (by simpa using pends)
      · exact .inl (by simpa only [Function.update_of_ne same] using pends)
  have inName : ∀ entry ∈ writes, Device.InName entry ∧
      entry ∈ (Function.update net.devices n d n).issued := by
    intro entry member
    have there : entry ∈ (Function.update net.devices n d n).issued := by
      rw [Function.update_self, moves.issued]
      exact List.mem_append_right _ member
    have orderly_n := (orderly n).2.issued entry
    rw [devices_sent] at orderly_n
    exact ⟨orderly_n there, there⟩
  by_cases silent : writes = []
  · subst silent
    exact ⟨[], p, trivial, rfl, before⟩
  obtain ⟨c, pends, kind⟩ := moves.issues silent
  cases kind with
  | posts only =>
      refine before.posts fresh fun entry member => ?_
      rcases only entry member with ⟨job, is⟩ | profile
      · obtain ⟨startedBy, write⟩ := entry
        obtain rfl : write = .createJob job := is
        obtain ⟨⟨latitude, longitude, form, email, rfl, rfl⟩, there⟩ := inName _ member
        exact .inl ⟨_, rfl, n, email, there, ⟨_, _, _, _, rfl⟩, rfl⟩
      · exact .inr profile
  | @applies jobID hashID startedBy uuid' email read =>
      obtain ⟨named, there⟩ := inName _ (List.mem_singleton_self _)
      obtain rfl : startedBy = some email := named
      have ran : (Task.applyToJob jobID uuid' email).exec E p.shared =
          (p.shared, [.fileApplication hashID uuid' email]) := by
        simp only [Task.exec, simulates.shared, read]
      refine before.read (startsAnything_tap p (.applyToJob jobID uuid' email)) trivial
        (fun _ named => absurd named id) (by rw [ran]) ?_ (fun sending member => ?_) (Nat.le_succ _)
      · rw [ran]
        rfl
      obtain rfl := List.mem_singleton.mp member
      exact ⟨n, there⟩
  | removes startedBy jobIndex =>
      rw [send_all .removeJob .removeJobAt fun _ _ => rfl]
      refine before.read (startsAnything_tap p (.removeJob jobIndex)) trivial
        (fun _ named => absurd named id) rfl ?_ (fun sending member => ?_) (Nat.le_add_right ..)
      · simp [Task.exec, simulates.shared]
      · obtain ⟨key, picked, rfl⟩ := List.mem_map.mp member
        exact ⟨n, startedBy, (inName _ (List.mem_map_of_mem picked)).2⟩
  | @withdraws email jobTitle jobs startedBy is =>
      obtain ⟨s, been, rfl⟩ := simulates.captured n c pends email jobTitle jobs is
      rw [send_all (fun path : String × String => .removeApplicant path.1 path.2)
        (fun path => .removeApplicantAt path.1 path.2) fun _ _ => rfl]
      refine before.read (startsAnything_read been email jobTitle) trivial (fun k named => ?_) rfl ?_
        (fun sending member => ?_) (Nat.le_add_right ..)
      · have captured : k ∈ (getPostedJobs s).1 := named
        rw [getPostedJobs_fst] at captured
        exact (keeping.seen s been k captured).used
      · simp [Task.exec, simulates.shared]
      · obtain ⟨path, found, rfl⟩ := List.mem_map.mp member
        exact ⟨n, startedBy, (inName _ (List.mem_map_of_mem found)).2⟩

/-- **One step of the network is some steps of the clients.** -/
theorem Simulates.step (fresh : CreateJob.Fresh uuid t) (keeping : Keeping t p)
    (simulates : Simulates uuid t net p) (orderly : net'.Orderly homeOf)
    (stepped : net.step web E uuid e = some net') :
    ∃ fs p', Along (Clients.step E) (net.Matches e) p fs ∧
      Theory.run (Clients.step E) p fs = some p' ∧ Simulates uuid t net' p' := by
  rcases step_cases stepped with ⟨n, d, writes, moves⟩ | ⟨index, sending, rfl, at_, _, rfl⟩ |
    ⟨index, sending, rfl, at_, _, rfl⟩
  · obtain ⟨fs, p', along, ran, simulates'⟩ := simulates.moves fresh keeping orderly moves
    exact ⟨fs, p', along.mono fun p f both => ⟨both.1, fun _ => both.2⟩, ran, simulates'⟩
  · have at_' : p.tasks[index]? = some sending.task := by
      rw [simulates.tasks, List.getElem?_map, at_]
      rfl
    have fired : Clients.step E p (.fire index) = some _ := Pool.step_fire at_'
    have sent := simulates.way sending.task (List.mem_of_getElem? at_')
    have inTime (arrives : net.InTime (.arrive index)) : Clients.InTime p (.fire index) := by
      unfold InTime server Clients.InTime FilesUnderPosted EndsTitled BeingPosted at arrives
      unfold Clients.InTime FilesUnderPosted EndsTitled BeingPosted
      rw [simulates.shared, simulates.tasks]
      exact arrives
    refine ⟨[.fire index], _, fun _ _ => ⟨⟨startsAnything_fire p index, inTime⟩, trivial⟩,
      run_cons_some.mpr ⟨_, fired, rfl⟩, by rw [simulates.shared], ?_, fun k used => ?_,
      fun task' member => ?_, fun task' s member => ?_, fun n c pends email jobTitle jobs is => ?_⟩
    · rw [List.map_append, List.map_map, simulates.tasks, simulates.shared, List.eraseIdx_map]
      exact congrArg _ (List.map_id _).symm
    · exact simulates.used k (used_fired (perm_eraseIdx at_') used)
    · rcases List.mem_append.mp member with before | new
      · exact (simulates.way task' (List.mem_of_mem_eraseIdx before)).mono fun _ _ => id
      · exact (sent_exec sent task' new).mono fun _ _ => id
    · rcases List.mem_cons.mp member with same | before
      · cases same
        exact .inl (sent.mono fun _ _ => id)
      · exact (simulates.past task' s before).imp_left fun sent => sent.mono fun _ _ => id
    · obtain ⟨s, been, same⟩ := simulates.captured n c pends email jobTitle jobs is
      exact ⟨s, (been.fired : HasBeen (Clients.fired E p sending.task (p.tasks.eraseIdx index)) s), same⟩
  · -- the clients keep what is lost, and never run it
    exact ⟨[], p, trivial, rfl, simulates.mono (fun _ _ => id) (fun _ _ => .inl) rfl (tasks_lost at_) rfl⟩

theorem simulates_launched (uuid : ℕ → String) (currentUser : ℕ → Option AuthDataResult)
    (t : JobTree) : Simulates uuid t (launched currentUser t) (.idle t) where
  shared := rfl
  tasks := rfl
  used k used := by
    rcases used with present | ⟨_, member, _⟩ | ⟨_, member, _⟩
    · exact .inl present
    · cases member
    · cases member
  way task member := absurd member List.not_mem_nil
  past task s member := absurd member List.not_mem_nil
  captured n c pends email jobTitle jobs is := by
    obtain ⟨user, _, rfl⟩ := Option.map_eq_some_iff.mp (Option.mem_toList.mp pends)
    cases is

/-- The clients follow the devices; what the steps of the devices meet, they meet. -/
theorem exists_clients {currentUser : ℕ → Option AuthDataResult} (fresh : CreateJob.Fresh uuid t)
    {C : Network → Event → Prop} {D : State → PoolEvent Task → Prop}
    (patient : ∀ net e, C net e → Patient homeOf net e)
    (matched : ∀ net e p f, C net e → Matches net e p f → D p f) {es : List Event}
    (along : Along (Network.step web E uuid) C (launched currentUser t) es)
    (ran : Theory.run (Network.step web E uuid) (launched currentUser t) es = some net) :
    ∃ fs p, Along (Clients.step E) D (.idle t) fs ∧
      Theory.run (Clients.step E) (.idle t) fs = some p ∧ Simulates uuid t net p := by
  obtain ⟨fs, p, along', ran', _, _, simulates⟩ :=
    run_simulated (R := fun net p => net.Orderly homeOf ∧ Keeping t p ∧ Simulates uuid t net p)
      (fun net e net' p kept meets stepped => by
        have orderly := kept.1.step (patient net e meets) stepped
        obtain ⟨fs, p', along, ran, simulates⟩ := kept.2.2.step fresh kept.2.1 orderly stepped
        have keeping := kept.2.1.run (along.mono fun _ _ both => both.1) ran
        exact ⟨fs, p', along.mono fun p f => matched net e p f meets, ran, orderly, keeping, simulates⟩)
      es _ _ _ ⟨orderly_launched homeOf currentUser t, .initially t,
        simulates_launched uuid currentUser t⟩ along ran
  exact ⟨fs, p, along', ran', simulates⟩

/-- What has begun was posted by a device. -/
theorem Simulates.posted {writes : List (JobField × String)} (simulates : Simulates uuid t net p)
    (began : Began p k writes) : net.Posted writes := by
  obtain ⟨job, s, member⟩ := began
  rcases simulates.past _ s member with ⟨made, posted⟩ | impossible
  · -- nothing can come before a whole job
    have publishes : PublishesJob (made ++ writes) := by
      obtain ⟨_, _, _, publishes, _⟩ := posted
      exact publishes
    have all := publishes.length
    rw [List.length_append, job.length] at all
    obtain rfl : made = [] := List.length_eq_zero_iff.mp (by omega)
    exact posted
  · exact absurd impossible id

/-- An application in the tree was there at the start or has been filed. -/
theorem filed_of_applicant {fs : List (PoolEvent Task)}
    (ran : Theory.run (Clients.step E) (.idle t) fs = some p) {k a email : String}
    (found : p.shared.applicant k a = some email) : Filed t p k a email := by
  refine invariant_of_run (I := fun p => ∀ k a email, p.shared.applicant k a = some email →
    Filed t p k a email) (fun p e p' filed stepped => ?_) (fun _ _ _ => .inl) ran k a email found
  intro k a email found
  rcases Pool.step_cases stepped with ⟨task, rfl, rfl⟩ | ⟨_, task, rest, _, _, _, rfl⟩
  · exact filed k a email found
  · refine filed_fired.mpr ?_
    rcases applicant_exec (E := E) task p.shared k a with ⟨email', rfl, now⟩ | ⟨_, gone⟩ | ⟨_, same⟩
    · cases now.symm.trans found
      exact .inr rfl
    · cases gone.symm.trans found
    · exact .inl (filed k a email (same.symm.trans found))

end Simulation

end Network

/-- **The clients do what the devices do.**  Let any number of devices share the server, with
taps, cells, callbacks and launches in any order, and everything arriving in any order, or lost
with the app it came from.  If the users are patient and no key is drawn twice, there is a run
of the clients that starts what they may start and ends with the same jobs on the server and
the same callbacks on their way, those that are lost among them. -/
theorem network_refines_clients {web : Web} {E : Enumeration} {uuid : ℕ → String}
    {homeOf : String → Controller.Screen} {t : JobTree} (fresh : CreateJob.Fresh uuid t)
    {currentUser : ℕ → Option AuthDataResult} {es : List Network.Event}
    (patient : Along (Network.step web E uuid) (Network.Patient homeOf) (.launched currentUser t) es)
    {net : Network} (ran : run (Network.step web E uuid) (.launched currentUser t) es = some net) :
    ∃ fs p, Along (step E) StartsAnything (.idle t) fs ∧ run (step E) (.idle t) fs = some p ∧
      p.shared = net.postedJobs ∧ p.tasks = net.onItsWay.map Sending.task := by
  obtain ⟨fs, p, along, ran', simulates⟩ := Network.exists_clients fresh
    (fun _ _ => id) (fun _ _ _ _ _ matched => matched.1) patient ran
  exact ⟨fs, p, along, ran', simulates.shared, simulates.tasks⟩

/-- Eve signs in on a device, finds Ann's job in the list, opens it and applies. -/
def evesApplying : List Network.Event :=
  [.tap 0 .login, .fire 0 0 .sample, .fire 0 0 .sample, .fire 0 0 .sample, .display 0 1 0,
    .tap 0 (.select 0 .sample), .tap 0 (.applyToJob 0 "v"), .fire 0 0 .sample, .arrive 0]

theorem sampleKeys_fresh_sample : CreateJob.Fresh CreateJob.sampleKeys Moment.sample.postedJobs where
  distinct := CreateJob.sampleKeys_fresh.distinct
  unused n present := by
    have same := congrArg String.toList (JobTree.eq_of_mem_single present)
    rw [CreateJob.sampleKeys, String.toList_ofList] at same
    have drawn : 'b' ∈ List.replicate (n + 1) 'k' := same ▸ by decide
    cases List.eq_of_mem_replicate drawn

theorem patient_evesApplying :
    Along (Network.step CreateJob.twoCities .inserted CreateJob.sampleKeys)
      (Network.Patient fun _ => .exploreVC)
      (.launched (fun _ => none) Moment.sample.postedJobs) evesApplying := by
  refine fun n₁ tapped => ⟨fun c pending => absurd pending List.not_mem_nil, ?_⟩
  cases tapped
  refine fun n₂ signedIn => ⟨Device.patient_fire_sample rfl (by simp) (by simp), ?_⟩
  cases signedIn
  refine fun n₃ shown => ⟨Device.patient_fire_sample rfl (by simp) (by simp), ?_⟩
  cases shown
  refine fun n₄ loaded => ⟨Device.patient_fire_sample rfl (by simp) (by simp), ?_⟩
  cases loaded
  refine fun n₅ displayed => ⟨trivial, ?_⟩
  cases displayed
  refine fun n₆ opened => ⟨trivial, ?_⟩
  cases opened
  refine fun n₇ tapped => ⟨trivial, ?_⟩
  cases tapped
  refine fun n₈ read => ⟨Device.patient_fire_sample rfl (by simp) (by simp), ?_⟩
  cases read
  exact fun n₉ _ => ⟨trivial, trivial⟩

theorem network_refines_clients_eve :
    ∃ net, run (Network.step CreateJob.twoCities .inserted CreateJob.sampleKeys)
        (.launched (fun _ => none) Moment.sample.postedJobs) evesApplying = some net ∧
      ∃ fs p, Along (step .inserted) StartsAnything (.idle Moment.sample.postedJobs) fs ∧
        run (step .inserted) (.idle Moment.sample.postedJobs) fs = some p ∧
        p.shared = net.postedJobs ∧ p.tasks = net.onItsWay.map Sending.task :=
  ⟨_, rfl, network_refines_clients sampleKeys_fresh_sample patient_evesApplying rfl⟩

/-- **Nobody acts in another's name.**  In every such run, a job that was not there at the
start has all its fields from one posting, which some device made for the user who tapped,
and whose poster is that user; and an application that was not there at the start is one
that some device filed with the email of the user who tapped. -/
theorem network_in_name {web : Web} {E : Enumeration} {uuid : ℕ → String}
    {homeOf : String → Controller.Screen} {t : JobTree} (fresh : CreateJob.Fresh uuid t)
    {currentUser : ℕ → Option AuthDataResult} {es : List Network.Event}
    (patient : Along (Network.step web E uuid) (Network.Patient homeOf) (.launched currentUser t) es)
    {net : Network} (ran : run (Network.step web E uuid) (.launched currentUser t) es = some net) :
    (∀ k ∈ net.postedJobs, k ∉ t → ∃ n email writes,
        (some email, Write.createJob writes) ∈ (net.devices n).issued ∧
        JobField.leaves writes .jobPoster = some email ∧
        ∀ f v, net.postedJobs.field k f = some v → JobField.leaves writes f = some v) ∧
      ∀ k a email, net.postedJobs.applicant k a = some email → t.applicant k a = some email ∨
        ∃ n, (some email, Write.fileApplication k a email) ∈ (net.devices n).issued := by
  obtain ⟨fs, p, along, ran', simulates⟩ := Network.exists_clients fresh
    (fun _ _ => id) (fun _ _ _ _ _ matched => matched.1) patient ran
  have keeping := (Keeping.initially t).run along ran'
  constructor
  · intro k present new
    obtain ⟨writes, began, written⟩ := keeping.posted (simulates.shared ▸ present) new
    obtain ⟨n, email, issued, _, poster⟩ := simulates.posted began
    exact ⟨n, email, writes, issued, poster, simulates.shared ▸ written⟩
  · intro k a email found
    rcases Network.filed_of_applicant ran' (simulates.shared ▸ found) with initially | ⟨s, member⟩
    · exact .inl initially
    · exact .inr ((simulates.past _ s member).resolve_right id)

theorem network_in_name_eve :
    ∃ net, run (Network.step CreateJob.twoCities .inserted CreateJob.sampleKeys)
        (.launched (fun _ => none) Moment.sample.postedJobs) evesApplying = some net ∧
      net.postedJobs.applicant "b" "v" = some "eve@x" ∧
      ∃ n, (some "eve@x", Write.fileApplication "b" "v" "eve@x") ∈ (net.devices n).issued :=
  ⟨_, rfl, rfl, ((network_in_name sampleKeys_fresh_sample patient_evesApplying rfl).2 "b" "v" "eve@x"
    rfl).resolve_left (by decide)⟩

end JobFinder.Clients
