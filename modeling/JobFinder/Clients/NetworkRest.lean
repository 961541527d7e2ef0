/-
# Clients.NetworkRest -- what the devices come to

A callback only starts callbacks that come later in its chain, a device only sends in its
callbacks, and what arrives only brings what is left of its own posting.  So as long as nobody
taps or launches an app anew, callbacks, arrivals and losses come to an end, in whatever order
they run.  Then what is still on its way is lost.  If a job in the tree was being posted when its
posting was lost, nobody can read the lists any more; if there is none, what every user reads is
the board (`network_comes_to_rest`).
-/
import JobFinder.Clients.NetworkBoard
import Mathlib.Algebra.BigOperators.Group.Finset.Basic
import Mathlib.Data.Prod.Lex
import Mathlib.Tactic.Abel

namespace JobFinder.Clients

open JobFinder.Theory JobFinder.Database JobFinder.Model JobFinder.Controller

set_option autoImplicit false

namespace Network

/-- Nobody taps, or launches an app anew, or turns to a list: a callback runs, or something
arrives or is lost. -/
def Event.quiet : Event → Bool
  | .fire .. | .arrive _ | .lose _ => true
  | .tap .. | .display .. | .relaunch _ => false

/-- The ranks of callbacks.  They are above those of all that is on its way to the server. -/
def callbackRanks (pending : List Pending) : Multiset (ℕ ×ₗ ℕ) :=
  (pending : Multiset Pending).map fun c => toLex (2, Device.rank c.callback)

/-- What is lost is of the lowest rank. -/
def sendingRank (sending : Sending) : ℕ ×ₗ ℕ :=
  if sending.passage = .lost then toLex (0, 0) else toLex (1, sending.task.rank)

def sendingRanks (way : List Sending) : Multiset (ℕ ×ₗ ℕ) := (way : Multiset Sending).map sendingRank

/-- The ranks of all that is under way on some devices, and to the server. -/
def ranks (s : Finset ℕ) (net : Network) : Multiset (ℕ ×ₗ ℕ) :=
  ∑ n ∈ s, callbackRanks (net.devices n).pending + sendingRanks net.onItsWay

/-- Nothing is pending on the other devices. -/
def Within (s : Finset ℕ) (net : Network) : Prop := ∀ n ∉ s, (net.devices n).pending = []

section Descent

variable {web : Web} {E : Enumeration} {uuid : ℕ → String} {net net' : Network} {e : Event}
  {s : Finset ℕ} {writes : List (Option String × Write)}

/-- What is sent is added to what is on its way. -/
theorem onItsWay_sent {n : ℕ} (writes : List (Option String × Write)) :
    ∃ more, (writes.foldl (send uuid n) net).onItsWay = net.onItsWay ++ more := by
  induction writes generalizing net with
  | nil => exact ⟨[], by simp⟩
  | cons entry writes ih =>
      obtain ⟨more, sent⟩ : ∃ more, (writes.foldl (send uuid n) (send uuid n net entry)).onItsWay =
        (send uuid n net entry).onItsWay ++ more := ih
      exact ⟨_, sent.trans (List.append_assoc ..)⟩

theorem callbackRanks_append (l m : List Pending) :
    callbackRanks (l ++ m) = callbackRanks l + callbackRanks m := by
  rw [callbackRanks, ← Multiset.coe_add, Multiset.map_add]
  rfl

theorem sendingRanks_append (l m : List Sending) :
    sendingRanks (l ++ m) = sendingRanks l + sendingRanks m := by
  rw [sendingRanks, ← Multiset.coe_add, Multiset.map_add]
  rfl

theorem callbackRanks_taken {pending : List Pending} {index : ℕ} {c : Pending}
    (at_ : pending[index]? = some c) : callbackRanks pending =
      toLex (2, Device.rank c.callback) ::ₘ callbackRanks (pending.eraseIdx index) := by
  rw [callbackRanks, Multiset.coe_eq_coe.mpr (perm_eraseIdx at_), ← Multiset.cons_coe,
    Multiset.map_cons]
  rfl

theorem sendingRanks_taken {way : List Sending} {index : ℕ} {sending : Sending}
    (at_ : way[index]? = some sending) :
    sendingRanks way = sendingRank sending ::ₘ sendingRanks (way.eraseIdx index) := by
  rw [sendingRanks, Multiset.coe_eq_coe.mpr (perm_eraseIdx at_), ← Multiset.cons_coe,
    Multiset.map_cons]
  rfl

theorem sendingRank_of_not_lost {sending : Sending} (kept : sending.passage ≠ .lost) :
    sendingRank sending = toLex (1, sending.task.rank) := if_neg kept

/-- A callback is above all that is on its way. -/
theorem sendingRank_lt (sending : Sending) (rank : ℕ) : sendingRank sending < toLex (2, rank) := by
  unfold sendingRank
  split <;> exact Prod.Lex.toLex_lt_toLex.mpr (.inl (by simp))

/-- One device and the others. -/
theorem ranks_updated {n : ℕ} (member : n ∈ s) (d : Device) :
    ∑ m ∈ s, callbackRanks (Function.update net.devices n d m).pending =
      callbackRanks d.pending + ∑ m ∈ s \ {n}, callbackRanks (net.devices m).pending := by
  have updated : (fun m => callbackRanks (Function.update net.devices n d m).pending) =
      Function.update (fun m => callbackRanks (net.devices m).pending) n (callbackRanks d.pending) := by
    funext m
    by_cases same : m = n
    · subst same
      simp
    · simp [same]
  rw [updated, Finset.sum_update_of_mem member]

/-- A callback leaves less under way: what it starts is of smaller rank, and so is all that
the device sends. -/
theorem ranks_moved {n index : ℕ} {d : Device} {c : Pending} {more : List Pending} (member : n ∈ s)
    (at_ : (net.devices n).pending[index]? = some c)
    (pending : d.pending = (net.devices n).pending.eraseIdx index ++ more)
    (later : ∀ c' ∈ more, Device.rank c'.callback < Device.rank c.callback) :
    (ranks s (moved uuid net n d)).IsDershowitzMannaLT (ranks s net) := by
  obtain ⟨new, sent⟩ : ∃ new, (moved uuid net n d).onItsWay = net.onItsWay ++ new := onItsWay_sent _
  have unchanged : ∑ m ∈ s, callbackRanks (Function.update net.devices n (net.devices n) m).pending =
      _ := ranks_updated member (net.devices n)
  rw [Function.update_eq_self] at unchanged
  have before : ranks s net = toLex (2, Device.rank c.callback) ::ₘ
      (callbackRanks ((net.devices n).pending.eraseIdx index) +
        ∑ m ∈ s \ {n}, callbackRanks (net.devices m).pending + sendingRanks net.onItsWay) := by
    rw [ranks, unchanged, callbackRanks_taken at_, Multiset.cons_add, Multiset.cons_add]
  have after : ranks s (moved uuid net n d) =
      callbackRanks ((net.devices n).pending.eraseIdx index) +
        ∑ m ∈ s \ {n}, callbackRanks (net.devices m).pending + sendingRanks net.onItsWay +
      (callbackRanks more + sendingRanks new) := by
    rw [ranks, sent, moved, devices_sent, ranks_updated member, pending, callbackRanks_append,
      sendingRanks_append]
    abel
  rw [before, after]
  refine isDershowitzMannaLT_replaced fun r below => ?_
  rcases Multiset.mem_add.mp below with started | sent
  · obtain ⟨c', new, rfl⟩ := Multiset.mem_map.mp started
    exact Prod.Lex.toLex_lt_toLex.mpr (.inr ⟨rfl, later c' (Multiset.mem_coe.mp new)⟩)
  · obtain ⟨sending, _, rfl⟩ := Multiset.mem_map.mp sent
    exact sendingRank_lt sending _

/-- What is on its way arrives or is lost, and what is left of it is of smaller rank. -/
theorem ranks_replaced {index : ℕ} {sending : Sending} {t : JobTree} {way new : List Sending}
    (at_ : net.onItsWay[index]? = some sending) (left : way.Perm (net.onItsWay.eraseIdx index ++ new))
    (smaller : ∀ sending' ∈ new, sendingRank sending' < sendingRank sending) :
    (ranks s { net with postedJobs := t, onItsWay := way }).IsDershowitzMannaLT (ranks s net) := by
  have before : ranks s net = sendingRank sending ::ₘ
      (∑ n ∈ s, callbackRanks (net.devices n).pending +
        sendingRanks (net.onItsWay.eraseIdx index)) := by
    rw [ranks, sendingRanks_taken at_, Multiset.add_cons]
  have after : sendingRanks way = sendingRanks (net.onItsWay.eraseIdx index) + sendingRanks new := by
    rw [← sendingRanks_append, sendingRanks, Multiset.coe_eq_coe.mpr left]
    rfl
  rw [before, ranks, after, ← add_assoc]
  refine isDershowitzMannaLT_replaced fun r below => ?_
  obtain ⟨sending', new, rfl⟩ := Multiset.mem_map.mp below
  exact smaller sending' (Multiset.mem_coe.mp new)

/-- A callback, an arrival or a loss leaves less under way. -/
theorem ranks_quiet (within : Within s net) (quiet : e.quiet = true)
    (stepped : net.step web E uuid e = some net') :
    (ranks s net').IsDershowitzMannaLT (ranks s net) ∧ Within s net' := by
  cases e with
  | tap n t => cases quiet
  | display n vc row => cases quiet
  | relaunch n => cases quiet
  | fire n index now =>
      obtain ⟨d, moves, rfl⟩ := Option.map_eq_some_iff.mp stepped
      obtain ⟨c, more, at_, pending, later⟩ := Device.starts_fire moves
      have member : n ∈ s := by
        by_contra outside
        rw [within n outside] at at_
        cases at_
      refine ⟨ranks_moved member at_ pending fun c' new => (later c' new).rank_lt, fun m outside => ?_⟩
      have other : m ≠ n := fun same => outside (same ▸ member)
      rw [moved, devices_sent]
      simpa only [Function.update_of_ne other] using within m outside
  | arrive index =>
      obtain ⟨sending, at_, kept, rfl⟩ := step_arrive stepped
      refine ⟨ranks_replaced at_ (.refl _) fun sending' left => ?_, within⟩
      obtain ⟨task, issued, rfl⟩ := List.mem_map.mp left
      have kept' : (sending.onward task).passage ≠ .lost := kept
      rw [sendingRank_of_not_lost kept, sendingRank_of_not_lost kept']
      exact Prod.Lex.toLex_lt_toLex.mpr (.inr ⟨rfl, Task.rank_exec E _ net.postedJobs task issued⟩)
  | lose index =>
      obtain ⟨sending, at_, gone, rfl⟩ := step_lose stepped
      have kept : sending.passage ≠ .lost := by
        intro lost
        rw [Network.gone, lost] at gone
        cases gone
      obtain ⟨bound, _⟩ := List.getElem?_eq_some_iff.mp at_
      refine ⟨ranks_replaced at_ ((List.set_perm_cons_eraseIdx bound _).trans
        (List.perm_append_singleton _ _).symm) fun sending' left => ?_, within⟩
      obtain rfl := List.mem_singleton.mp left
      rw [sendingRank_of_not_lost kept]
      exact Prod.Lex.toLex_lt_toLex.mpr (.inl Nat.one_pos)

/-- The callbacks, arrivals and losses that may follow, one after the other. -/
def Follows (web : Web) (E : Enumeration) (uuid : ℕ → String) (net' net : Network) : Prop :=
  ∃ e : Event, e.quiet = true ∧ net.step web E uuid e = some net'

/-- They come to an end. -/
theorem acc_follows (within : Within s net) : Acc (Follows web E uuid) net := by
  have wf : WellFounded fun net' net : Network =>
      (ranks s net').IsDershowitzMannaLT (ranks s net) :=
    InvImage.wf (ranks s) Multiset.wellFounded_isDershowitzMannaLT
  induction net using wf.induction with
  | _ net ih =>
      refine Acc.intro net ?_
      rintro net' ⟨e, quiet, stepped⟩
      obtain ⟨less, within'⟩ := ranks_quiet within quiet stepped
      exact ih net' less within'

/-- An event is on one device at most. -/
theorem within_step (stepped : net.step web E uuid e = some net') (within : Within s net) :
    ∃ n, Within (insert n s) net' := by
  rcases step_cases stepped with ⟨n, d, writes, moves⟩ | ⟨_, _, _, _, _, rfl⟩ | ⟨_, _, _, _, _, rfl⟩
  · obtain ⟨way, _, rfl⟩ := moves.sends
    refine ⟨n, fun m outside => ?_⟩
    obtain ⟨other, outside⟩ := not_or.mp (Finset.mem_insert.not.mp outside)
    rw [devices_sent]
    simpa only [Function.update_of_ne other] using within m outside
  · exact ⟨0, fun m outside => within m fun member => outside (Finset.mem_insert_of_mem member)⟩
  · exact ⟨0, fun m outside => within m fun member => outside (Finset.mem_insert_of_mem member)⟩

theorem exists_within {currentUser : ℕ → Option AuthDataResult}
    (few : {n | currentUser n ≠ none}.Finite) {t : JobTree} {es : List Event}
    (ran : Theory.run (Network.step web E uuid) (launched currentUser t) es = some net) :
    ∃ s, Within s net := by
  refine invariant_of_run (I := fun net => ∃ s, Within s net) (fun net e net' kept stepped => ?_) ?_ ran
  · obtain ⟨s, within⟩ := kept
    obtain ⟨n, within'⟩ := within_step stepped within
    exact ⟨_, within'⟩
  · refine ⟨few.toFinset, fun n outside => ?_⟩
    have signedOut : currentUser n = none := by simpa using outside
    show ((currentUser n).map _).toList = []
    rw [signedOut]
    rfl

/-- Where nothing follows, what is on its way is lost, and what is pending is pending on a
device whose app has ended. -/
theorem at_rest (rest : ∀ net', ¬ Follows web E uuid net' net) :
    (∀ sending ∈ net.onItsWay, sending.passage = .lost) ∧
      ∀ n, (net.devices n).Alive → (net.devices n).pending = [] := by
  constructor
  · intro sending member
    obtain ⟨index, at_⟩ := List.mem_iff_getElem?.mp member
    by_contra kept
    exact rest _ ⟨.arrive index, rfl, Option.bind_eq_some_iff.mpr ⟨sending, at_, if_neg kept⟩⟩
  · intro n alive
    rcases waiting : (net.devices n).pending with _ | ⟨c, pending⟩
    · rfl
    · have first : (net.devices n).pending[0]? = some c := by rw [waiting]; rfl
      obtain ⟨d, fires⟩ : ∃ d, (net.devices n).step web E
          (.fire 0 { Moment.sample with postedJobs := net.postedJobs }) = some d := by
        rw [Device.step, if_pos (show (net.devices n).ended = none from alive), first]
        exact ⟨_, rfl⟩
      exact absurd ⟨.fire n 0 .sample, rfl, Option.map_eq_some_iff.mpr ⟨_, fires, rfl⟩⟩ (rest _)

/-- The posting of the job was lost before its end. -/
def LostPartWay (net : Network) (k : String) : Prop :=
  ∃ sending ∈ net.onItsWay, sending.passage = .lost ∧
    ∃ w writes, sending.task = .createJob k (w :: writes)

/-- Where all that is on its way is lost, the jobs that are being posted are those whose posting
was. -/
theorem beingPosted_iff_lostPartWay (lost : ∀ sending ∈ net.onItsWay, sending.passage = .lost)
    {k : String} : BeingPosted net.server k ↔ net.LostPartWay k := by
  constructor
  · rintro ⟨w, writes, member⟩
    obtain ⟨sending, onItsWay, is⟩ := List.mem_map.mp member
    exact ⟨sending, onItsWay, lost sending onItsWay, w, writes, is⟩
  · rintro ⟨sending, onItsWay, _, w, writes, is⟩
    exact ⟨w, writes, List.mem_map.mpr ⟨sending, onItsWay, is⟩⟩

end Descent

end Network

/-- **The devices come to rest.**  Let patient users tap as before, on devices of which finitely
many find a user signed in at launch.  At every moment, if nobody taps any more, or launches an
app anew, callbacks, arrivals and losses come to an end, in whatever order they run.  And when
nothing follows any more, the apps that have not ended have nothing pending.  If then no job in
the tree is one whose posting was lost part way, the three lists of every user can be loaded and
shown, and show what is up on the board; if there is one, nobody's can. -/
theorem network_comes_to_rest {web : Web} {E : Enumeration} {uuid : ℕ → String}
    {homeOf : String → Controller.Screen} {t : JobTree} (complete : t.Complete)
    (fresh : CreateJob.Fresh uuid t) {currentUser : ℕ → Option AuthDataResult}
    (few : {n | currentUser n ≠ none}.Finite) {es : List Network.Event}
    (patient : Along (Network.step web E uuid) (Network.Patient homeOf) (.launched currentUser t) es)
    (inTime : Along (Network.step web E uuid) Network.InTime (.launched currentUser t) es)
    {net : Network} (ran : run (Network.step web E uuid) (.launched currentUser t) es = some net) :
    Acc (Network.Follows web E uuid) net ∧
      ((∀ net', ¬ Network.Follows web E uuid net' net) →
        (∀ n, (net.devices n).Alive → (net.devices n).pending = []) ∧
        ∀ me, (Readable E me net.postedJobs ↔ ∀ k ∈ net.postedJobs, ¬ net.LostPartWay k) ∧
          (Readable E me net.postedJobs → ListsShow E me net.postedJobs (board net.server))) := by
  obtain ⟨s, within⟩ := Network.exists_within few ran
  refine ⟨Network.acc_follows within, fun rest => ?_⟩
  obtain ⟨lost, idle⟩ := Network.at_rest rest
  refine ⟨idle, fun me => ?_⟩
  obtain ⟨fs, p, along, ran', simulates⟩ := Network.exists_clients fresh (fun _ _ both => both.1)
    (fun _ _ _ _ both matched => And.intro matched.1 (matched.2 both.2)) (patient.and inTime) ran
  obtain ⟨keeping, whole⟩ := keeping_whole_run
    ⟨.initially t, fun _ present _ => complete.record present⟩ along ran'
  have settled : (∀ k ∈ p.shared, ¬ BeingPosted p k) ↔
      ∀ k ∈ net.postedJobs, ¬ net.LostPartWay k := by
    rw [simulates.shared]
    exact forall₂_congr fun k _ => not_congr
      (simulates.beingPosted_iff.trans (Network.beingPosted_iff_lostPartWay lost))
  have shows (settled : ∀ k ∈ p.shared, ¬ BeingPosted p k) :
      Readable E me net.postedJobs ∧ ListsShow E me net.postedJobs (board net.server) := by
    rw [← simulates.shared, ← simulates.board_eq]
    exact lists_show whole settled E me
  have readable : Readable E me net.postedJobs → ∀ k ∈ p.shared, ¬ BeingPosted p k := by
    intro readable
    rw [← simulates.shared] at readable
    exact (Network.posters_iff keeping whole).mp fun k present =>
      complete_of_readable readable k present .jobPoster
  exact ⟨⟨fun able => settled.mp (readable able), fun none_ => (shows (settled.mpr none_)).1⟩,
    fun able => (shows (readable able)).2⟩

/-- Ann, who is signed in on one device, posts a job.  Its title arrives; then the app is launched
anew, and the other six writes are lost. -/
def annsLoss : List Network.Event :=
  [.fire 0 0 .ofAnn, .tap 0 (.createJob .sample), .fire 0 0 .ofAnn, .fire 0 0 .ofAnn, .fire 0 0 .ofAnn,
    .arrive 0, .relaunch 0, .lose 0, .fire 0 0 .ofAnn]

def annsSession (n : ℕ) : Option AuthDataResult :=
  if n = 0 then some ⟨"a", "password", "ann@x"⟩ else none

theorem patient_fire_ofAnn {d : Device} {index : ℕ} {c : Pending}
    (signedIn : d.currentUser = annsSession 0) (at_ : d.pending[index]? = some c)
    (notRegister : ∀ handeler, c.callback ≠ .registerUser handeler) :
    Device.Patient (fun _ => .createJobVC) d (.fire index .ofAnn) := by
  refine ⟨Device.stored_singleton (.inr rfl) rfl, fun c' at' user => ?_⟩
  cases at_.symm.trans at'
  refine ⟨fun handeler is => absurd is (notRegister handeler), fun email is same => ?_⟩
  cases signedIn.symm.trans same
  exact ⟨_, rfl, rfl⟩

theorem patient_annsLoss :
    Along (Network.step CreateJob.twoCities .inserted CreateJob.sampleKeys)
      (Network.Patient fun _ => .createJobVC) (.launched annsSession .empty) annsLoss := by
  refine fun n₁ launched => ⟨patient_fire_ofAnn rfl rfl (by simp), ?_⟩
  cases launched
  refine fun n₂ tapped => ⟨trivial, ?_⟩
  cases tapped
  refine fun n₃ answered => ⟨patient_fire_ofAnn rfl rfl (by simp), ?_⟩
  cases answered
  refine fun n₄ checked => ⟨patient_fire_ofAnn rfl rfl (by simp), ?_⟩
  cases checked
  refine fun n₅ posted => ⟨patient_fire_ofAnn rfl rfl (by simp), ?_⟩
  cases posted
  refine fun n₆ titled => ⟨trivial, ?_⟩
  cases titled
  refine fun n₇ relaunched => ⟨trivial, ?_⟩
  cases relaunched
  refine fun n₈ lost => ⟨trivial, ?_⟩
  cases lost
  exact fun n₉ _ => ⟨patient_fire_ofAnn rfl rfl (by simp), trivial⟩

theorem inTime_annsLoss :
    Along (Network.step CreateJob.twoCities .inserted CreateJob.sampleKeys) Network.InTime
      (.launched annsSession .empty) annsLoss := by
  refine fun n₁ launched => ⟨trivial, ?_⟩
  cases launched
  refine fun n₂ tapped => ⟨trivial, ?_⟩
  cases tapped
  refine fun n₃ answered => ⟨trivial, ?_⟩
  cases answered
  refine fun n₄ checked => ⟨trivial, ?_⟩
  cases checked
  refine fun n₅ posted => ⟨trivial, ?_⟩
  cases posted
  refine fun n₆ titled => ⟨⟨fun i hashID uuid email same at_ => ?_, fun i key w same at_ => ?_⟩, ?_⟩
  · cases same
    cases at_
  · cases same
    cases at_
  cases titled
  exact fun n₇ _ => ⟨trivial, fun n₈ _ => ⟨trivial, fun n₉ _ => ⟨trivial, trivial⟩⟩⟩

theorem network_comes_to_rest_annsLoss :
    ∃ net, run (Network.step CreateJob.twoCities .inserted CreateJob.sampleKeys)
        (.launched annsSession .empty) annsLoss = some net ∧
      ("k" ∈ net.postedJobs ∧ net.LostPartWay "k") ∧
      Acc (Network.Follows CreateJob.twoCities .inserted CreateJob.sampleKeys) net ∧
      ((∀ net', ¬ Network.Follows CreateJob.twoCities .inserted CreateJob.sampleKeys net' net) →
        (∀ n, (net.devices n).Alive → (net.devices n).pending = []) ∧
        ∀ me, (Readable .inserted me net.postedJobs ↔ ∀ k ∈ net.postedJobs, ¬ net.LostPartWay k) ∧
          (Readable .inserted me net.postedJobs →
            ListsShow .inserted me net.postedJobs (board net.server))) :=
  ⟨_, rfl, ⟨by decide, _, List.mem_cons_self, rfl, _, _, rfl⟩,
    network_comes_to_rest JobTree.complete_empty CreateJob.sampleKeys_fresh
      ((Set.finite_singleton 0).subset fun n some_ => by_contra fun other => some_ (if_neg other))
      patient_annsLoss inTime_annsLoss rfl⟩

end JobFinder.Clients
