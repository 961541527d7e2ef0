/-
# Clients.Applications -- applications filed and removed at the same time

`RemoveApplication` reads twice and then removes entry by entry, under every job of
its first snapshot, the keys of the applications it matched in the second.  Other
clients file applications and make calls of their own meanwhile, as long as no job
is posted or removed.

The keys of applications are never used twice, so a removal can only hit the entry
whose key was matched.  `Sound` is the invariant that makes this precise: every
entry filed is either still there or was matched by some second read, and a matched
entry is gone or about to be removed.

Two readings of it are drawn.  `absent_iff_caught` says which entries are gone once
everything is done.  `Sound.linear` says that the tree is then the one in which every
call had been a single step, at the moment of its second read.  Such steps commute
and are idempotent (`Applicants.sweep_comm`, `Applicants.sweep_idem`).
-/
import JobFinder.Clients.Callbacks

namespace JobFinder.Clients

open JobFinder.Theory JobFinder.Database JobFinder.Model JobFinder.Controller

set_option autoImplicit false

/-! ## What filing and removing are meant to do -/

/-- The emails of all applications, by job and by application key. -/
abbrev Applicants := String → String → Option String

namespace Applicants

/-- An application is filed. -/
def file (k a email : String) (A : Applicants) : Applicants := fun k' a' =>
  if k' = k ∧ a' = a then some email else A k' a'

/-- Every application with the email, under a job with the title, is removed. -/
def sweep (titles : String → Option String) (email jobTitle : String) (A : Applicants) :
    Applicants := fun k a =>
  if A k a = some email ∧ titles k = some jobTitle then none else A k a

variable {titles : String → Option String} {email jobTitle : String} {A : Applicants}

theorem sweep_some {k a e : String} :
    sweep titles email jobTitle A k a = some e ↔
      A k a = some e ∧ ¬ (e = email ∧ titles k = some jobTitle) := by
  unfold sweep
  split
  · rename_i swept
    refine iff_of_false nofun ?_
    rintro ⟨filed, kept⟩
    exact kept ⟨Option.some.inj (filed.symm.trans swept.1), swept.2⟩
  · rename_i kept
    refine ⟨fun filed => ⟨filed, ?_⟩, And.left⟩
    rintro ⟨rfl, titled⟩
    exact kept ⟨filed, titled⟩

/-- Sweeps commute. -/
theorem sweep_comm (email' jobTitle' : String) :
    sweep titles email jobTitle (sweep titles email' jobTitle' A) =
      sweep titles email' jobTitle' (sweep titles email jobTitle A) := by
  funext k a
  refine Option.ext fun e => ?_
  simp only [sweep_some]
  tauto

/-- Sweeping twice is sweeping once. -/
theorem sweep_idem :
    sweep titles email jobTitle (sweep titles email jobTitle A) = sweep titles email jobTitle A := by
  funext k a
  refine Option.ext fun e => ?_
  simp only [sweep_some]
  tauto

end Applicants

/-! ## What has happened so far -/

/-- The application was there at the start, or has been written since. -/
def Filed (t : JobTree) (p : State) (k a e : String) : Prop :=
  t.applicant k a = some e ∨ ∃ s, (.fileApplication k a e, s) ∈ p.history

/-- The second read of some call of `RemoveApplication` contained the application,
under a job with the call's title and with the call's email. -/
def Caught (p : State) (k a e : String) : Prop :=
  ∃ jobTitle jobs s, (.removeApplicationIn e jobTitle jobs, s) ∈ p.history ∧
    Matches s e jobTitle k a

/-- The applications as they would be if every call had been a single step at its
second read.  The history is read from its newest entry back. -/
def linearized (t : JobTree) : List (Task × JobTree) → Applicants
  | [] => t.applicant
  | (.fileApplication k a e, _) :: history => (linearized t history).file k a e
  | (.removeApplicationIn email jobTitle _, _) :: history =>
      (linearized t history).sweep (fun k => t.field k .title) email jobTitle
  | _ :: history => linearized t history

/-- No application key is used twice. -/
def KeysDistinct (t : JobTree) : Prop :=
  ∀ k k' a e e', t.applicant k a = some e → t.applicant k' a = some e' → k = k'

/-- A task that starts filing or removing applications. -/
def Task.startsApplications : Task → Bool
  | .applyToJob .. | .fileApplication .. | .removeApplication .. | .declineApplicant .. => true
  | _ => false

/-- Clients only file and remove applications.  A filing goes to an existing job,
under a key that has never been used. -/
def ApplicationsOnly (t : JobTree) (p : State) (e : PoolEvent Task) : Prop :=
  (∀ task, e = .spawn task → task.startsApplications = true) ∧
    ∀ i k a email, e = .fire i → p.tasks[i]? = some (.fileApplication k a email) →
      k ∈ p.shared ∧ ∀ k' e', ¬ Filed t p k' a e'

/-- What a pending callback may rely on: the first snapshot has all the jobs, and a
removal was called for by a match. -/
def Justified (t : JobTree) (p : State) : Task → Prop
  | .applyToJob .. | .fileApplication .. | .removeApplication .. | .declineApplicant .. => True
  | .removeApplicationIn _ _ jobs => ∀ k ∈ t, k ∈ jobs
  | .removeApplicantAt _ a => ∃ k e, Caught p k a e
  | .createJob .. | .removeJob .. | .removeJobAt .. => False

/-- The invariant of filing and removing. -/
structure Sound (t : JobTree) (p : State) : Prop where
  fields : ∀ k f, p.shared.field k f = t.field k f
  posted : ∀ k ∈ p.shared, k ∈ t
  present : ∀ k a e, p.shared.applicant k a = some e → Filed t p k a e
  kept : ∀ k a e, Filed t p k a e → p.shared.applicant k a = some e ∨ Caught p k a e
  caught : ∀ k a e, Caught p k a e → Filed t p k a e ∧
    (p.shared.applicant k a = none ∨ .removeApplicantAt k a ∈ p.tasks)
  keys : ∀ k k' a e e', Filed t p k a e → Filed t p k' a e' → k = k' ∧ e = e'
  linear : ∀ k a e, linearized t p.history k a = some e ↔ Filed t p k a e ∧ ¬ Caught p k a e
  tasks : ∀ task ∈ p.tasks, Justified t p task

section Fired

variable {E : Enumeration} {t : JobTree} {p p' : State} {e : PoolEvent Task} {task : Task}
  {rest : List Task} {k a email : String}

/-- The pool after a callback has run. -/
def fired (E : Enumeration) (p : State) (task : Task) (rest : List Task) : State :=
  ⟨(task.exec E p.shared).1, rest ++ (task.exec E p.shared).2, (task, p.shared) :: p.history⟩

theorem filed_fired : Filed t (fired E p task rest) k a email ↔
    Filed t p k a email ∨ task = .fileApplication k a email := by
  simp only [Filed, fired, List.mem_cons, Prod.mk.injEq]
  constructor
  · rintro (initial | ⟨s, ⟨same, _⟩ | before⟩)
    · exact .inl (.inl initial)
    · exact .inr same.symm
    · exact .inl (.inr ⟨s, before⟩)
  · rintro ((initial | ⟨s, before⟩) | same)
    · exact .inl initial
    · exact .inr ⟨s, .inr before⟩
    · exact .inr ⟨p.shared, .inl ⟨same.symm, rfl⟩⟩

theorem caught_fired : Caught (fired E p task rest) k a email ↔
    Caught p k a email ∨
      ∃ jobTitle jobs, task = .removeApplicationIn email jobTitle jobs ∧
        Matches p.shared email jobTitle k a := by
  simp only [Caught, fired, List.mem_cons, Prod.mk.injEq]
  constructor
  · rintro ⟨jobTitle, jobs, s, ⟨same, rfl⟩ | before, found⟩
    · exact .inr ⟨jobTitle, jobs, same.symm, found⟩
    · exact .inl ⟨jobTitle, jobs, s, before, found⟩
  · rintro (⟨jobTitle, jobs, s, before, found⟩ | ⟨jobTitle, jobs, same, found⟩)
    · exact ⟨jobTitle, jobs, s, .inr before, found⟩
    · exact ⟨jobTitle, jobs, p.shared, .inl ⟨same.symm, rfl⟩, found⟩

theorem Caught.fired (caught : Caught p k a email) : Caught (fired E p task rest) k a email :=
  caught_fired.mpr (.inl caught)

theorem Sound.complete (sound : Sound t p) (complete : t.Complete) : p.shared.Complete :=
  fun k present f => by
    rw [sound.fields]
    exact complete k (sound.posted k present) f

theorem Sound.posted_iff (sound : Sound t p) (complete : t.Complete) : k ∈ p.shared ↔ k ∈ t := by
  refine ⟨sound.posted k, fun present => ?_⟩
  obtain ⟨v, found⟩ := complete.field present .title
  rw [← sound.fields] at found
  exact JobTree.mem_of_field found

theorem Justified.mono (justified : Justified t p task)
    (caught : ∀ k a e, Caught p k a e → Caught p' k a e) : Justified t p' task := by
  cases task with
  | removeApplicantAt job a =>
      obtain ⟨k, e, found⟩ := justified
      exact ⟨k, e, caught k a e found⟩
  | removeApplicationIn email jobTitle jobs => exact justified
  | applyToJob jobID uuid email => trivial
  | fileApplication hashID uuid email => trivial
  | removeApplication email jobTitle => trivial
  | declineApplicant applicants tag => trivial
  | createJob key writes => exact justified
  | removeJob jobIndex => exact justified
  | removeJobAt key => exact justified

/-- What was pending stays justified while other callbacks run. -/
theorem Sound.justified_fired (sound : Sound t p) (perm : p.tasks.Perm (task :: rest))
    (issued : ∀ task' ∈ (task.exec E p.shared).2, Justified t (fired E p task rest) task') :
    ∀ task' ∈ (fired E p task rest).tasks, Justified t (fired E p task rest) task' := by
  intro task' member
  rcases perm_issued perm member with before | new
  · exact (sound.tasks task' before).mono fun _ _ _ => Caught.fired
  · exact issued task' new

/-- A callback that neither files nor removes nor matches, and issues nothing
unjustified. -/
theorem Sound.quiet (sound : Sound t p) (perm : p.tasks.Perm (task :: rest))
    (same : (task.exec E p.shared).1 = p.shared)
    (notFile : ∀ k a e, task ≠ .fileApplication k a e)
    (notRead : ∀ e title jobs, task ≠ .removeApplicationIn e title jobs)
    (notRemove : ∀ k a, task ≠ .removeApplicantAt k a)
    (issued : ∀ task' ∈ (task.exec E p.shared).2, Justified t p task') :
    Sound t (fired E p task rest) := by
  have filed (k a e) : Filed t (fired E p task rest) k a e ↔ Filed t p k a e :=
    filed_fired.trans (or_iff_left (notFile k a e))
  have caught (k a e) : Caught (fired E p task rest) k a e ↔ Caught p k a e :=
    caught_fired.trans (or_iff_left fun ⟨_, _, read, _⟩ => notRead _ _ _ read)
  have linear : linearized t (fired E p task rest).history = linearized t p.history := by
    unfold fired
    cases task with
    | fileApplication k a e => exact absurd rfl (notFile k a e)
    | removeApplicationIn e title jobs => exact absurd rfl (notRead e title jobs)
    | _ => rfl
  have shared : (fired E p task rest).shared = p.shared := same
  constructor
  case fields =>
    rw [shared]
    exact sound.fields
  case posted =>
    rw [shared]
    exact sound.posted
  case present =>
    intro k a e found
    rw [shared] at found
    exact (filed k a e).mpr (sound.present k a e found)
  case kept =>
    intro k a e found
    rw [shared, caught]
    exact sound.kept k a e ((filed k a e).mp found)
  case caught =>
    intro k a e found
    rw [shared, filed]
    refine (sound.caught k a e ((caught k a e).mp found)).imp_right (Or.imp_right fun pending => ?_)
    exact perm_kept perm pending (notRemove k a).symm
  case keys =>
    intro k k' a e e' one other
    exact sound.keys k k' a e e' ((filed k a e).mp one) ((filed k' a e').mp other)
  case linear =>
    intro k a e
    rw [linear, filed, caught]
    exact sound.linear k a e
  case tasks =>
    exact sound.justified_fired perm fun task' new => (issued task' new).mono fun _ _ _ => Caught.fired

/-- Filing under a new key is the same step in the linearization. -/
theorem Sound.linear_file (sound : Sound t p) (fresh : ∀ k' e', ¬ Filed t p k' a e')
    (k' a' e' : String) :
    (linearized t p.history).file k a email k' a' = some e' ↔
      (Filed t p k' a' e' ∨ (k' = k ∧ a' = a ∧ e' = email)) ∧ ¬ Caught p k' a' e' := by
  unfold Applicants.file
  split_ifs with here
  · obtain ⟨rfl, rfl⟩ := here
    have uncaught : ¬ Caught p k' a' e' := fun found => fresh k' e' (sound.caught k' a' e' found).1
    rw [Option.some.injEq]
    constructor
    · exact fun same => ⟨.inr ⟨rfl, rfl, same.symm⟩, uncaught⟩
    · rintro ⟨before | ⟨_, _, same⟩, _⟩
      · exact absurd before (fresh k' e')
      · exact same.symm
  · rw [sound.linear]
    refine and_congr_left fun _ => (or_iff_left ?_).symm
    exact fun same => here ⟨same.1, same.2.1⟩

/-- A call takes effect in the linearization at its second read: an entry that no
earlier read matched is still there, so this read matches it if any does. -/
theorem Sound.linear_read {jobTitle : String} (sound : Sound t p) (k' a' e' : String) :
    (linearized t p.history).sweep (fun k => t.field k .title) email jobTitle k' a' = some e' ↔
      Filed t p k' a' e' ∧
        ¬ (Caught p k' a' e' ∨ (e' = email ∧ Matches p.shared email jobTitle k' a')) := by
  rw [Applicants.sweep_some, sound.linear]
  constructor
  · rintro ⟨⟨before, uncaught⟩, kept⟩
    refine ⟨before, not_or.mpr ⟨uncaught, ?_⟩⟩
    rintro ⟨rfl, now⟩
    exact kept ⟨rfl, (sound.fields k' .title).symm.trans now.2⟩
  · rintro ⟨before, uncaught⟩
    obtain ⟨notBefore, notNow⟩ := not_or.mp uncaught
    refine ⟨⟨before, notBefore⟩, ?_⟩
    rintro ⟨rfl, titled⟩
    have here := (sound.kept k' a' e' before).resolve_right notBefore
    exact notNow ⟨rfl, here, (sound.fields k' .title).trans titled⟩

/-- An application is filed under an existing job and a key that is new. -/
theorem Sound.file (sound : Sound t p) (perm : p.tasks.Perm (.fileApplication k a email :: rest))
    (posted : k ∈ p.shared) (fresh : ∀ k' e', ¬ Filed t p k' a e') :
    Sound t (fired E p (.fileApplication k a email) rest) := by
  have shared (k' a') : (fired E p (.fileApplication k a email) rest).shared.applicant k' a' =
      if k' = k ∧ a' = a then some email else p.shared.applicant k' a' :=
    JobTree.applicant_addApplicant ..
  have filed (k' a' e') : Filed t (fired E p (.fileApplication k a email) rest) k' a' e' ↔
      Filed t p k' a' e' ∨ (k' = k ∧ a' = a ∧ e' = email) := by
    rw [filed_fired, Task.fileApplication.injEq]
    exact or_congr_right ⟨fun ⟨h₁, h₂, h₃⟩ => ⟨h₁.symm, h₂.symm, h₃.symm⟩,
      fun ⟨h₁, h₂, h₃⟩ => ⟨h₁.symm, h₂.symm, h₃.symm⟩⟩
  have caught (k' a' e') : Caught (fired E p (.fileApplication k a email) rest) k' a' e' ↔
      Caught p k' a' e' :=
    caught_fired.trans (or_iff_left fun ⟨_, _, read, _⟩ => nomatch read)
  have older {k' a' e'} (found : Filed t p k' a' e') : ¬ (k' = k ∧ a' = a) := by
    rintro ⟨_, rfl⟩
    exact fresh k' e' found
  constructor
  case fields =>
    intro k' f
    exact (JobTree.field_addApplicant ..).trans (sound.fields k' f)
  case posted =>
    intro k' present
    rcases JobTree.mem_addApplicant.mp present with rfl | before
    · exact sound.posted _ posted
    · exact sound.posted k' before
  case present =>
    intro k' a' e' found
    rw [shared] at found
    rw [filed]
    split_ifs at found with here
    · exact .inr ⟨here.1, here.2, (Option.some.inj found).symm⟩
    · exact .inl (sound.present k' a' e' found)
  case kept =>
    intro k' a' e' found
    rw [shared, caught]
    rcases (filed k' a' e').mp found with before | ⟨rfl, rfl, rfl⟩
    · rw [if_neg (older before)]
      exact sound.kept k' a' e' before
    · exact .inl (if_pos ⟨rfl, rfl⟩)
  case caught =>
    intro k' a' e' found
    obtain ⟨before, gone⟩ := sound.caught k' a' e' ((caught k' a' e').mp found)
    rw [filed, shared, if_neg (older before)]
    exact ⟨.inl before, gone.imp_right fun pending => perm_kept perm pending nofun⟩
  case keys =>
    intro k₁ k₂ a' e₁ e₂ one other
    rcases (filed k₁ a' e₁).mp one with old₁ | ⟨rfl, rfl, rfl⟩ <;>
      rcases (filed k₂ a' e₂).mp other with old₂ | ⟨rfl, same, rfl⟩
    · exact sound.keys k₁ k₂ a' e₁ e₂ old₁ old₂
    · exact absurd (same ▸ old₁) (fresh k₁ e₁)
    · exact absurd old₂ (fresh k₂ e₂)
    · exact ⟨rfl, rfl⟩
  case linear =>
    intro k' a' e'
    rw [filed, caught]
    exact sound.linear_file fresh k' a' e'
  case tasks =>
    exact sound.justified_fired perm fun task' none_ => absurd none_ List.not_mem_nil

/-- The second read of a call, which has matched what it is going to remove. -/
theorem Sound.read {jobTitle : String} {jobs : Dict String JobRecord} (sound : Sound t p)
    (complete : t.Complete) (someJob : ∃ k, k ∈ t)
    (perm : p.tasks.Perm (.removeApplicationIn email jobTitle jobs :: rest)) :
    Sound t (fired E p (.removeApplicationIn email jobTitle jobs) rest) := by
  have allJobs : ∀ k ∈ t, k ∈ jobs := sound.tasks _ (perm.mem_iff.mpr List.mem_cons_self)
  have whole := sound.complete complete
  have posted : ∃ k, k ∈ p.shared := someJob.imp fun k => (sound.posted_iff complete).mpr
  have filed (k' a' e') : Filed t (fired E p (.removeApplicationIn email jobTitle jobs) rest) k' a' e' ↔
      Filed t p k' a' e' :=
    filed_fired.trans (or_iff_left nofun)
  have caught (k' a' e') : Caught (fired E p (.removeApplicationIn email jobTitle jobs) rest) k' a' e' ↔
      Caught p k' a' e' ∨ (e' = email ∧ Matches p.shared email jobTitle k' a') := by
    rw [caught_fired]
    refine or_congr_right ⟨?_, ?_⟩
    · rintro ⟨_, _, same, found⟩
      cases same
      exact ⟨rfl, found⟩
    · rintro ⟨rfl, found⟩
      exact ⟨jobTitle, jobs, rfl, found⟩
  constructor
  case fields =>
    exact sound.fields
  case posted =>
    exact sound.posted
  case present =>
    exact fun k' a' e' found => (filed k' a' e').mpr (sound.present k' a' e' found)
  case kept =>
    intro k' a' e' found
    rw [caught]
    exact (sound.kept k' a' e' ((filed k' a' e').mp found)).imp_right .inl
  case caught =>
    intro k' a' e' found
    rw [filed]
    rcases (caught k' a' e').mp found with before | ⟨rfl, now⟩
    · exact (sound.caught k' a' e' before).imp_right
        (Or.imp_right fun pending => perm_kept perm pending nofun)
    · -- the entry is there, and its removal is among those just issued
      refine ⟨sound.present k' a' e' now.1, .inr (List.mem_append_right _ ?_)⟩
      have here : k' ∈ jobs := allJobs k' (sound.posted k' (JobTree.mem_of_applicant now.1))
      exact List.mem_map.mpr
        ⟨(k', a'), (removeApplication_complete whole posted).2 k' here k' a' now, rfl⟩
  case keys =>
    intro k₁ k₂ a' e₁ e₂ one other
    exact sound.keys k₁ k₂ a' e₁ e₂ ((filed _ _ _).mp one) ((filed _ _ _).mp other)
  case linear =>
    intro k' a' e'
    rw [filed, caught]
    exact sound.linear_read k' a' e'
  case tasks =>
    refine sound.justified_fired perm fun task' new => ?_
    obtain ⟨⟨j, a'⟩, out, rfl⟩ := List.mem_map.mp new
    obtain ⟨_, k', found⟩ := mem_removeApplication out
    exact ⟨k', email, (caught k' a' email).mpr (.inr ⟨rfl, found⟩)⟩

/-- A removal that was issued reaches the server. -/
theorem Sound.remove (sound : Sound t p) (perm : p.tasks.Perm (.removeApplicantAt k a :: rest)) :
    Sound t (fired E p (.removeApplicantAt k a) rest) := by
  obtain ⟨k₀, e₀, matched⟩ : ∃ k e, Caught p k a e :=
    sound.tasks _ (perm.mem_iff.mpr List.mem_cons_self)
  have shared (k' a') : (fired E p (.removeApplicantAt k a) rest).shared.applicant k' a' =
      if k' = k ∧ a' = a then none else p.shared.applicant k' a' :=
    JobTree.applicant_removeApplicant ..
  have filed (k' a' e') : Filed t (fired E p (.removeApplicantAt k a) rest) k' a' e' ↔
      Filed t p k' a' e' :=
    filed_fired.trans (or_iff_left nofun)
  have caught (k' a' e') : Caught (fired E p (.removeApplicantAt k a) rest) k' a' e' ↔
      Caught p k' a' e' :=
    caught_fired.trans (or_iff_left fun ⟨_, _, read, _⟩ => nomatch read)
  constructor
  case fields =>
    intro k' f
    exact (JobTree.field_removeApplicant ..).trans (sound.fields k' f)
  case posted =>
    intro k' present
    exact sound.posted k' (JobTree.mem_of_mem_removeApplicant present)
  case present =>
    intro k' a' e' found
    rw [shared] at found
    split_ifs at found
    exact (filed k' a' e').mpr (sound.present k' a' e' found)
  case kept =>
    intro k' a' e' found
    rw [shared, caught]
    have before := (filed k' a' e').mp found
    split_ifs with here
    · -- the key was matched, and there is only one entry with it
      obtain ⟨_, rfl⟩ := here
      obtain ⟨rfl, rfl⟩ := sound.keys k' k₀ a' e' e₀ before (sound.caught k₀ a' e₀ matched).1
      exact .inr matched
    · exact sound.kept k' a' e' before
  case caught =>
    intro k' a' e' found
    rw [filed, shared]
    obtain ⟨before, gone⟩ := sound.caught k' a' e' ((caught k' a' e').mp found)
    refine ⟨before, ?_⟩
    split_ifs with here
    · exact .inl rfl
    · refine gone.imp_right fun pending => perm_kept perm pending fun same => here ?_
      cases same
      exact ⟨rfl, rfl⟩
  case keys =>
    intro k₁ k₂ a' e₁ e₂ one other
    exact sound.keys k₁ k₂ a' e₁ e₂ ((filed _ _ _).mp one) ((filed _ _ _).mp other)
  case linear =>
    intro k' a' e'
    rw [filed, caught]
    exact sound.linear k' a' e'
  case tasks =>
    exact sound.justified_fired perm fun task' none_ => absurd none_ List.not_mem_nil

theorem Justified.start (starts : task.startsApplications = true) : Justified t p task := by
  cases task <;> trivial

theorem Sound.spawn (sound : Sound t p) (starts : task.startsApplications = true) :
    Sound t { p with tasks := p.tasks ++ [task] } where
  fields := sound.fields
  posted := sound.posted
  present := sound.present
  kept := sound.kept
  caught k a e found := (sound.caught k a e found).imp_right
    (Or.imp_right (List.mem_append_left _))
  keys := sound.keys
  linear := sound.linear
  tasks task' member := by
    rcases List.mem_append.mp member with before | new
    · exact (sound.tasks task' before).mono fun _ _ _ => id
    · obtain rfl := List.mem_singleton.mp new
      exact .start starts

/-- **The step of the invariant**, one case for each callback. -/
theorem Sound.step (sound : Sound t p) (complete : t.Complete) (someJob : ∃ k, k ∈ t)
    (legal : ApplicationsOnly t p e) (stepped : Clients.step E p e = some p') : Sound t p' := by
  rcases Pool.step_cases stepped with ⟨task, rfl, rfl⟩ | ⟨i, task, rest, rfl, at_, perm, rfl⟩
  · exact sound.spawn (legal.1 task rfl)
  have justified := sound.tasks task (perm.mem_iff.mpr List.mem_cons_self)
  show Sound t (fired E p task rest)
  cases task with
  | applyToJob jobID uuid email =>
      refine sound.quiet perm ?_ (by simp) (by simp) (by simp) fun task' issued => ?_
      · simp only [Task.exec]
        split <;> rfl
      · simp only [Task.exec] at issued
        split at issued
        · obtain rfl := List.mem_singleton.mp issued
          trivial
        · cases issued
  | fileApplication k a email =>
      obtain ⟨posted, fresh⟩ := legal.2 i k a email rfl at_
      exact sound.file perm posted fresh
  | removeApplication email jobTitle =>
      refine sound.quiet perm rfl (by simp) (by simp) (by simp) fun task' issued => ?_
      obtain rfl := List.mem_singleton.mp issued
      intro k present
      rw [getPostedJobs_fst]
      exact (sound.posted_iff complete).mpr present
  | removeApplicationIn email jobTitle jobs => exact sound.read complete someJob perm
  | removeApplicantAt k a => exact sound.remove perm
  | declineApplicant applicants tag =>
      refine sound.quiet perm rfl (by simp) (by simp) (by simp) fun task' issued => ?_
      obtain ⟨_, _, rfl⟩ := List.mem_map.mp issued
      trivial
  | createJob key writes => exact justified.elim
  | removeJob jobIndex => exact justified.elim
  | removeJobAt key => exact justified.elim

/-- Nothing has happened yet. -/
theorem Sound.start (apart : KeysDistinct t) {tasks : List Task}
    (starts : ∀ task ∈ tasks, task.startsApplications = true) : Sound t (.start t tasks) where
  fields _ _ := rfl
  posted _ present := present
  present _ _ _ found := .inl found
  kept _ _ _ found := .inl (found.resolve_right nofun)
  caught _ _ _ found := by
    obtain ⟨_, _, _, impossible, _⟩ := found
    cases impossible
  keys k k' a e e' one other := by
    have found := one.resolve_right nofun
    have found' := other.resolve_right nofun
    obtain rfl := apart k k' a e e' found found'
    exact ⟨rfl, Option.some.inj (found.symm.trans found')⟩
  linear k a e := by
    refine ⟨fun found => ⟨.inl found, ?_⟩, fun found => found.1.resolve_right nofun⟩
    rintro ⟨_, _, _, impossible, _⟩
    cases impossible
  tasks task member := .start (starts task member)

/-- Once everything is done, the applications left are those filed and not matched. -/
theorem Sound.drained (sound : Sound t p) (done : p.tasks = []) (k a e : String) :
    p.shared.applicant k a = some e ↔ Filed t p k a e ∧ ¬ Caught p k a e := by
  constructor
  · intro found
    refine ⟨sound.present k a e found, fun matched => ?_⟩
    have gone := (sound.caught k a e matched).2.resolve_right (by rw [done]; exact List.not_mem_nil)
    cases gone.symm.trans found
  · exact fun ⟨filed, unmatched⟩ => (sound.kept k a e filed).resolve_right unmatched

/-- Once everything is done, the applications are as if every call had been a single
step at its second read. -/
theorem Sound.drained_linear (sound : Sound t p) (done : p.tasks = []) :
    p.shared.applicant = linearized t p.history := by
  funext k a
  exact Option.ext fun e => (sound.drained done k a e).trans (sound.linear k a e).symm

end Fired

/-! ## Runs in which applications are only removed -/

/-- A call of `RemoveApplication` that has been made: it is about to read, or its
second read has been made. -/
def Underway (p : State) (email jobTitle : String) : Prop :=
  .removeApplication email jobTitle ∈ p.tasks ∨
    (∃ jobs, .removeApplicationIn email jobTitle jobs ∈ p.tasks) ∨
    ∃ jobs s, (.removeApplicationIn email jobTitle jobs, s) ∈ p.history

/-- A callback of one of the given calls. -/
def Task.OfCalls (calls : String → String → Prop) : Task → Prop
  | .removeApplication email jobTitle => calls email jobTitle
  | .removeApplicationIn email jobTitle _ => calls email jobTitle
  | .removeApplicantAt .. => True
  | _ => False

/-- Nothing is or was done but by the given calls. -/
structure CallsOnly (calls : String → String → Prop) (p : State) : Prop where
  tasks : ∀ task ∈ p.tasks, task.OfCalls calls
  filings : ∀ k a e s, (.fileApplication k a e, s) ∉ p.history
  reads : ∀ email jobTitle jobs s, (.removeApplicationIn email jobTitle jobs, s) ∈ p.history →
    calls email jobTitle

section Calls

variable {E : Enumeration} {t : JobTree} {p p' : State} {e : PoolEvent Task}
  {calls : String → String → Prop} {email jobTitle : String}

theorem Underway.step (underway : Underway p email jobTitle) (stepped : Clients.step E p e = some p') :
    Underway p' email jobTitle := by
  rcases Pool.step_cases stepped with ⟨task, _, rfl⟩ | ⟨_, task, rest, _, _, perm, rfl⟩
  · exact underway.imp (List.mem_append_left _)
      (Or.imp_left fun ⟨jobs, pending⟩ => ⟨jobs, List.mem_append_left _ pending⟩)
  · rcases underway with pending | ⟨jobs, pending⟩ | ⟨jobs, s, read⟩
    · rcases List.mem_cons.mp (perm.mem_iff.mp pending) with rfl | other
      · exact .inr (.inl ⟨_, List.mem_append_right _ (List.mem_singleton_self _)⟩)
      · exact .inl (List.mem_append_left _ other)
    · rcases List.mem_cons.mp (perm.mem_iff.mp pending) with rfl | other
      · exact .inr (.inr ⟨jobs, p.shared, List.mem_cons_self⟩)
      · exact .inr (.inl ⟨jobs, List.mem_append_left _ other⟩)
    · exact .inr (.inr ⟨jobs, s, List.mem_cons_of_mem _ read⟩)

/-- A call that is underway when nothing is pending has made its second read. -/
theorem Underway.read_of_done {email jobTitle : String} (underway : Underway p email jobTitle)
    (done : p.tasks = []) : ∃ jobs s, (.removeApplicationIn email jobTitle jobs, s) ∈ p.history := by
  rcases underway with pending | ⟨jobs, pending⟩ | read
  · rw [done] at pending
    cases pending
  · rw [done] at pending
    cases pending
  · exact read

/-- A call made before or during a run is underway at its end. -/
theorem underway_run {es : List (PoolEvent Task)} (ran : run (step E) p es = some p')
    (made : Underway p email jobTitle ∨ .spawn (.removeApplication email jobTitle) ∈ es) :
    Underway p' email jobTitle := by
  induction es generalizing p with
  | nil =>
      cases ran
      exact made.resolve_right List.not_mem_nil
  | cons e es ih =>
      obtain ⟨p₁, stepped, rest⟩ := run_cons_some.mp ran
      rcases made with before | now
      · exact ih rest (.inl (before.step stepped))
      · rcases List.mem_cons.mp now with rfl | later
        · cases stepped
          exact ih rest (.inl (.inl (List.mem_append_right _ (List.mem_singleton_self _))))
        · exact ih rest (.inr later)

theorem CallsOnly.step (only : CallsOnly calls p)
    (spawned : ∀ task, e = .spawn task → task.OfCalls calls)
    (stepped : Clients.step E p e = some p') : CallsOnly calls p' := by
  rcases Pool.step_cases stepped with ⟨task, rfl, rfl⟩ | ⟨_, task, rest, _, _, perm, rfl⟩
  · refine ⟨fun task' member => ?_, only.filings, only.reads⟩
    rcases List.mem_append.mp member with before | new
    · exact only.tasks task' before
    · obtain rfl := List.mem_singleton.mp new
      exact spawned _ rfl
  · have ofCalls := only.tasks task (perm.mem_iff.mpr List.mem_cons_self)
    refine ⟨fun task' member => ?_, fun k a e s member => ?_, fun email jobTitle jobs s member => ?_⟩
    · rcases perm_issued perm member with before | issued
      · exact only.tasks task' before
      · cases task with
        | removeApplication email jobTitle =>
            obtain rfl := List.mem_singleton.mp issued
            exact ofCalls
        | removeApplicationIn email jobTitle jobs =>
            obtain ⟨_, _, rfl⟩ := List.mem_map.mp issued
            trivial
        | removeApplicantAt k a => cases issued
        | _ => exact ofCalls.elim
    · rcases List.mem_cons.mp member with same | before
      · cases same
        exact ofCalls
      · exact only.filings k a e s before
    · rcases List.mem_cons.mp member with same | before
      · cases same
        exact ofCalls
      · exact only.reads email jobTitle jobs s before

/-- Without filings, an application is left if no second read was made for it. -/
theorem linearized_some {history : List (Task × JobTree)}
    (filings : ∀ k a e s, (.fileApplication k a e, s) ∉ history) {k a e : String} :
    linearized t history k a = some e ↔ t.applicant k a = some e ∧
      ∀ jobTitle jobs s, (.removeApplicationIn e jobTitle jobs, s) ∈ history →
        t.field k .title ≠ some jobTitle := by
  induction history with
  | nil => exact ⟨fun found => ⟨found, nofun⟩, And.left⟩
  | cons entry history ih =>
      have older := ih fun k a e s member => filings k a e s (List.mem_cons_of_mem _ member)
      obtain ⟨task, s⟩ := entry
      cases task with
      | fileApplication k a e => exact absurd List.mem_cons_self (filings k a e s)
      | removeApplicationIn email jobTitle jobs =>
          rw [linearized, Applicants.sweep_some, older]
          constructor
          · rintro ⟨⟨found, kept⟩, keeps⟩
            refine ⟨found, fun jobTitle' jobs' s' member titled => ?_⟩
            rcases List.mem_cons.mp member with same | before
            · cases same
              exact keeps ⟨rfl, titled⟩
            · exact kept jobTitle' jobs' s' before titled
          · rintro ⟨found, kept⟩
            refine ⟨⟨found, fun jobTitle' jobs' s' before =>
              kept jobTitle' jobs' s' (List.mem_cons_of_mem _ before)⟩, ?_⟩
            rintro ⟨rfl, titled⟩
            exact kept jobTitle jobs s List.mem_cons_self titled
      | _ =>
          refine older.trans (and_congr_right fun _ => ?_)
          simp

/-- **What calls alone end with**: the applications that no call was made for. -/
theorem CallsOnly.drained (only : CallsOnly calls p) (sound : Sound t p)
    (underway : ∀ email jobTitle, calls email jobTitle → Underway p email jobTitle)
    (done : p.tasks = []) {k a e : String} :
    p.shared.applicant k a = some e ↔ t.applicant k a = some e ∧
      ∀ jobTitle, calls e jobTitle → t.field k .title ≠ some jobTitle := by
  rw [sound.drained_linear done, linearized_some only.filings]
  refine and_congr_right fun _ => ⟨fun kept jobTitle called => ?_, fun kept jobTitle jobs s read =>
    kept jobTitle (only.reads e jobTitle jobs s read)⟩
  obtain ⟨jobs, s, read⟩ := (underway e jobTitle called).read_of_done done
  exact kept jobTitle jobs s read

end Calls

/-- Only calls of `RemoveApplication` are made in a run. -/
def OnlyRemovals (es : List (PoolEvent Task)) : Prop :=
  ∀ task, .spawn task ∈ es → ∃ email jobTitle, task = .removeApplication email jobTitle

section Runs

variable {E : Enumeration} {t : JobTree} {es : List (PoolEvent Task)} {p : State}

theorem sound_run (complete : t.Complete) (someJob : ∃ k, k ∈ t) (apart : KeysDistinct t)
    (legal : Along (step E) (ApplicationsOnly t) (.idle t) es)
    (ran : run (step E) (.idle t) es = some p) : Sound t p := by
  have initial : Sound t (.idle t) := .start apart fun _ none_ => absurd none_ List.not_mem_nil
  exact invariant_of_along
    (fun _ _ _ sound here stepped => sound.step complete someJob here stepped)
    es _ _ initial legal ran

/-- A run of calls alone ends with the applications that no call was made for. -/
theorem removals_drained (complete : t.Complete) (someJob : ∃ k, k ∈ t) (apart : KeysDistinct t)
    (legal : Along (step E) (ApplicationsOnly t) (.idle t) es) (removals : OnlyRemovals es)
    (ran : run (step E) (.idle t) es = some p) (done : p.tasks = []) {k a e : String} :
    p.shared.applicant k a = some e ↔ t.applicant k a = some e ∧
      ∀ jobTitle, .spawn (.removeApplication e jobTitle) ∈ es → t.field k .title ≠ some jobTitle := by
  have initial : CallsOnly (fun email jobTitle => .spawn (.removeApplication email jobTitle) ∈ es)
      (.idle t) := ⟨nofun, nofun, nofun⟩
  have only := invariant_of_along (C := fun _ e => e ∈ es)
    (fun _ _ _ only here stepped => only.step (fun task same => by
      subst same
      obtain ⟨email, jobTitle, rfl⟩ := removals task here
      exact here) stepped)
    es _ _ initial (along_of_forall fun _ member _ => member) ran
  exact only.drained (sound_run complete someJob apart legal ran)
    (fun _ _ called => underway_run ran (.inr called)) done

end Runs

/-- **Which applications are gone.**  Start from complete jobs whose application
keys are distinct, and let any number of clients file applications under existing
jobs and new keys and call `RemoveApplication`, in any interleaving.

* Once everything is done, an application is absent if and only if it was never
  filed, or the second read of some call contained it under a job with the call's
  title and with the call's email; and every call that was made has made that read.
* No job appears or disappears, and no field of one ever changes.
* A call removes nothing but what its own second read matched.
* Once everything is done, the applications are those left when each call is a
  single step at its second read; and such steps commute and are idempotent.
* Runs that make the same calls and nothing else, in whatever order and however
  often, end with the same tree. -/
theorem absent_iff_caught {E : Enumeration} {t : JobTree} (complete : t.Complete)
    (someJob : ∃ k, k ∈ t) (apart : KeysDistinct t) {es : List (PoolEvent Task)}
    (legal : Along (step E) (ApplicationsOnly t) (.idle t) es) {p : State}
    (ran : run (step E) (.idle t) es = some p) :
    (p.tasks = [] → ∀ k a e,
      p.shared.applicant k a ≠ some e ↔ ¬ Filed t p k a e ∨ Caught p k a e) ∧
    (p.tasks = [] → ∀ email jobTitle, .spawn (.removeApplication email jobTitle) ∈ es →
      ∃ jobs s, (.removeApplicationIn email jobTitle jobs, s) ∈ p.history) ∧
    ((∀ k, k ∈ p.shared ↔ k ∈ t) ∧ ∀ k f, p.shared.field k f = t.field k f) ∧
    (∀ email jobTitle jobs s, (.removeApplicationIn email jobTitle jobs, s) ∈ p.history →
      ∀ path ∈ (removeApplication E email jobTitle jobs s).out,
        ∃ k, Matches s email jobTitle k path.2) ∧
    (p.tasks = [] → p.shared.applicant = linearized t p.history) ∧
    (∀ (titles : String → Option String) (A : Applicants) (email jobTitle email' jobTitle' : String),
      (A.sweep titles email' jobTitle').sweep titles email jobTitle =
          (A.sweep titles email jobTitle).sweep titles email' jobTitle' ∧
        (A.sweep titles email jobTitle).sweep titles email jobTitle =
          A.sweep titles email jobTitle) ∧
    ∀ es' p', Along (step E) (ApplicationsOnly t) (.idle t) es' →
      run (step E) (.idle t) es' = some p' → p.tasks = [] → p'.tasks = [] →
      OnlyRemovals es → (∀ task, .spawn task ∈ es ↔ .spawn task ∈ es') →
      p.shared.SameLeaves p'.shared := by
  have sound := sound_run complete someJob apart legal ran
  refine ⟨fun done k a e => ?_, fun done email jobTitle called =>
      (underway_run ran (.inr called)).read_of_done done,
    ⟨fun k => sound.posted_iff complete, sound.fields⟩, ?_,
    sound.drained_linear, fun titles A email jobTitle email' jobTitle' =>
      ⟨Applicants.sweep_comm email' jobTitle', Applicants.sweep_idem⟩, ?_⟩
  · rw [Ne, sound.drained done]
    tauto
  · intro email jobTitle jobs s _ path issued
    exact (mem_removeApplication issued).2
  · intro es' p' legal' ran' done done' removals same
    have sound' := sound_run complete someJob apart legal' ran'
    have removals' : OnlyRemovals es' := fun task made => removals task ((same task).mpr made)
    refine ⟨fun k f => (sound'.fields k f).trans (sound.fields k f).symm, fun k a => ?_⟩
    refine Option.ext fun e => ?_
    rw [removals_drained complete someJob apart legal' removals' ran' done',
      removals_drained complete someJob apart legal removals ran done]
    simp only [same]

/-- Ann's one job, with Eve's application. -/
def appliedFor : JobTree :=
  .single "b" { JobRecord.sample "ann@x" with applicants := AList.singleton "u" "eve@x" }

theorem appliedFor_complete : appliedFor.Complete := JobTree.complete_empty.put _ fun _ => rfl

theorem appliedFor_applicant {k a e : String} (found : appliedFor.applicant k a = some e) :
    k = "b" ∧ a = "u" := by
  obtain rfl := JobTree.eq_of_mem_single (JobTree.mem_of_applicant found)
  rw [appliedFor, JobTree.single, JobTree.applicant_put, if_pos rfl] at found
  exact ⟨rfl, key_of_singleton found⟩

theorem appliedFor_keysDistinct : KeysDistinct appliedFor := fun _ _ _ _ _ one other =>
  (appliedFor_applicant one).1.trans (appliedFor_applicant other).1.symm

/-- Eve's application is matched, and she applies again before its removal arrives. -/
theorem absent_iff_caught_applyAgain :
    ∃ p, run (step .inserted) (.idle appliedFor)
        [.spawn (.removeApplication "eve@x" "Gardener"), .fire 0, .fire 0,
          .spawn (.fileApplication "b" "v" "eve@x"), .fire 1, .fire 0] = some p ∧
      p.tasks = [] ∧ p.shared.applicant "b" "u" = none ∧ p.shared.applicant "b" "v" = some "eve@x" ∧
      (p.tasks = [] → ∀ k a e,
        p.shared.applicant k a ≠ some e ↔ ¬ Filed appliedFor p k a e ∨ Caught p k a e) := by
  refine ⟨_, rfl, rfl, rfl, rfl, (@absent_iff_caught .inserted appliedFor
    appliedFor_complete ⟨"b", by decide +kernel⟩ appliedFor_keysDistinct
    [.spawn (.removeApplication "eve@x" "Gardener"), .fire 0, .fire 0,
      .spawn (.fileApplication "b" "v" "eve@x"), .fire 1, .fire 0] ?_ _ rfl).1⟩
  intro p₁ s₁
  cases s₁
  refine ⟨⟨fun _ same => by cases same; rfl, nofun⟩, fun p₂ s₂ => ?_⟩
  cases s₂
  refine ⟨⟨nofun, fun _ _ _ _ same at_ => by cases same; cases at_⟩, fun p₃ s₃ => ?_⟩
  cases s₃
  refine ⟨⟨nofun, fun _ _ _ _ same at_ => by cases same; cases at_⟩, fun p₄ s₄ => ?_⟩
  cases s₄
  refine ⟨⟨fun _ same => by cases same; rfl, nofun⟩, fun p₅ s₅ => ?_⟩
  cases s₅
  refine ⟨⟨nofun, fun _ _ _ _ same at_ => ?_⟩, fun p₆ s₆ => ?_⟩
  · cases same
    cases at_
    refine ⟨by decide +kernel, fun k' e' filed => ?_⟩
    rcases filed with initial | ⟨s, read⟩
    · exact absurd (appliedFor_applicant initial).2 (by decide)
    · simp [Pool.idle] at read
  cases s₆
  exact ⟨⟨nofun, fun _ _ _ _ same at_ => by cases same; cases at_⟩, trivial⟩

end JobFinder.Clients
