/-
# Clients.DeclinedRows -- the list of applications after some of them are declined

`ShowApplicantsVC` fills its list once, when it is loaded.  `DeclineApplicant` removes
applications from the tree and reloads the collection view, but the collection view
is filled from the list, and nothing ever takes an application out of that.

`Screen` is one such view controller with the callbacks of its taps.  Every tap on a row
ends with the application the row was built from gone from the tree (`Doomed`), while
its row stays.  `rowsStandFor_iff` is exact: once everything is done, the rows are the
applications still there if and only if no row has been declined.
-/
import JobFinder.Clients.Declining

namespace JobFinder.Clients

open JobFinder.Theory JobFinder.Database JobFinder.Model JobFinder.Controller

set_option autoImplicit false

/-! ## Callbacks that only remove applications -/

/-- A callback of a decline; a first snapshot that it holds has all the jobs. -/
def Task.Removes (t : JobTree) : Task → Prop
  | .declineApplicant .. | .removeApplication .. | .removeApplicantAt .. => True
  | .removeApplicationIn _ _ jobs => ∀ k ∈ t, k ∈ jobs
  | _ => False

/-- Nothing but applications has been removed, and nothing else is going to be. -/
structure OnlyRemoves (t : JobTree) (p : State) : Prop where
  fields : ∀ k f, p.shared.field k f = t.field k f
  applicants : ∀ k a e, p.shared.applicant k a = some e → t.applicant k a = some e
  tasks : ∀ task ∈ p.tasks, task.Removes t

/-- The callback leads to the removal of the application at `a` under the job at `k`,
with that email and that job title. -/
def Task.Dooms (E : Enumeration) (email title k a : String) : Task → Prop
  | .declineApplicant applicants tag => applicants.row E tag = .ok ⟨email, some title⟩
  | .removeApplication email' title' => email' = email ∧ title' = title
  | .removeApplicationIn email' title' _ => email' = email ∧ title' = title
  | .removeApplicantAt k' a' => k' = k ∧ a' = a
  | _ => False

/-- The application is gone, or a pending callback leads to its removal. -/
def Doomed (E : Enumeration) (email title k a : String) (p : State) : Prop :=
  p.shared.applicant k a = none ∨ ∃ task ∈ p.tasks, task.Dooms E email title k a

section Removing

variable {E : Enumeration} {t : JobTree} {p p' : State} {task : Task} {email title k a : String}

/-- Such a callback changes no field, and adds no application. -/
theorem exec_removes (removes : task.Removes t) (s : JobTree) :
    (∀ k f, (task.exec E s).1.field k f = s.field k f) ∧
      ∀ k a e, (task.exec E s).1.applicant k a = some e → s.applicant k a = some e := by
  cases task with
  | removeApplicantAt job a =>
      refine ⟨fun k f => JobTree.field_removeApplicant .., fun k a' e kept => ?_⟩
      simp only [Task.exec, JobTree.applicant_removeApplicant] at kept
      split_ifs at kept
      exact kept
  | declineApplicant applicants tag => exact ⟨fun _ _ => rfl, fun _ _ _ kept => kept⟩
  | removeApplication email title => exact ⟨fun _ _ => rfl, fun _ _ _ kept => kept⟩
  | removeApplicationIn email title jobs => exact ⟨fun _ _ => rfl, fun _ _ _ kept => kept⟩
  | _ => exact removes.elim

theorem OnlyRemoves.mem_iff (only : OnlyRemoves t p) (complete : t.Complete) :
    k ∈ p.shared ↔ k ∈ t := by
  constructor
  · intro present
    rcases JobTree.mem_iff_leaf.mp present with ⟨f, leaf⟩ | ⟨a, leaf⟩
    · rw [only.fields] at leaf
      exact JobTree.mem_iff_leaf.mpr (.inl ⟨f, leaf⟩)
    · obtain ⟨e, filed⟩ := Option.ne_none_iff_exists'.mp leaf
      exact JobTree.mem_of_applicant (only.applicants k a e filed)
  · intro present
    obtain ⟨v, found⟩ := complete.field present .title
    exact JobTree.mem_of_field ((only.fields k .title).trans found)

theorem OnlyRemoves.complete (only : OnlyRemoves t p) (complete : t.Complete) : p.shared.Complete :=
  fun k present f => by
    rw [only.fields]
    exact complete k ((only.mem_iff complete).mp present) f

/-- What such a callback issues only removes applications as well. -/
theorem OnlyRemoves.issued (only : OnlyRemoves t p) (complete : t.Complete)
    (removes : task.Removes t) : ∀ task' ∈ (task.exec E p.shared).2, task'.Removes t := by
  intro task' member
  cases task with
  | declineApplicant applicants tag =>
      obtain ⟨_, _, rfl⟩ := List.mem_map.mp member
      trivial
  | removeApplication email title =>
      obtain rfl := List.mem_singleton.mp member
      intro k present
      rw [getPostedJobs_fst]
      exact (only.mem_iff complete).mpr present
  | removeApplicationIn email title jobs =>
      obtain ⟨_, _, rfl⟩ := List.mem_map.mp member
      trivial
  | removeApplicantAt k a => cases member
  | _ => exact removes.elim

theorem OnlyRemoves.fire (only : OnlyRemoves t p) (complete : t.Complete) {i : ℕ}
    (stepped : Clients.step E p (.fire i) = some p') : OnlyRemoves t p' := by
  rcases Pool.step_cases stepped with ⟨_, impossible, _⟩ | ⟨_, task, rest, _, _, perm, rfl⟩
  · cases impossible
  have removes := only.tasks task (perm.mem_iff.mpr List.mem_cons_self)
  obtain ⟨fields, applicants⟩ := exec_removes (E := E) removes p.shared
  refine ⟨fun k f => (fields k f).trans (only.fields k f),
    fun k a e kept => only.applicants k a e (applicants k a e kept), fun task' member => ?_⟩
  rcases perm_issued perm member with before | issued
  · exact only.tasks task' before
  · exact only.issued complete removes task' issued

/-- A callback that leads to the removal of an application that is still there
removes it, or issues a callback that does. -/
theorem Task.Dooms.exec (only : OnlyRemoves t p) (complete : t.Complete)
    (removes : task.Removes t) (dooms : task.Dooms E email title k a)
    (found : Matches p.shared email title k a) :
    (task.exec E p.shared).1.applicant k a = none ∨
      ∃ task' ∈ (task.exec E p.shared).2, task'.Dooms E email title k a := by
  have whole := only.complete complete
  cases task with
  | declineApplicant applicants tag =>
      have called := ShowApplicants.declineApplicant_calls whole dooms rfl found
      exact .inr ⟨_, List.mem_map.mpr ⟨_, called, rfl⟩, rfl, rfl⟩
  | removeApplication email' title' =>
      exact .inr ⟨_, List.mem_singleton_self _, dooms⟩
  | removeApplicationIn email' title' jobs =>
      obtain ⟨rfl, rfl⟩ := dooms
      have present := JobTree.mem_of_applicant found.1
      have known : k ∈ jobs := removes k ((only.mem_iff complete).mp present)
      have issued : (k, a) ∈ (Model.removeApplication E email' title' jobs p.shared).out :=
        (removeApplication_complete whole ⟨k, present⟩).2 k known k a found
      exact .inr ⟨_, List.mem_map.mpr ⟨_, issued, rfl⟩, rfl, rfl⟩
  | removeApplicantAt k' a' =>
      obtain ⟨rfl, rfl⟩ := dooms
      exact .inl (by simp [Task.exec])
  | _ => exact removes.elim

/-- Once doomed, an application stays doomed, whichever callback runs. -/
theorem Doomed.fire (only : OnlyRemoves t p) (complete : t.Complete)
    (filed : Matches t email title k a) (doomed : Doomed E email title k a p) {i : ℕ}
    (stepped : Clients.step E p (.fire i) = some p') : Doomed E email title k a p' := by
  rcases Pool.step_cases stepped with ⟨_, impossible, _⟩ | ⟨_, task, rest, _, _, perm, rfl⟩
  · cases impossible
  have removes := only.tasks task (perm.mem_iff.mpr List.mem_cons_self)
  have shrinks := (exec_removes (E := E) removes p.shared).2 k a
  cases still : p.shared.applicant k a with
  | none =>
      refine .inl (Option.eq_none_iff_forall_ne_some.mpr fun e kept => ?_)
      cases still.symm.trans (shrinks e kept)
  | some e =>
      have same : e = email := Option.some.inj ((only.applicants k a e still).symm.trans filed.1)
      have found : Matches p.shared email title k a :=
        ⟨same ▸ still, (only.fields k .title).trans filed.2⟩
      obtain ⟨task', pending, dooms⟩ := doomed.resolve_left (by simp [still])
      rcases List.mem_cons.mp (perm.mem_iff.mp pending) with rfl | other
      · refine (dooms.exec only complete removes found).imp_right ?_
        rintro ⟨next, issued, dooms'⟩
        exact ⟨next, List.mem_append_right _ issued, dooms'⟩
      · exact .inr ⟨task', List.mem_append_left _ other, dooms⟩

end Removing

/-! ## One screen -/

/-- A `ShowApplicantsVC`: its list, and the tree with the callbacks of its taps. -/
structure Screen where
  applicants : Counted Application
  pool : State

namespace Screen

inductive Event where
  /-- A tap on the decline button of a row. -/
  | decline (row : ℕ)
  /-- A pending callback runs. -/
  | fire (index : ℕ)
deriving DecidableEq, Repr

/-- The screen after its load. -/
def loaded (E : Enumeration) (me : String) (t : JobTree) : Screen :=
  ⟨ShowApplicants.listed E me t, .idle t⟩

/-- One event.  The button of a row is tagged with the row, and `DeclineApplicant` hands
its tag to its callback.  No callback writes to the list. -/
def step (E : Enumeration) (s : Screen) : Event → Option Screen
  | .decline row =>
      if row < s.applicants.count then
        (Clients.step E s.pool (.spawn (.declineApplicant s.applicants row))).map fun p =>
          { s with pool := p }
      else none
  | .fire i => (Clients.step E s.pool (.fire i)).map fun p => { s with pool := p }

section Runs

variable {E : Enumeration} {me : String} {t : JobTree} {s s' : Screen} {e : Event} {es : List Event}

/-- What one event does: a shown row is declined, or a callback runs. -/
theorem step_cases (stepped : step E s e = some s') :
    (∃ row, e = .decline row ∧ row < s.applicants.count ∧
      s' = ⟨s.applicants, { s.pool with
        tasks := s.pool.tasks ++ [.declineApplicant s.applicants row] }⟩) ∨
      ∃ i p, e = .fire i ∧ Clients.step E s.pool (.fire i) = some p ∧ s' = ⟨s.applicants, p⟩ := by
  cases e with
  | decline row =>
      simp only [step] at stepped
      split at stepped
      · rename_i shown
        cases stepped
        exact .inl ⟨row, rfl, shown, rfl⟩
      · cases stepped
  | fire i =>
      obtain ⟨p, fired, rfl⟩ := Option.map_eq_some_iff.mp stepped
      exact .inr ⟨i, p, rfl, fired, rfl⟩

/-- The list stays as it was loaded, and only applications are removed. -/
structure Kept (E : Enumeration) (me : String) (t : JobTree) (s : Screen) : Prop where
  applicants : s.applicants = ShowApplicants.listed E me t
  only : OnlyRemoves t s.pool

theorem kept_loaded : Kept E me t (loaded E me t) :=
  ⟨rfl, fun _ _ => rfl, fun _ _ _ filed => filed, fun _ none_ => absurd none_ List.not_mem_nil⟩

theorem Kept.step (complete : t.Complete) (kept : Kept E me t s)
    (stepped : Screen.step E s e = some s') : Kept E me t s' := by
  rcases step_cases stepped with ⟨row, _, _, rfl⟩ | ⟨i, p, _, fired, rfl⟩
  · refine ⟨kept.applicants, kept.only.fields, kept.only.applicants, fun task member => ?_⟩
    rcases List.mem_append.mp member with before | new
    · exact kept.only.tasks task before
    · obtain rfl := List.mem_singleton.mp new
      trivial
  · exact ⟨kept.applicants, kept.only.fire complete fired⟩

theorem kept_run (complete : t.Complete) (ran : run (Screen.step E) (loaded E me t) es = some s) :
    Kept E me t s :=
  invariant_of_run (fun _ _ _ kept stepped => kept.step complete stepped) kept_loaded ran

/-- An application doomed by a callback stays so for the rest of the run. -/
theorem doomed_run (complete : t.Complete) {email title k a : String}
    (filed : Matches t email title k a) (kept : Kept E me t s)
    (doomed : Doomed E email title k a s.pool) (ran : run (Screen.step E) s es = some s') :
    Doomed E email title k a s'.pool := by
  have both : Kept E me t s' ∧ Doomed E email title k a s'.pool := by
    refine invariant_of_run
      (I := fun s => Kept E me t s ∧ Doomed E email title k a s.pool) ?_ ⟨kept, doomed⟩ ran
    rintro s₁ e s₂ ⟨kept, doomed⟩ stepped
    refine ⟨kept.step complete stepped, ?_⟩
    rcases step_cases stepped with ⟨row, _, _, rfl⟩ | ⟨i, p, _, fired, rfl⟩
    · exact doomed.imp_right fun ⟨task, pending, dooms⟩ =>
        ⟨task, List.mem_append_left _ pending, dooms⟩
    · exact doomed.fire kept.only complete filed fired
  exact both.2

/-- A declined row's application is gone in the end. -/
theorem gone_of_declined (complete : t.Complete)
    (ran : run (Screen.step E) (loaded E me t) es = some s) (done : s.pool.tasks = []) {row : ℕ}
    (declined : .decline row ∈ es) :
    ∃ entry ∈ ShowApplicants.ownEntries me t, s.pool.shared.applicant entry.1 entry.2 = none := by
  obtain ⟨pre, post, rfl⟩ := List.append_of_mem declined
  obtain ⟨s₁, before, after⟩ := run_append_some.mp ran
  obtain ⟨s₂, tapped, rest⟩ := run_cons_some.mp after
  have kept := kept_run complete before
  rcases step_cases tapped with ⟨row', same, shown, rfl⟩ | ⟨i, p, impossible, _⟩
  · cases same
    have rows := ShowApplicants.rowsStandFor_listed E me complete
    rw [kept.applicants] at shown
    obtain ⟨email, title, read, filed⟩ := rows.row row shown
    refine ⟨_, rows.bijOn.mapsTo shown, ?_⟩
    have doomed := doomed_run complete filed (kept.step complete tapped)
      (.inr ⟨_, List.mem_append_right _ (List.mem_singleton_self _), by
        rw [kept.applicants]
        exact read⟩) rest
    refine doomed.resolve_right ?_
    rintro ⟨task, pending, _⟩
    rw [done] at pending
    cases pending
  · cases impossible

/-- With nothing pending and no tap, nothing can happen. -/
theorem loaded_of_not_declined (ran : run (Screen.step E) (loaded E me t) es = some s)
    (undeclined : ∀ row, .decline row ∉ es) : s = loaded E me t := by
  cases es with
  | nil =>
      cases ran
      rfl
  | cons e es =>
      obtain ⟨s', stepped, _⟩ := run_cons_some.mp ran
      rcases step_cases stepped with ⟨row, rfl, _⟩ | ⟨i, p, _, fired, _⟩
      · exact absurd List.mem_cons_self (undeclined row)
      · simp [loaded, Pool.idle, Clients.step, Pool.step] at fired

/-- The pending callbacks of a screen run as they do in its pool. -/
theorem run_fires {fires : List ℕ} {p : State}
    (ran : run (Clients.step E) s.pool (fires.map .fire) = some p) :
    run (Screen.step E) s (fires.map .fire) = some ⟨s.applicants, p⟩ := by
  induction fires generalizing s with
  | nil =>
      cases ran
      rfl
  | cons i fires ih =>
      obtain ⟨p₁, fired, rest⟩ := run_cons_some.mp ran
      refine run_cons_some.mpr ⟨⟨s.applicants, p₁⟩, ?_, ih rest⟩
      exact Option.map_eq_some_iff.mpr ⟨p₁, fired, rfl⟩

end Runs

/-- **When the rows are the applications still there.**  Load the list from complete jobs,
and let the user decline any shown rows, any number of times, while nobody else writes.
The reads and removals of the taps can always be carried out; and once they are, the
rows stand for the applications in the tree under the user's own jobs, each for one, if
and only if no row has been declined. -/
theorem rowsStandFor_iff {E : Enumeration} {me : String} {t : JobTree} (complete : t.Complete)
    {es : List Event} {s : Screen} (ran : run (step E) (loaded E me t) es = some s) :
    (∃ (fires : List ℕ) (s' : Screen),
      run (step E) s (fires.map .fire) = some s' ∧ s'.pool.tasks = []) ∧
    (s.pool.tasks = [] →
      ((∃ entry, ShowApplicants.RowsStandFor E me s.pool.shared s.applicants entry) ↔
        ∀ row, .decline row ∉ es)) := by
  constructor
  · obtain ⟨fires, p, fired, drained⟩ := exists_drained E s.pool
    exact ⟨fires, _, run_fires fired, drained⟩
  · intro done
    constructor
    · rintro ⟨entry, rows⟩ row declined
      obtain ⟨gone, own, absent⟩ := gone_of_declined complete ran done declined
      have kept := kept_run complete ran
      have initial := ShowApplicants.rowsStandFor_listed E me complete
      have finite : (ShowApplicants.ownEntries me t).Finite := by
        rw [← initial.bijOn.image_eq]
        exact (Set.finite_Iio _).image _
      have fewer : ShowApplicants.ownEntries me s.pool.shared ⊂ ShowApplicants.ownEntries me t := by
        refine (Set.ssubset_iff_of_subset ?_).mpr ⟨gone, own, ?_⟩
        · rintro ⟨k, a⟩ ⟨mine, email, filed⟩
          exact ⟨(kept.only.fields k .jobPoster).symm.trans mine, email,
            kept.only.applicants k a email filed⟩
        · rintro ⟨_, email, filed⟩
          cases absent.symm.trans filed
      have less := Set.ncard_lt_ncard fewer finite
      rw [← rows.count, ← initial.count, kept.applicants] at less
      exact lt_irrefl _ less
    · intro undeclined
      obtain rfl := loaded_of_not_declined ran undeclined
      exact ⟨_, ShowApplicants.rowsStandFor_listed E me complete⟩

/-- Ann's one row is declined, and everything is carried out. -/
theorem rowsStandFor_iff_declined :
    ∃ s, run (step .inserted) (loaded .inserted "ann@x" appliedFor)
        [.decline 0, .fire 0, .fire 0, .fire 0, .fire 0] = some s ∧
      (s.pool.tasks = [] →
        ((∃ entry,
            ShowApplicants.RowsStandFor .inserted "ann@x" s.pool.shared s.applicants entry) ↔
          ∀ row, Event.decline row ∉ [.decline 0, .fire 0, .fire 0, .fire 0, .fire 0])) :=
  ⟨_, rfl, (@rowsStandFor_iff .inserted "ann@x" appliedFor appliedFor_complete
    [.decline 0, .fire 0, .fire 0, .fire 0, .fire 0] _ rfl).2⟩

/-- Ann declines Eve's application, her only one.  It is gone, and its row is still shown. -/
theorem declined_row_stays :
    ∃ s, run (step .inserted) (loaded .inserted "ann@x" appliedFor)
        [.decline 0, .fire 0, .fire 0, .fire 0, .fire 0] = some s ∧
      s.pool.tasks = [] ∧ s.pool.shared.applicant "b" "u" = none ∧
      s.applicants.row .inserted 0 = .ok ⟨"eve@x", some "Gardener"⟩ ∧
      ¬ ∃ entry, ShowApplicants.RowsStandFor .inserted "ann@x" s.pool.shared s.applicants entry := by
  refine ⟨_, rfl, rfl, rfl, rfl, ?_⟩
  rintro ⟨entry, rows⟩
  have shown : (0 : ℕ) ∈ Set.Iio (ShowApplicants.listed .inserted "ann@x" appliedFor).count :=
    Set.mem_Iio.mpr Nat.one_pos
  have kept := @kept_run .inserted "ann@x" appliedFor _
    [.decline 0, .fire 0, .fire 0, .fire 0, .fire 0] appliedFor_complete rfl
  obtain ⟨_, email, filed⟩ := rows.bijOn.mapsTo shown
  obtain ⟨job, key⟩ := appliedFor_applicant (kept.only.applicants _ _ _ filed)
  rw [job, key] at filed
  cases filed

end Screen

end JobFinder.Clients
