/-
# Clients.KeptApplications -- what becomes of an application

`Clients.Applications` follows the applications while no job is posted or removed.  Here
everything runs at once.  The keys of applications are still never used twice, so a
removal can only hit the application whose key some second read of `RemoveApplication`
has matched (`Kept.removals`); what else can take an application away is the removal of
its job.
-/
import JobFinder.Clients.Together

namespace JobFinder.Clients

open JobFinder.Theory JobFinder.Database JobFinder.Model JobFinder.Controller

set_option autoImplicit false

/-- The job at the key has been removed. -/
def Removed (p : State) (k : String) : Prop := ∃ s, (.removeJobAt k, s) ∈ p.history

/-- An application is filed under a key that has never been used. -/
def FilesUnderFreshKeys (t : JobTree) (p : State) (e : PoolEvent Task) : Prop :=
  ∀ i k a email, e = .fire i → p.tasks[i]? = some (.fileApplication k a email) →
    ∀ k' e', ¬ Filed t p k' a e'

/-- Applications have been filed, and those that have gone were matched or went with their
job. -/
structure Kept (t : JobTree) (p : State) : Prop where
  filed : ∀ k a e, p.shared.applicant k a = some e → Filed t p k a e
  kept : ∀ k a e, Filed t p k a e → p.shared.applicant k a = some e ∨ Caught p k a e ∨ Removed p k
  keys : ∀ k k' a e e', Filed t p k a e → Filed t p k' a e' → k = k' ∧ e = e'
  caught : ∀ k a e, Caught p k a e → Filed t p k a e
  removals : ∀ job a, .removeApplicantAt job a ∈ p.tasks → ∃ k e, Caught p k a e

section Kept

variable {E : Enumeration} {t : JobTree} {p p' : State} {e : PoolEvent Task} {task : Task}
  {rest : List Task} {k a : String}

/-- What a callback does to an application. -/
theorem applicant_exec (task : Task) (s : JobTree) (k a : String) :
    (∃ email, task = .fileApplication k a email ∧ (task.exec E s).1.applicant k a = some email) ∨
      ((task = .removeJobAt k ∨ task = .removeApplicantAt k a) ∧
        (task.exec E s).1.applicant k a = none) ∨
      ((∀ email, task ≠ .fileApplication k a email) ∧
        (task.exec E s).1.applicant k a = s.applicant k a) := by
  have other (quiet : ∀ email, task ≠ .fileApplication k a email)
      (same : (task.exec E s).1.applicant k a = s.applicant k a) :
      (∃ email, task = .fileApplication k a email ∧ (task.exec E s).1.applicant k a = some email) ∨
        ((task = .removeJobAt k ∨ task = .removeApplicantAt k a) ∧
          (task.exec E s).1.applicant k a = none) ∨
        ((∀ email, task ≠ .fileApplication k a email) ∧
          (task.exec E s).1.applicant k a = s.applicant k a) := .inr (.inr ⟨quiet, same⟩)
  cases task with
  | createJob key writes =>
      refine other (by simp) ?_
      cases writes with
      | nil => rfl
      | cons w writes => exact JobTree.applicant_setField ..
  | applyToJob jobID uuid email =>
      refine other (by simp) ?_
      simp only [Task.exec]
      split <;> rfl
  | fileApplication hashID uuid email =>
      by_cases here : k = hashID ∧ a = uuid
      · obtain ⟨rfl, rfl⟩ := here
        exact .inl ⟨email, rfl, by simp [Task.exec]⟩
      · refine other ?_ (by simp [Task.exec, here])
        rintro _ same
        cases same
        exact here ⟨rfl, rfl⟩
  | removeJob jobIndex => exact other (by simp) rfl
  | removeJobAt key =>
      by_cases here : k = key
      · subst here
        exact .inr (.inl ⟨.inl rfl, by simp [Task.exec]⟩)
      · exact other (by simp) (by simp [Task.exec, here])
  | removeApplication email jobTitle => exact other (by simp) rfl
  | removeApplicationIn email jobTitle jobs => exact other (by simp) rfl
  | removeApplicantAt job applicant =>
      by_cases here : k = job ∧ a = applicant
      · obtain ⟨rfl, rfl⟩ := here
        exact .inr (.inl ⟨.inr rfl, by simp [Task.exec]⟩)
      · exact other (by simp) (by simp [Task.exec, here])
  | declineApplicant applicants tag => exact other (by simp) rfl

/-- The removal of an application is called for by a match. -/
theorem exec_removals {s : JobTree} {job : String}
    (issued : .removeApplicantAt job a ∈ (task.exec E s).2) :
    ∃ email jobTitle jobs, task = .removeApplicationIn email jobTitle jobs ∧
      ∃ k, Matches s email jobTitle k a := by
  cases task with
  | createJob key writes =>
      cases writes with
      | nil => cases issued
      | cons w writes => simp [Task.exec] at issued
  | applyToJob jobID uuid email =>
      simp only [Task.exec] at issued
      split at issued <;> simp at issued
  | fileApplication hashID uuid email => cases issued
  | removeJob jobIndex => simp [Task.exec] at issued
  | removeJobAt key => cases issued
  | removeApplication email jobTitle => simp [Task.exec] at issued
  | removeApplicationIn email jobTitle jobs =>
      obtain ⟨⟨job', a'⟩, path, same⟩ := List.mem_map.mp issued
      cases same
      exact ⟨email, jobTitle, jobs, rfl, (mem_removeApplication path).2⟩
  | removeApplicantAt job' applicant => cases issued
  | declineApplicant applicants tag => simp [Task.exec] at issued

theorem Removed.fired (removed : Removed p k) : Removed (Clients.fired E p task rest) k :=
  removed.imp fun _ member => List.mem_cons_of_mem _ member

theorem Kept.initially (apart : KeysDistinct t) : Kept t (.idle t) := by
  have filed {k a e} (here : Filed t (.idle t) k a e) : t.applicant k a = some e := by
    rcases here with initial | ⟨_, member⟩
    · exact initial
    · cases member
  refine ⟨fun k a e found => .inl found, fun k a e here => .inl (filed here), ?_, ?_, ?_⟩
  · intro k k' a e e' one two
    obtain rfl := apart k k' a e e' (filed one) (filed two)
    exact ⟨rfl, Option.some.inj ((filed one).symm.trans (filed two))⟩
  · rintro k a e ⟨_, _, _, member, _⟩
    cases member
  · intro job a member
    cases member

/-- A callback is run. -/
theorem Kept.fire (kept : Kept t p) (perm : p.tasks.Perm (task :: rest))
    (fresh : ∀ k a email, task = .fileApplication k a email → ∀ k' e', ¬ Filed t p k' a e') :
    Kept t (fired E p task rest) := by
  have firing : task ∈ p.tasks := perm.mem_iff.mpr List.mem_cons_self
  refine ⟨fun k a e found => ?_, fun k a e here => ?_, fun k k' a e e' one two => ?_,
    fun k a e caught => ?_, fun job a member => ?_⟩
  · rcases applicant_exec (E := E) task p.shared k a with ⟨email, rfl, now⟩ | ⟨_, gone⟩ | ⟨_, same⟩
    · cases now.symm.trans found
      exact filed_fired.mpr (.inr rfl)
    · cases gone.symm.trans found
    · exact filed_fired.mpr (.inl (kept.filed k a e (same.symm.trans found)))
  · rcases filed_fired.mp here with before | rfl
    · rcases kept.kept k a e before with present | caught | removed
      · rcases applicant_exec (E := E) task p.shared k a with ⟨email, rfl, _⟩ | ⟨by_, _⟩ | ⟨_, same⟩
        · exact absurd before (fresh k a email rfl k e)
        · rcases by_ with rfl | rfl
          · exact .inr (.inr ⟨p.shared, List.mem_cons_self⟩)
          · -- the removal was called for by a match, and that can only have been this one
            obtain ⟨k', e', caught⟩ := kept.removals k a firing
            obtain ⟨rfl, rfl⟩ := kept.keys k' k a e' e (kept.caught k' a e' caught) before
            exact .inr (.inl caught.fired)
        · exact .inl (same.trans present)
      · exact .inr (.inl caught.fired)
      · exact .inr (.inr removed.fired)
    · exact .inl (by simp [fired, Task.exec])
  · rcases filed_fired.mp one with before | rfl <;> rcases filed_fired.mp two with before' | same
    · exact kept.keys k k' a e e' before before'
    · subst same
      exact absurd before (fresh k' a e' rfl k e)
    · exact absurd before' (fresh k a e rfl k' e')
    · cases same
      exact ⟨rfl, rfl⟩
  · refine filed_fired.mpr (.inl ?_)
    rcases caught_fired.mp caught with before | ⟨jobTitle, jobs, rfl, found⟩
    · exact kept.caught k a e before
    · exact kept.filed k a e found.1
  · rcases List.mem_append.mp member with other | issued
    · obtain ⟨k, e, caught⟩ := kept.removals job a (perm.mem_iff.mpr (List.mem_cons_of_mem _ other))
      exact ⟨k, e, caught.fired⟩
    · obtain ⟨email, jobTitle, jobs, rfl, k, found⟩ := exec_removals issued
      exact ⟨k, email, caught_fired.mpr (.inr ⟨jobTitle, jobs, rfl, found⟩)⟩

/-- The step of the invariant. -/
theorem Kept.step (kept : Kept t p) (starts : StartsAnything p e) (fresh : FilesUnderFreshKeys t p e)
    (stepped : Clients.step E p e = some p') : Kept t p' := by
  rcases Pool.step_cases stepped with ⟨task, rfl, rfl⟩ | ⟨i, task, rest, rfl, at_, perm, rfl⟩
  · refine ⟨kept.filed, kept.kept, kept.keys, kept.caught, fun job a member => ?_⟩
    rcases List.mem_append.mp member with before | new
    · exact kept.removals job a before
    · -- a removal is never what starts
      obtain rfl := List.mem_singleton.mp new
      rcases starts _ rfl with tapped | ⟨key, writes, same, _⟩ | ⟨_, _, _, same, _⟩
      · cases tapped
      · cases same
      · cases same
  · exact kept.fire perm fun k a email same => fresh i k a email rfl (same ▸ at_)

theorem Kept.run {es : List (PoolEvent Task)} (apart : KeysDistinct t)
    (starts : Along (Clients.step E) (fun p e => StartsAnything p e ∧ FilesUnderFreshKeys t p e)
      (.idle t) es) (ran : Theory.run (Clients.step E) (.idle t) es = some p) : Kept t p :=
  invariant_of_along (fun _ _ _ inv here stepped => inv.step here.1 here.2 stepped)
    es _ _ (Kept.initially apart) starts ran

end Kept

/-- **What becomes of an application.**  Let jobs be posted, applied for, declined and
removed in any order, with no key of an application used twice.  Every application in the
tree was there at the start or has been filed since; and one that was is still there,
unless a second read of some call of `RemoveApplication` with its email has found it, under
a job with the call's title, or the job itself has been removed. -/
theorem application_kept {E : Enumeration} {t : JobTree} (apart : KeysDistinct t)
    {es : List (PoolEvent Task)}
    (starts : Along (step E) (fun p e => StartsAnything p e ∧ FilesUnderFreshKeys t p e) (.idle t) es)
    {p : State} (ran : run (step E) (.idle t) es = some p) (k a e : String) :
    (p.shared.applicant k a = some e → Filed t p k a e) ∧
      (Filed t p k a e → ¬ Caught p k a e → ¬ Removed p k → p.shared.applicant k a = some e) := by
  have kept := Kept.run apart starts ran
  refine ⟨kept.filed k a e, fun filed uncaught unremoved => ?_⟩
  exact (kept.kept k a e filed).resolve_right (not_or.mpr ⟨uncaught, unremoved⟩)

theorem annAndEve_freshKeys : Along (step .inserted) (FilesUnderFreshKeys .empty) (.idle .empty)
    annAndEve := by
  intro p₁ stepped
  cases stepped
  refine ⟨fun i k a email same => (by cases same), fun p₂ stepped => ?_⟩
  cases stepped
  refine ⟨fun i k a email same => (by cases same), fun p₃ stepped => ?_⟩
  cases stepped
  refine ⟨fun i k a email same at_ => (by cases same; cases at_), fun p₄ stepped => ?_⟩
  cases stepped
  refine ⟨fun i k a email same at_ => (by cases same; cases at_), fun p₅ stepped => ?_⟩
  cases stepped
  refine ⟨fun i k a email same at_ k' e' filed => ?_, fun p₆ stepped => ?_⟩
  · -- nothing has been filed before
    cases same
    cases at_
    rcases filed with initial | ⟨s, member⟩
    · cases initial
    · rcases List.mem_cons.mp member with same | earlier
      · cases same
      · cases List.mem_singleton.mp earlier
  · cases stepped
    exact ⟨fun i k a email same at_ => (by cases same; cases at_), trivial⟩

/-- Eve's application to Ann's job. -/
theorem application_kept_annAndEve :
    ∃ p, run (step .inserted) (.idle .empty) annAndEve = some p ∧
      (p.shared.applicant "b" "u" = some "eve@x" → Filed .empty p "b" "u" "eve@x") ∧
      (Filed .empty p "b" "u" "eve@x" → ¬ Caught p "b" "u" "eve@x" → ¬ Removed p "b" →
        p.shared.applicant "b" "u" = some "eve@x") :=
  ⟨_, rfl, application_kept (fun _ _ _ _ _ found => by cases found)
    (annAndEve_starts.and annAndEve_freshKeys) rfl "b" "u" "eve@x"⟩

end JobFinder.Clients
