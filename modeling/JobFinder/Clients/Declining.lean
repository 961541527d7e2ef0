/-
# Clients.Declining -- what declining an applicant removes

A row of `ShowApplicantsVC` was built from one application, but it remembers only
the application's email and the job's title.  `DeclineApplicant` calls
`RemoveApplication` for that pair, once for every application of any job that
matches it, so it removes every application with that email from every job with
that title, whoever posted it.

`decline_declines_iff` is exact: the tree ends up without the row's applicant under
the row's job, and otherwise as it was, if and only if no other job with the same
title holds an application with the same email.
-/
import JobFinder.Clients.Applications

namespace JobFinder.Clients

open JobFinder.Theory JobFinder.Database JobFinder.Model JobFinder.Controller

set_option autoImplicit false

/-- The tree lacks exactly the applications with the email under the one job. -/
def Declined (t : JobTree) (job email : String) (t' : JobTree) : Prop :=
  (∀ k f, t'.field k f = t.field k f) ∧
    ∀ k a, t'.applicant k a =
      if k = job ∧ t.applicant k a = some email then none else t.applicant k a

/-- No other job with the title holds an application with the email. -/
def OnlyUnder (t : JobTree) (job email title : String) : Prop :=
  ∀ k, k ≠ job → t.field k .title = some title → ∀ a, t.applicant k a ≠ some email

/-- A row whose cell can be configured was built from an application under one of
the user's own jobs, and its decline button is tagged with the row. -/
theorem row_of_cell {E : Enumeration} {me : String} {t : JobTree} {row : ℕ}
    {myCell cell : ApplicantCell}
    (configured : ShowApplicants.cellForItemAt E (ShowApplicants.listed E me t) myCell row = .ok cell) :
    ∃ k a email title, ShowApplicants.displayed E me t row = some (k, a) ∧
      Matches t email title k a ∧ t.field k .jobPoster = some me ∧
      (ShowApplicants.listed E me t).row E row = .ok ⟨email, some title⟩ ∧
      cell.declineApplicantTag = row := by
  obtain ⟨data, read, configured⟩ := bind_ok.mp configured
  obtain ⟨title, titled, configured⟩ := bind_ok.mp configured
  cases configured
  obtain ⟨⟨k, a⟩, displayed, member⟩ := Counted.rowKey_of_row read
  obtain ⟨filed, same, own⟩ := ShowApplicants.mem_myApplications member
  have titled' := forceCast_ok.mp titled
  refine ⟨k, a, data.email, title, displayed, ⟨filed, same.symm.trans titled'⟩, own, ?_, rfl⟩
  rw [read, ← titled']

section Decline

variable {E : Enumeration} {t : JobTree} {applicants : Counted Application} {tag : ℕ}
  {email title : String} {fires : List ℕ} {p : State}

/-- The calls that a decline makes. -/
def DeclineCalls (email title : String) : String → String → Prop := fun email' title' =>
  email' = email ∧ title' = title

/-- The decline has read: it has made calls for its row's email and title, at least
one, and no others. -/
theorem fired_decline (complete : t.Complete) (apart : KeysDistinct t)
    (row : applicants.row E tag = .ok ⟨email, some title⟩)
    {k a : String} (found : Matches t email title k a) {i : ℕ}
    (stepped : step E (.start t [.declineApplicant applicants tag]) (.fire i) = some p) :
    Sound t p ∧ CallsOnly (DeclineCalls email title) p ∧ Underway p email title := by
  have initial : Sound t (.start t [.declineApplicant applicants tag]) :=
    .start apart fun task member => by
      obtain rfl := List.mem_singleton.mp member
      rfl
  have legal : ApplicationsOnly t (.start t [.declineApplicant applicants tag]) (.fire i) := by
    refine ⟨nofun, fun j k a email same at_ => ?_⟩
    cases List.mem_singleton.mp (List.mem_of_getElem? at_)
  have sound := initial.step complete ⟨k, JobTree.mem_of_applicant found.1⟩ legal stepped
  rcases Pool.step_cases stepped with ⟨_, impossible, _⟩ | ⟨_, task, rest, _, _, perm, rfl⟩
  · cases impossible
  obtain ⟨rfl, rfl⟩ := List.cons.inj (List.perm_singleton.mp perm.symm)
  refine ⟨sound, ⟨fun task member => ?_, fun k a e s member => ?_, fun e j jobs s member => ?_⟩, ?_⟩
  · obtain ⟨call, made, rfl⟩ := List.mem_map.mp member
    obtain rfl := ShowApplicants.mem_declineApplicant row rfl made
    exact ⟨rfl, rfl⟩
  · cases List.mem_singleton.mp member
  · cases List.mem_singleton.mp member
  · exact .inl (List.mem_map.mpr
      ⟨_, ShowApplicants.declineApplicant_calls complete row rfl found, rfl⟩)

/-- **What a decline ends with**: the tree without any application with the row's
email under any job with the row's title. -/
theorem drained_decline (complete : t.Complete) (apart : KeysDistinct t)
    (row : applicants.row E tag = .ok ⟨email, some title⟩)
    {k a : String} (found : Matches t email title k a)
    (ran : run (step E) (.start t [.declineApplicant applicants tag]) (fires.map .fire) = some p)
    (done : p.tasks = []) :
    (∀ k f, p.shared.field k f = t.field k f) ∧
      ∀ k a e, p.shared.applicant k a = some e ↔
        t.applicant k a = some e ∧ ¬ Matches t email title k a := by
  cases fires with
  | nil =>
      cases ran
      cases done
  | cons i fires =>
      obtain ⟨p₁, stepped, rest⟩ := run_cons_some.mp ran
      obtain ⟨sound, only, underway⟩ := fired_decline complete apart row found stepped
      have someJob : ∃ k, k ∈ t := ⟨k, JobTree.mem_of_applicant found.1⟩
      obtain ⟨sound', only'⟩ : Sound t p ∧ CallsOnly (DeclineCalls email title) p := by
        refine invariant_of_along (I := fun p => Sound t p ∧ CallsOnly (DeclineCalls email title) p)
          (C := fun _ e => ∃ i, e = .fire i) ?_ _ _ _ ⟨sound, only⟩ ?_ rest
        · rintro p₂ _ p₃ ⟨sound, only⟩ ⟨j, rfl⟩ stepped
          have legal : ApplicationsOnly t p₂ (.fire j) :=
            ⟨nofun, fun _ _ _ _ _ at_ => (only.tasks _ (List.mem_of_getElem? at_)).elim⟩
          have spawned : ∀ task : Task, PoolEvent.fire j = .spawn task →
              task.OfCalls (DeclineCalls email title) := nofun
          exact ⟨sound.step complete someJob legal stepped, only.step spawned stepped⟩
        · exact along_of_forall fun e member _ => by
            obtain ⟨j, _, rfl⟩ := List.mem_map.mp member
            exact ⟨j, rfl⟩
      refine ⟨sound'.fields, fun k' a' e => ?_⟩
      rw [only'.drained sound' (fun _ _ called => called.1 ▸ called.2 ▸ underway_run rest (.inl underway))
        done]
      refine and_congr_right fun filed => ⟨fun kept matched => ?_, fun kept title' called titled => ?_⟩
      · exact kept title ⟨Option.some.inj (filed.symm.trans matched.1), rfl⟩ matched.2
      · obtain ⟨rfl, rfl⟩ := called
        exact kept ⟨filed, titled⟩

end Decline

/-- **What declining a row removes.**  In a tree of complete jobs whose application
keys are distinct, a row that can be shown was built from one application to a job of
the user's.  When nobody else writes, tapping its decline button ends, in whatever
order the removals arrive, with a tree that lacks exactly the applications with the
row's email under the row's job, if and only if no other job with the same title
holds an application with that email. -/
theorem decline_declines_iff {E : Enumeration} {me : String} {t : JobTree} (complete : t.Complete)
    (apart : KeysDistinct t) {row : ℕ} {myCell cell : ApplicantCell}
    (configured :
      ShowApplicants.cellForItemAt E (ShowApplicants.listed E me t) myCell row = .ok cell) :
    ∃ k a email title, ShowApplicants.displayed E me t row = some (k, a) ∧
      Matches t email title k a ∧ t.field k .jobPoster = some me ∧
      ∀ (fires : List ℕ) p, run (step E)
        (.start t [.declineApplicant (ShowApplicants.listed E me t) cell.declineApplicantTag])
        (fires.map .fire) = some p →
      (∃ (fires' : List ℕ) (p' : State), run (step E) p (fires'.map .fire) = some p' ∧ p'.tasks = []) ∧
      (p.tasks = [] → (Declined t k email p.shared ↔ OnlyUnder t k email title)) := by
  obtain ⟨k, a, email, title, displayed, found, own, read, tagged⟩ := row_of_cell configured
  refine ⟨k, a, email, title, displayed, found, own, fun fires p ran =>
    ⟨exists_drained E p, fun done => ?_⟩⟩
  rw [tagged] at ran
  obtain ⟨fields, left⟩ := drained_decline complete apart read found ran done
  constructor
  · rintro ⟨_, declined⟩ k' other titled a' filed
    have kept := declined k' a'
    rw [if_neg fun both => other both.1, filed] at kept
    exact ((left k' a' email).mp kept).2 ⟨filed, titled⟩
  · refine fun only => ⟨fields, fun k' a' => Option.ext fun e => ?_⟩
    rw [left]
    split_ifs with here
    · refine iff_of_false ?_ nofun
      rintro ⟨_, kept⟩
      exact kept ⟨here.2, here.1 ▸ found.2⟩
    · refine and_iff_left_of_imp fun filed matched => ?_
      by_cases same : k' = k
      · exact here ⟨same, matched.1⟩
      · exact only k' same matched.2 a' matched.1

/-- Eve has applied for the gardener's job that Ann has posted, and Dan and Eve for the
painter's that Bob has. -/
def gardenerAndPainter : JobTree :=
  appliedFor.put "a"
    { fields := fun f => if f = .title then some "Painter" else (JobRecord.sample "bob@x").fields f
      applicants := (AList.singleton "v" "dan@x").insert "w" "eve@x" }

theorem gardenerAndPainter_complete : gardenerAndPainter.Complete :=
  appliedFor_complete.put _ fun f => by cases f <;> rfl

theorem gardenerAndPainter_keysDistinct : KeysDistinct gardenerAndPainter := by
  have keys : ∀ k a e, gardenerAndPainter.applicant k a = some e →
      (k = "a" ∧ (a = "v" ∨ a = "w")) ∨ (k = "b" ∧ a = "u") := by
    intro k a e found
    rw [gardenerAndPainter, JobTree.applicant_put] at found
    split_ifs at found with here
    · refine .inl ⟨here, ?_⟩
      by_contra other
      push Not at other
      rw [AList.lookup_insert_ne other.2] at found
      exact other.1 (key_of_singleton found)
    · exact .inr (appliedFor_applicant found)
  intro k k' a e e' one other
  rcases keys k a e one with ⟨rfl, rfl | rfl⟩ | ⟨rfl, rfl⟩ <;>
    rcases keys k' _ e' other with ⟨rfl, same⟩ | ⟨rfl, same⟩ <;> first | rfl | simp at same

/-- Ann declines Eve's. -/
theorem decline_declines_iff_gardenerAndPainter :
    ∃ k a email title,
      ShowApplicants.displayed .inserted "ann@x" gardenerAndPainter 0 = some (k, a) ∧
      Matches gardenerAndPainter email title k a ∧
      gardenerAndPainter.field k .jobPoster = some "ann@x" ∧
      ∀ (fires : List ℕ) p, run (step .inserted)
        (.start gardenerAndPainter
          [.declineApplicant (ShowApplicants.listed .inserted "ann@x" gardenerAndPainter) 0])
        (fires.map .fire) = some p →
      (∃ (fires' : List ℕ) (p' : State),
        run (step .inserted) p (fires'.map .fire) = some p' ∧ p'.tasks = []) ∧
      (p.tasks = [] → (Declined gardenerAndPainter k email p.shared ↔
        OnlyUnder gardenerAndPainter k email title)) :=
  @decline_declines_iff .inserted "ann@x" gardenerAndPainter gardenerAndPainter_complete
    gardenerAndPainter_keysDistinct 0 ⟨"", "", 0, 0, 0, 0⟩
    ⟨"Applicant: eve@x", "Job: Gardener", 0, 0, 0, 0⟩ rfl

/-- Ann and Bob have each posted a job for a gardener, and Eve has applied for both. -/
def twoGardeners : JobTree :=
  appliedFor.put "a" { JobRecord.sample "bob@x" with applicants := AList.singleton "v" "eve@x" }

/-- Ann declines Eve, and however that goes on, Eve's application to Bob's job is
removed as well. -/
theorem decline_removes_from_another_poster :
    twoGardeners.Complete ∧ KeysDistinct twoGardeners ∧
    ShowApplicants.displayed .inserted "ann@x" twoGardeners 0 = some ("b", "u") ∧
    twoGardeners.field "a" .jobPoster = some "bob@x" ∧
    twoGardeners.applicant "a" "v" = some "eve@x" ∧
    ∃ (fires : List ℕ) (p : State), run (step .inserted)
        (.start twoGardeners
          [.declineApplicant (ShowApplicants.listed .inserted "ann@x" twoGardeners) 0])
        (fires.map .fire) = some p ∧ p.tasks = [] ∧
      p.shared.applicant "a" "v" = none ∧ ¬ Declined twoGardeners "b" "eve@x" p.shared := by
  have complete : twoGardeners.Complete := appliedFor_complete.put _ fun _ => rfl
  have keys : ∀ k a e, twoGardeners.applicant k a = some e →
      (k = "a" ∧ a = "v") ∨ (k = "b" ∧ a = "u") := by
    intro k a e found
    rw [twoGardeners, JobTree.applicant_put] at found
    split_ifs at found with here
    · exact .inl ⟨here, key_of_singleton found⟩
    · exact .inr (appliedFor_applicant found)
  have apart : KeysDistinct twoGardeners := by
    intro k k' a e e' one other
    rcases keys k a e one with ⟨rfl, rfl⟩ | ⟨rfl, rfl⟩
    · exact ((keys k' _ e' other).resolve_right (by simp)).1.symm
    · exact ((keys k' _ e' other).resolve_left (by simp)).1.symm
  have bobs : twoGardeners.applicant "a" "v" = some "eve@x" := rfl
  have found : Matches twoGardeners "eve@x" "Gardener" "b" "u" := by decide +kernel
  have matched : Matches twoGardeners "eve@x" "Gardener" "a" "v" := by decide +kernel
  obtain ⟨fires, p, ran, done⟩ := exists_drained .inserted (.start twoGardeners
    [.declineApplicant (ShowApplicants.listed .inserted "ann@x" twoGardeners) 0])
  obtain ⟨_, left⟩ := drained_decline complete apart rfl found ran done
  have gone : p.shared.applicant "a" "v" = none := by
    refine Option.eq_none_iff_forall_ne_some.mpr fun e kept => ?_
    exact ((left "a" "v" e).mp kept).2 matched
  refine ⟨complete, apart, rfl, rfl, bobs, fires, p, ran, done, gone, ?_⟩
  rintro ⟨_, declined⟩
  have kept := declined "a" "v"
  rw [gone, bobs] at kept
  exact absurd kept (by decide)

end JobFinder.Clients
