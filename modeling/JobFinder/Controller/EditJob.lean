/-
# Controller.EditJob -- removing a job from its popover

A popover of `EditJobVC` remembers the row it was opened from, and nothing else
that identifies its job.  `RemoveJob` reads all the posted jobs anew and removes
the one that stands at that row *of the enumeration of all jobs*, although the row
was counted in an enumeration of the list of the user's own jobs.

`Popover.step` lets the user tap any number of times while the popover is shown,
lets every read and every removal happen at any later moment, and lets other
clients post and remove jobs in between.  `removeJob_only_displayed` gives the
exact condition under which only the displayed job is ever deleted: at each read,
either no more jobs are posted than the row, or exactly as many jobs as the row
are enumerated before the displayed one.
-/
import JobFinder.Controller.PostedJobs

namespace JobFinder.Controller

open JobFinder.Theory JobFinder.Database

set_option autoImplicit false

namespace EditJob

/-- The loop of `RemoveJob`, from the count `n` on. -/
def removeJobLoop (jobIndex : ℕ) : ℕ → List (Σ _ : String, JobRecord) → List String
  | _, [] => []
  | n, i :: rest =>
      if n = jobIndex then i.1 :: removeJobLoop jobIndex (n + 1) rest
      else removeJobLoop jobIndex (n + 1) rest

/-- `RemoveJob` when its read is delivered: the keys whose nodes it removes. -/
def removeJob (E : Enumeration) (jobIndex : ℕ) (snapshot : JobTree) : Issued String :=
  if snapshot.jobs.entries = [] then .stop .forcedCast
  else .done (removeJobLoop jobIndex 0 (E.order snapshot.jobs))

theorem removeJobLoop_eq (jobIndex n : ℕ) (l : List (Σ _ : String, JobRecord)) :
    removeJobLoop jobIndex n l =
      if jobIndex < n then [] else ((l.map Sigma.fst)[jobIndex - n]?).toList := by
  induction l generalizing n with
  | nil => simp [removeJobLoop]
  | cons i rest ih =>
      rw [removeJobLoop, ih]
      rcases lt_trichotomy n jobIndex with below | rfl | above
      · obtain ⟨d, rfl⟩ := Nat.exists_eq_add_of_lt below
        have shift : n + d + 1 - n = d + 1 := by omega
        have shift' : n + d + 1 - (n + 1) = d := by omega
        rw [if_neg below.ne, if_neg (by omega), if_neg (by omega), shift, shift']
        simp
      · simp
      · simp [above.ne', above, Nat.lt_succ_of_lt above]

/-- `RemoveJob` removes what stands at its row among all the jobs, if anything. -/
theorem removeJob_out (E : Enumeration) (jobIndex : ℕ) (t : JobTree) :
    (removeJob E jobIndex t).out = ((t.keys E)[jobIndex]?).toList := by
  unfold removeJob
  split
  · rename_i none_
    have noKeys : t.keys E = [] := by
      rw [JobTree.keys, List.map_eq_nil_iff, ← List.length_eq_zero_iff, E.length_order, none_]
      rfl
    simp [Issued.stop, noKeys]
  · simp [removeJobLoop_eq, JobTree.keys]

theorem untrapped_of_out {E : Enumeration} {jobIndex : ℕ} {t : JobTree} {k : String}
    (issued : k ∈ (removeJob E jobIndex t).out) : (removeJob E jobIndex t).trap = none := by
  unfold removeJob at issued ⊢
  split_ifs at issued ⊢
  · cases issued
  · rfl

end EditJob

/-! ## The popover while others post and remove -/

/-- The remote tree, whether the popover is shown, the taps whose read is
outstanding, and the removals issued and not yet performed. -/
structure Popover where
  postedJobs : JobTree
  shown : Bool
  reads : ℕ
  removals : List String

namespace Popover

inductive Event where
  | tap
  | deliver
  | remove (removal : ℕ)
  | other (change : JobTree.Change)

/-- The popover just opened on a tree. -/
def opened (t : JobTree) : Popover := ⟨t, true, 0, []⟩

/-- One event.  A read that finds no job at all traps, and the program ends; one
that finds a job at the row issues its removal and takes the popover away. -/
def step (E : Enumeration) (jobIndex : ℕ) (s : Popover) : Event → Option Popover
  | .tap => if s.shown then some { s with reads := s.reads + 1 } else none
  | .deliver =>
      if s.reads = 0 then none
      else
        let issued := EditJob.removeJob E jobIndex s.postedJobs
        if issued.trap = none then
          some { s with
            shown := s.shown && issued.out.isEmpty
            reads := s.reads - 1
            removals := s.removals ++ issued.out }
        else some { s with shown := false, reads := 0 }
  | .remove i =>
      s.removals[i]?.map fun k =>
        { s with postedJobs := s.postedJobs.removeJob k, removals := s.removals.eraseIdx i }
  | .other c => some { s with postedJobs := s.postedJobs.change c }

/-- The jobs that a removal event deletes. -/
def deletes (s : Popover) : Event → List String
  | .remove i => s.removals[i]?.toList.filter fun k => k ∈ s.postedJobs
  | _ => []

/-- The event deletes the displayed job, or none. -/
def OnlyDisplayed (displayed : String) (s : Popover) (e : Event) : Prop :=
  ∀ k ∈ s.deletes e, k = displayed

/-- The event deletes no job of another user. -/
def OnlyOwn (me : String) (s : Popover) (e : Event) : Prop :=
  ∀ k ∈ s.deletes e, s.postedJobs.field k .jobPoster = some me

instance (displayed : String) (s : Popover) (e : Event) : Decidable (OnlyDisplayed displayed s e) :=
  inferInstanceAs (Decidable (∀ k ∈ _, _))

instance (me : String) (s : Popover) (e : Event) : Decidable (OnlyOwn me s e) :=
  inferInstanceAs (Decidable (∀ k ∈ _, _))

/-- The row counts the jobs enumerated before the displayed one, or all of them. -/
def Aligned (E : Enumeration) (jobIndex : ℕ) (displayed : String) (t : JobTree) : Prop :=
  (t.keys E).length ≤ jobIndex ∨ (t.keys E).idxOf displayed = jobIndex

/-- Every read of the popover finds the row aligned. -/
def ReadsAligned (E : Enumeration) (jobIndex : ℕ) (displayed : String) (s : Popover) (e : Event) :
    Prop :=
  e = .deliver → Aligned E jobIndex displayed s.postedJobs

instance (E : Enumeration) (jobIndex : ℕ) (displayed : String) (t : JobTree) :
    Decidable (Aligned E jobIndex displayed t) := inferInstanceAs (Decidable (_ ∨ _))

instance (E : Enumeration) (jobIndex : ℕ) (displayed : String) (s : Popover) :
    (e : Event) → Decidable (ReadsAligned E jobIndex displayed s e)
  | .tap => isTrue nofun
  | .deliver =>
      decidable_of_iff (Aligned E jobIndex displayed s.postedJobs)
        ⟨fun aligned _ => aligned, fun aligned => aligned rfl⟩
  | .remove _ => isTrue nofun
  | .other _ => isTrue nofun

/-- Jobs are posted under fresh keys, so never under the key of the displayed job. -/
def FreshKeys (displayed : String) (_ : Popover) (e : Event) : Prop :=
  ∀ k f v, e = .other (.write k f v) → k ≠ displayed

/-! ## What the popover deletes -/

section Deletes

variable {E : Enumeration} {jobIndex : ℕ} {me displayed : String}

/-- What a read issues at an aligned row: the displayed job or nothing. -/
theorem issued_aligned {t : JobTree} (aligned : Aligned E jobIndex displayed t) :
    ∀ k ∈ (EditJob.removeJob E jobIndex t).out, k = displayed := by
  intro k issued
  rw [EditJob.removeJob_out, Option.mem_toList] at issued
  obtain ⟨bound, at_row⟩ := List.getElem?_eq_some_iff.mp issued
  rcases aligned with beyond | here
  · omega
  · subst here
    rw [← at_row, List.getElem_idxOf]

/-- What a read issues at a row that is not aligned: another job, which is posted. -/
theorem issued_misaligned {t : JobTree} (misaligned : ¬ Aligned E jobIndex displayed t) :
    ∃ k, (EditJob.removeJob E jobIndex t).out = [k] ∧ k ∈ t ∧ k ≠ displayed := by
  unfold Aligned at misaligned
  push Not at misaligned
  obtain ⟨bound, elsewhere⟩ := misaligned
  have at_row := List.getElem?_eq_getElem bound
  refine ⟨(t.keys E)[jobIndex], ?_, ?_, ?_⟩
  · rw [EditJob.removeJob_out, at_row]
    rfl
  · exact JobTree.mem_keys.mp (List.getElem_mem bound)
  · intro same
    have nodup : (t.keys E).Nodup := JobTree.nodup_keys E t
    exact elsewhere (same ▸ nodup.idxOf_getElem jobIndex bound)

/-- Only the displayed job is up for removal, and while it is posted it is the
user's. -/
structure Safe (me displayed : String) (s : Popover) : Prop where
  removals : ∀ k ∈ s.removals, k = displayed
  poster : displayed ∈ s.postedJobs → s.postedJobs.field displayed .jobPoster = some me

theorem Safe.opened {t : JobTree} (own : t.field displayed .jobPoster = some me) :
    Safe me displayed (.opened t) :=
  ⟨by simp [Popover.opened], fun _ => own⟩

theorem Safe.removeJob {s : Popover} (safe : Safe me displayed s) (k : String)
    (removals : List String) (fewer : ∀ k' ∈ removals, k' ∈ s.removals) :
    Safe me displayed { s with postedJobs := s.postedJobs.removeJob k, removals := removals } := by
  refine ⟨fun k' member => safe.removals k' (fewer k' member), fun present => ?_⟩
  obtain ⟨other, present'⟩ := JobTree.mem_removeJob.mp present
  simpa [other] using safe.poster present'

/-- One event with fresh keys and an aligned read. -/
theorem Safe.step {s s' : Popover} {e : Event} (safe : Safe me displayed s)
    (fresh : FreshKeys displayed s e) (aligned : ReadsAligned E jobIndex displayed s e)
    (stepped : Popover.step E jobIndex s e = some s') :
    (OnlyDisplayed displayed s e ∧ OnlyOwn me s e) ∧ Safe me displayed s' := by
  cases e with
  | tap =>
      simp only [Popover.step] at stepped
      split at stepped
      · cases stepped
        exact ⟨by simp [OnlyDisplayed, OnlyOwn, deletes], safe.removals, safe.poster⟩
      · cases stepped
  | deliver =>
      refine ⟨by simp [OnlyDisplayed, OnlyOwn, deletes], ?_⟩
      simp only [Popover.step] at stepped
      split_ifs at stepped
      · cases stepped
        refine ⟨fun k member => ?_, safe.poster⟩
        rcases List.mem_append.mp member with before | issued
        · exact safe.removals k before
        · exact issued_aligned (aligned rfl) k issued
      · cases stepped
        exact ⟨safe.removals, safe.poster⟩
  | remove i =>
      obtain ⟨k, pending, rfl⟩ := Option.map_eq_some_iff.mp stepped
      have same : k = displayed := safe.removals k (List.mem_of_getElem? pending)
      have deleted : ∀ k' ∈ s.deletes (.remove i), k' = displayed ∧ k' ∈ s.postedJobs := by
        intro k' member
        simp only [deletes, pending, Option.toList_some, List.mem_filter, List.mem_singleton,
          decide_eq_true_eq] at member
        exact ⟨member.1.trans same, member.2⟩
      refine ⟨⟨fun k' member => (deleted k' member).1, fun k' member => ?_⟩, ?_⟩
      · obtain ⟨rfl, present⟩ := deleted k' member
        exact safe.poster present
      · exact safe.removeJob k _ fun k' member => List.mem_of_mem_eraseIdx member
  | other c =>
      cases stepped
      refine ⟨by simp [OnlyDisplayed, OnlyOwn, deletes], ?_⟩
      cases c with
      | write k f v =>
          refine ⟨safe.removals, fun present => ?_⟩
          have other : displayed ≠ k := (fresh k f v rfl).symm
          have present' := (JobTree.mem_setField.mp present).resolve_left other
          simpa [JobTree.change, other] using safe.poster present'
      | remove k => exact safe.removeJob k _ fun _ member => member

/-- A read followed at once by the removal it issues deletes another job exactly
when the row is not aligned. -/
theorem aligned_iff {s : Popover} (outstanding : s.reads ≠ 0) :
    Aligned E jobIndex displayed s.postedJobs ↔
      Along (Popover.step E jobIndex) (OnlyDisplayed displayed) s
        [.deliver, .remove s.removals.length] := by
  constructor
  · intro aligned s₁ delivered
    refine ⟨by simp [OnlyDisplayed, deletes], fun s₂ removed => ⟨?_, trivial⟩⟩
    intro k member
    simp only [deletes, List.mem_filter, Option.mem_toList] at member
    have pending := member.1
    simp only [Popover.step, if_neg outstanding] at delivered
    split_ifs at delivered
    · cases delivered
      rw [List.getElem?_append_right le_rfl] at pending
      exact issued_aligned aligned k (List.mem_of_getElem? pending)
    · cases delivered
      rw [List.getElem?_eq_none le_rfl] at pending
      cases pending
  · intro along
    by_contra misaligned
    obtain ⟨k, issued, present, other⟩ := issued_misaligned misaligned
    have untrapped := EditJob.untrapped_of_out (E := E) (k := k) (by rw [issued]; simp)
    have delivered : Popover.step E jobIndex s .deliver = some { s with
        shown := s.shown && (EditJob.removeJob E jobIndex s.postedJobs).out.isEmpty
        reads := s.reads - 1
        removals := s.removals ++ (EditJob.removeJob E jobIndex s.postedJobs).out } := by
      simp only [Popover.step, if_neg outstanding, if_pos untrapped]
    obtain ⟨_, rest⟩ := along _ delivered
    have pending : (s.removals ++ (EditJob.removeJob E jobIndex s.postedJobs).out)[
        s.removals.length]? = some k := by
      rw [issued, List.getElem?_append_right le_rfl]
      simp
    obtain ⟨only, _⟩ := rest _ (by simp only [Popover.step, pending]; rfl)
    exact other (only k (by simp [deletes, pending, present]))

end Deletes

/-- **What `RemoveJob` deletes.**  A row opens a popover that displays one of the
user's own jobs.  However often Remove is tapped, and whatever others post and
remove meanwhile, nothing but the displayed job is ever deleted as long as every
read finds the row aligned with it; and a read that does not find it so deletes
another job when its removal is performed. -/
theorem removeJob_only_displayed {E : Enumeration} {me : String} {t : JobTree} {row : ℕ}
    {popover : EditJob} (loaded : (PostedJobs.ownJobs E me t).trap = none)
    (opened : PostedJobs.selected E me t row = .ok popover) :
    ∃ key, PostedJobs.displayed E me t row = some key ∧ PostedJobs.Shows me t key popover ∧
      (∀ es, Along (step E popover.jobIndex) (FreshKeys key) (.opened t) es →
        Along (step E popover.jobIndex) (ReadsAligned E row key) (.opened t) es →
        Along (step E popover.jobIndex) (fun s e => OnlyDisplayed key s e ∧ OnlyOwn me s e)
          (.opened t) es) ∧
      (∀ es s, run (step E popover.jobIndex) (.opened t) es = some s → s.reads ≠ 0 →
        (Aligned E row key s.postedJobs ↔
          Along (step E popover.jobIndex) (OnlyDisplayed key) s
            [.deliver, .remove s.removals.length])) := by
  obtain ⟨key, displayed, shows_, rfl⟩ := PostedJobs.selected_shows loaded opened
  refine ⟨key, displayed, shows_, fun es fresh aligned => ?_, fun _ _ _ => aligned_iff⟩
  have keep (s : Popover) (e : Event) (s' : Popover) (safe : Safe me key s)
      (both : FreshKeys key s e ∧ ReadsAligned E popover.jobIndex key s e)
      (stepped : step E popover.jobIndex s e = some s') := safe.step both.1 both.2 stepped
  exact along_of_along keep es _ (Safe.opened shows_.poster) (fresh.and aligned)

/-- Ann's job is enumerated before Bob's, so that the one tap on Remove is aligned. -/
def annThenBob : JobTree := (JobTree.single "b" (.sample "ann@x")).put "a" (.sample "bob@x")

theorem removeJob_only_displayed_annThenBob :
    Along (step .inserted 0) (ReadsAligned .inserted 0 "b") (.opened annThenBob)
        [.tap, .deliver, .remove 0] ∧
      ∃ key, PostedJobs.displayed .inserted "ann@x" annThenBob 0 = some key ∧
      PostedJobs.Shows "ann@x" annThenBob key ⟨"Gardener", "Stockholm", "20 $/hr", "Mow the lawn", 0⟩ ∧
      (∀ es, Along (step .inserted 0) (FreshKeys key) (.opened annThenBob) es →
        Along (step .inserted 0) (ReadsAligned .inserted 0 key) (.opened annThenBob) es →
        Along (step .inserted 0) (fun s e => OnlyDisplayed key s e ∧ OnlyOwn "ann@x" s e)
          (.opened annThenBob) es) ∧
      (∀ es s, run (step .inserted 0) (.opened annThenBob) es = some s → s.reads ≠ 0 →
        (Aligned .inserted 0 key s.postedJobs ↔
          Along (step .inserted 0) (OnlyDisplayed key) s [.deliver, .remove s.removals.length])) :=
  ⟨by decide +kernel, removeJob_only_displayed rfl rfl⟩

/-- Ann's only row displays her job `b`; Bob's job `a` is enumerated before it, and
one tap on Remove deletes `a`. -/
theorem removeJob_deletes_another_users_job :
    PostedJobs.selected .inserted "ann@x" .bobThenAnn 0 =
        .ok ⟨"Gardener", "Stockholm", "20 $/hr", "Mow the lawn", 0⟩ ∧
      PostedJobs.displayed .inserted "ann@x" .bobThenAnn 0 = some "b" ∧
      ¬ Along (step .inserted 0) (OnlyDisplayed "b")
        (.opened .bobThenAnn) [.tap, .deliver, .remove 0] ∧
      ¬ Along (step .inserted 0) (OnlyOwn "ann@x")
        (.opened .bobThenAnn) [.tap, .deliver, .remove 0] := by
  refine ⟨rfl, rfl, ?_, ?_⟩ <;> decide +kernel

end Popover

end JobFinder.Controller
