/-
# Controller.JobListing -- applying to the job of a listing

`JobListingVC.ApplyToJob` reads the posted jobs anew and files the application
under the key that stands, in the enumeration of that new dictionary, at the row
which the listing was opened from.  That row was counted in an enumeration of
another dictionary, keyed by count and filled in the reverse order.

`applyToJob_files_iff` is exact: an application reaches the displayed job, and
nothing else happens, if and only if exactly as many jobs as the row are
enumerated before the displayed job in the dictionary read at the tap, or no job
is posted any more.
-/
import JobFinder.Controller.Explore
import JobFinder.Model.DataHandeler

namespace JobFinder.Controller

open JobFinder.Theory JobFinder.Database JobFinder.Model

set_option autoImplicit false

namespace JobListing

/-- `ApplyToJob` when its read is delivered: the key it files under, if it files. -/
def applyToJob (E : Enumeration) (jobID : ℕ) (snapshot : JobTree) :
    Except Trap (Option String) :=
  if (getPostedJobs snapshot).2 then do
    let entry ← subscript (E.order (getPostedJobs snapshot).1) jobID
    return some entry.1
  else return none

/-- `ApplyToJob` with nothing between its read and its write: the tree it leaves. -/
def applied (E : Enumeration) (jobID : ℕ) (uuid email : String) (t : JobTree) :
    Except Trap JobTree := do
  match ← applyToJob E jobID t with
  | some hashID => return t.addApplicant hashID uuid email
  | none => return t

theorem applyToJob_none {E : Enumeration} {jobID : ℕ} {t : JobTree} (none_ : ∀ k, k ∉ t) :
    applyToJob E jobID t = .ok none := by
  have unlisted : ¬ (getPostedJobs t).2 = true := fun listed => by
    obtain ⟨k, present⟩ := (getPostedJobs_snd t).mp listed
    exact none_ k present
  rw [applyToJob, if_neg unlisted]
  rfl

theorem applyToJob_posted {E : Enumeration} {jobID : ℕ} {t : JobTree} (posted : ∃ k, k ∈ t) :
    applyToJob E jobID t = (subscript (t.keys E) jobID).map some := by
  rw [applyToJob, if_pos ((getPostedJobs_snd t).mpr posted), getPostedJobs_fst]
  simp only [subscript, JobTree.keys, List.getElem?_map]
  cases (E.order t.jobs)[jobID]? <;> rfl

/-- The one difference between the trees is an application under `key`. -/
structure FilesOne (key uuid email : String) (t t' : JobTree) : Prop where
  fields : ∀ k f, t'.field k f = t.field k f
  applicants : ∀ k a, t'.applicant k a =
    if k = key ∧ a = uuid then some email else t.applicant k a
  isNew : t.applicant key uuid = none

/-- What `ApplyToJob` should do: file one application under the displayed job, or
nothing when that job is gone; and not trap. -/
def Files (key uuid email : String) (t : JobTree) (result : Except Trap JobTree) : Prop :=
  ∃ t', result = .ok t' ∧ (key ∈ t → FilesOne key uuid email t t') ∧ (key ∉ t → t.SameLeaves t')

section Spec

variable {E : Enumeration} {jobID : ℕ} {key uuid email : String} {t : JobTree}

theorem filesOne_addApplicant (fresh : ∀ k, t.applicant k uuid = none) :
    FilesOne key uuid email t (t.addApplicant key uuid email) :=
  ⟨fun _ _ => JobTree.field_addApplicant .., fun _ _ => JobTree.applicant_addApplicant .., fresh key⟩

/-- Filing under another key than the displayed one is wrong, whether the displayed
job is still posted or not. -/
theorem not_files_elsewhere (fresh : ∀ k, t.applicant k uuid = none) {k : String}
    (other : k ≠ key) : ¬ Files key uuid email t (.ok (t.addApplicant k uuid email)) := by
  rintro ⟨t', same, present, gone⟩
  cases same
  have filed : (t.addApplicant k uuid email).applicant k uuid = some email := by simp
  by_cases posted : key ∈ t
  · have claimed := (present posted).applicants k uuid
    rw [filed, if_neg fun both => other both.1, fresh] at claimed
    cases claimed
  · have claimed := (gone posted).2 k uuid
    rw [filed, fresh] at claimed
    cases claimed

/-- `ApplyToJob` is right about a displayed key exactly when its row finds it. -/
theorem files_iff (fresh : ∀ k, t.applicant k uuid = none) :
    Files key uuid email t (applied E jobID uuid email t) ↔
      (∀ k, k ∉ t) ∨ (key ∈ t ∧ (t.keys E).idxOf key = jobID) := by
  by_cases posted : ∃ k, k ∈ t
  · have some_ : ¬ ∀ k, k ∉ t := fun none_ => none_ _ posted.choose_spec
    rw [applied, applyToJob_posted posted]
    cases at_row : (t.keys E)[jobID]? with
    | none =>
        have beyond := List.getElem?_eq_none_iff.mp at_row
        have traps : subscript (t.keys E) jobID = .error .indexOutOfRange := by
          simp [subscript, at_row]
        rw [traps]
        refine iff_of_false ?_ ?_
        · rintro ⟨_, same, _⟩
          cases same
        rintro (none_ | ⟨present, here⟩)
        · exact some_ none_
        · have listed : key ∈ t.keys E := JobTree.mem_keys.mpr present
          have bound := List.idxOf_lt_length_of_mem listed
          omega
    | some k =>
        rw [subscript_ok.mpr at_row]
        obtain ⟨bound, at_row'⟩ := List.getElem?_eq_some_iff.mp at_row
        have found : (t.keys E).idxOf k = jobID :=
          at_row' ▸ (JobTree.nodup_keys E t).idxOf_getElem jobID bound
        by_cases same : k = key
        · subst same
          have present : k ∈ t := JobTree.mem_keys.mp (List.mem_of_getElem? at_row)
          exact iff_of_true
            ⟨_, rfl, fun _ => filesOne_addApplicant fresh, fun gone => absurd present gone⟩
            (.inr ⟨present, found⟩)
        · refine iff_of_false (not_files_elsewhere fresh same) ?_
          rintro (none_ | ⟨_, here⟩)
          · exact some_ none_
          · subst here
            rw [List.getElem_idxOf] at at_row'
            exact same at_row'.symm
  · push Not at posted
    rw [applied, applyToJob_none posted]
    exact iff_of_true ⟨t, rfl, fun present => absurd present (posted key),
      fun _ => ⟨fun _ _ => rfl, fun _ _ => rfl⟩⟩ (.inl posted)

end Spec

/-- **Where an application goes.**  The listing made for a row displays one of the
posted jobs, whether its view then loads or not.  Whatever others post and remove before
Apply is tapped, the tap files exactly one application under the displayed job, or none
when that job is gone, if and only if the dictionary read at the tap enumerates exactly as
many jobs as the row before the displayed one, or is empty. -/
theorem applyToJob_files_iff {E : Enumeration} {listed : JobTree} {row : ℕ}
    {listing : JobListing} {changes : List JobTree.Change} {uuid email : String}
    (opened : Explore.popover E (Explore.listed E listed) row = .ok listing)
    (fresh : ∀ k, (listed.changed changes).applicant k uuid = none) :
    ∃ key, Explore.displayed E listed row = some key ∧ Explore.Shows listed key listing ∧
      (Files key uuid email (listed.changed changes)
          (applied E listing.jobID uuid email (listed.changed changes)) ↔
        (∀ k, k ∉ listed.changed changes) ∨
          (key ∈ listed.changed changes ∧
            ((listed.changed changes).keys E).idxOf key = row)) := by
  obtain ⟨key, displayed, shows_, rfl⟩ := Explore.popover_shows opened
  exact ⟨key, displayed, shows_, files_iff fresh⟩

/-- Row 0 of the list displays Ann's job `b`, the last of the two that are enumerated.  Bob
removes his before Apply is tapped. -/
theorem applyToJob_files_iff_bobThenAnn :
    "b" ∈ JobTree.bobThenAnn.changed [.remove "a"] ∧
    ∃ key, Explore.displayed .inserted .bobThenAnn 0 = some key ∧
      Explore.Shows .bobThenAnn key
        ⟨"59.32", "18.07", "Gardener", "Mow the lawn", "20", "ann@x", 0⟩ ∧
      (Files key "u" "eve@x" (JobTree.bobThenAnn.changed [.remove "a"])
          (applied .inserted 0 "u" "eve@x" (JobTree.bobThenAnn.changed [.remove "a"])) ↔
        (∀ k, k ∉ JobTree.bobThenAnn.changed [.remove "a"]) ∨
          (key ∈ JobTree.bobThenAnn.changed [.remove "a"] ∧
            ((JobTree.bobThenAnn.changed [.remove "a"]).keys .inserted).idxOf key = 0)) := by
  refine ⟨by decide +kernel, applyToJob_files_iff rfl fun k => ?_⟩
  have nobody : JobTree.bobThenAnn.applicant k "u" = none := by
    simp only [JobTree.bobThenAnn, JobTree.single, JobTree.applicant_put]
    split_ifs <;> rfl
  show (JobTree.bobThenAnn.removeJob "a").applicant k "u" = none
  rw [JobTree.applicant_removeJob, nobody, ite_self]

/-- Row 0 of the list displays Ann's job `b`.  Nothing changes before the tap, and
yet the application is filed under Bob's job `a`. -/
theorem applyToJob_files_under_another_job :
    Explore.popover .inserted (Explore.listed .inserted .bobThenAnn) 0 =
        .ok ⟨"59.32", "18.07", "Gardener", "Mow the lawn", "20", "ann@x", 0⟩ ∧
      Explore.displayed .inserted .bobThenAnn 0 = some "b" ∧
      ¬ Files "b" "u" "eve@x" .bobThenAnn (applied .inserted 0 "u" "eve@x" .bobThenAnn) := by
  refine ⟨rfl, rfl, ?_⟩
  have elsewhere : applied .inserted 0 "u" "eve@x" .bobThenAnn =
      .ok (JobTree.bobThenAnn.addApplicant "a" "u" "eve@x") := rfl
  rw [elsewhere]
  refine not_files_elsewhere (fun k => ?_) (by decide)
  simp only [JobTree.bobThenAnn, JobTree.single, JobTree.applicant_put]
  split_ifs <;> rfl

end JobListing

end JobFinder.Controller
