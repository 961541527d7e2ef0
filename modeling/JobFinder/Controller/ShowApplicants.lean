/-
# Controller.ShowApplicants -- the applications to the signed-in poster's jobs

`ShowApplicantsVC.SetMyPostedJobs` walks the poster's jobs and, for each, its
applications, and appends for every application its email and the job's title.
Neither the key of the job nor the key of the application is kept.

`DeclineApplicant` reads all the posted jobs and, for every application of *any*
job whose email and job title are those of the row, calls `RemoveApplication` with
that email and title once.
-/
import JobFinder.Model.DataHandeler
import Mathlib.Order.Interval.Set.Nat

namespace JobFinder.Controller

open JobFinder.Theory JobFinder.Database JobFinder.Model

set_option autoImplicit false

/-- What a row of the list holds: the application's email, and the title of the job
it is filed under, if that job has one. -/
structure Application where
  email : String
  title : Option String
deriving DecidableEq, Repr

/-- The labels of an applicant cell and the tags of its views. -/
structure ApplicantCell where
  applicantEmail : String
  applicantJob : String
  applicantJobTag : ℕ
  applicantInfoTag : ℕ
  acceptApplicantTag : ℕ
  declineApplicantTag : ℕ
deriving DecidableEq, Repr

namespace ShowApplicants

/-- The applications under one job, with the keys that the list drops. -/
def applicationsOf (E : Enumeration) (i : Σ _ : String, JobRecord) :
    List (Σ _ : String × String, Application) :=
  (E.order i.2.applicants).map fun n => ⟨(i.1, n.1), ⟨n.2, i.2.fields .title⟩⟩

/-- The body of the outer loop of `SetMyPostedJobs`. -/
def ownApplications (E : Enumeration) (me : String) (i : Σ _ : String, JobRecord) :
    Issued (Σ _ : String × String, Application) :=
  .ofExcept (i.2.cast .jobPoster) fun poster =>
    if poster = me ∧ i.2.applicants.entries ≠ [] then .done (applicationsOf E i) else .done []

/-- The entries a delivered read of `SetMyPostedJobs` appends. -/
def myApplications (E : Enumeration) (me : String) (snapshot : JobTree) :
    Issued (Σ _ : String × String, Application) :=
  .forEach (ownApplications E me) (E.order snapshot.jobs)

/-- `SetMyPostedJobs` when its read is delivered. -/
def setMyPostedJobs (E : Enumeration) (me : String) (snapshot : JobTree)
    (applicants : Counted Application) : Counted Application :=
  applicants.pushAll ((myApplications E me snapshot).out.map Sigma.snd)

/-- `collectionView(_:cellForItemAt:)`, reconfiguring a dequeued cell.  The tag of
its info button is left as it was. -/
def cellForItemAt (E : Enumeration) (applicants : Counted Application) (myCell : ApplicantCell)
    (row : ℕ) : Except Trap ApplicantCell := do
  let data ← applicants.row E row
  let title ← forceCast data.title
  return { myCell with
    applicantEmail := "Applicant: " ++ data.email
    applicantJob := "Job: " ++ title
    applicantJobTag := row
    acceptApplicantTag := row
    declineApplicantTag := row }

/-- The body of the outer loop of `DeclineApplicant`: the calls of
`RemoveApplication` made for one job. -/
def declineIn (E : Enumeration) (selectedApplicant selectedTitle : String)
    (i : Σ _ : String, JobRecord) : Issued (String × String) :=
  if i.2.applicants.entries = [] then .done []
  else
    .ofExcept (i.2.cast .title) fun title =>
      .done (((E.order i.2.applicants).filter
        fun n => selectedApplicant = n.2 ∧ title = selectedTitle).map
          fun _ => (selectedApplicant, selectedTitle))

/-- `DeclineApplicant` when its read is delivered: the arguments of the calls of
`RemoveApplication` it makes. -/
def declineApplicant (E : Enumeration) (applicants : Counted Application) (tag : ℕ)
    (snapshot : JobTree) : Issued (String × String) :=
  if (getPostedJobs snapshot).2 then
    .ofExcept (applicants.row E tag) fun selectedCellData =>
      .ofExcept (forceCast selectedCellData.title) fun selectedTitle =>
        .forEach (declineIn E selectedCellData.email selectedTitle)
          (E.order (getPostedJobs snapshot).1)
  else .done []

/-! ## The list of applications -/

/-- The list after a single load. -/
def listed (E : Enumeration) (me : String) (t : JobTree) : Counted Application :=
  setMyPostedJobs E me t .empty

/-- The keys, of job and application, that the row was built from. -/
def displayed (E : Enumeration) (me : String) (t : JobTree) (row : ℕ) : Option (String × String) :=
  Counted.rowKey E (myApplications E me t).out row

section Lists

variable {E : Enumeration} {me : String} {t : JobTree}

theorem mem_applicationsOf {i : Σ _ : String, JobRecord} {k a : String} {data : Application}
    (member : ⟨(k, a), data⟩ ∈ applicationsOf E i) :
    k = i.1 ∧ i.2.applicants.lookup a = some data.email ∧ data.title = i.2.fields .title := by
  obtain ⟨n, filed, same⟩ := List.mem_map.mp member
  cases same
  exact ⟨rfl, E.mem_order.mp filed, rfl⟩

/-- Every row was built from an application under one of the user's own jobs. -/
theorem mem_myApplications {k a : String} {data : Application}
    (member : ⟨(k, a), data⟩ ∈ (myApplications E me t).out) :
    t.applicant k a = some data.email ∧ data.title = t.field k .title ∧
      t.field k .jobPoster = some me := by
  obtain ⟨i, listed, member⟩ := Issued.mem_forEach member
  obtain ⟨_, record⟩ := (JobTree.mem_order E).mp listed
  unfold ownApplications at member
  cases poster : i.2.fields .jobPoster with
  | none => simp [JobRecord.cast, poster, forceCast, Issued.ofExcept, Issued.stop] at member
  | some v =>
      simp only [JobRecord.cast, poster, forceCast, Issued.ofExcept_ok] at member
      split at member
      · rename_i own
        obtain ⟨rfl, filed, titled⟩ := mem_applicationsOf member
        rw [JobTree.applicant, JobTree.field, JobTree.field, record]
        exact ⟨filed, titled, poster.trans (congrArg some own.1)⟩
      · cases member

theorem myApplications_complete (complete : t.Complete) : (myApplications E me t).trap = none := by
  refine Issued.trap_forEach.mpr fun i listed => ?_
  obtain ⟨present, record⟩ := (JobTree.mem_order E).mp listed
  have whole : i.2.Complete := record ▸ complete.record present
  obtain ⟨poster, _, cast⟩ := whole.cast_ok .jobPoster
  unfold ownApplications
  rw [cast, Issued.ofExcept_ok]
  split_ifs <;> rfl

/-- The applications under one job that a load appends, of a complete record. -/
theorem ownApplications_complete {i : Σ _ : String, JobRecord} (whole : i.2.Complete) :
    ownApplications E me i =
      .done (if i.2.fields .jobPoster = some me then applicationsOf E i else []) := by
  obtain ⟨poster, stored, cast⟩ := whole.cast_ok .jobPoster
  rw [ownApplications, cast, Issued.ofExcept_ok]
  by_cases own : poster = me
  · by_cases none_ : i.2.applicants.entries = []
    · have listsNone : E.order i.2.applicants = [] := E.order_eq_nil.mpr (AList.ext none_)
      simp [stored, own, none_, applicationsOf, listsNone]
    · simp [stored, own, none_]
  · simp [stored, own]

/-- What a load of complete jobs appends. -/
theorem myApplications_eq (complete : t.Complete) :
    (myApplications E me t).out = (E.order t.jobs).flatMap fun i =>
      if i.2.fields .jobPoster = some me then applicationsOf E i else [] := by
  have body (i : Σ _ : String, JobRecord) (listed : i ∈ E.order t.jobs) : ownApplications E me i =
      .done (if i.2.fields .jobPoster = some me then applicationsOf E i else []) := by
    obtain ⟨present, record⟩ := (JobTree.mem_order E).mp listed
    have whole : i.2.Complete := record ▸ complete.record present
    exact ownApplications_complete whole
  have untrapped : ∀ i ∈ E.order t.jobs, (ownApplications E me i).trap = none :=
    fun i listed => by rw [body i listed, Issued.trap_done]
  rw [myApplications, Issued.forEach_ok untrapped, Issued.out_done]
  exact List.flatMap_congr fun i listed => by rw [body i listed, Issued.out_done]

/-- No application is appended twice. -/
theorem nodup_myApplications (E : Enumeration) (me : String) {t : JobTree} (complete : t.Complete) :
    ((myApplications E me t).out.map Sigma.fst).Nodup := by
  rw [myApplications_eq complete, List.map_flatMap, List.nodup_flatMap]
  have keys (i : Σ _ : String, JobRecord) :
      (applicationsOf E i).map Sigma.fst =
        ((E.order i.2.applicants).map Sigma.fst).map fun a => (i.1, a) := by
    simp [applicationsOf]
  constructor
  · intro i _
    split_ifs
    · rw [keys]
      exact (E.nodup_keys i.2.applicants).map fun a b same => congrArg Prod.snd same
    · exact List.nodup_nil
  · have apart : (E.order t.jobs).Pairwise fun i j => i.1 ≠ j.1 :=
      List.pairwise_map.mp (E.nodup_keys t.jobs)
    refine apart.imp fun {i j} other => ?_
    -- the keys under different jobs differ in the job
    have job {i : Σ _ : String, JobRecord} {entry : String × String}
        (member : entry ∈ (if i.2.fields .jobPoster = some me then applicationsOf E i else []).map
          Sigma.fst) : entry.1 = i.1 := by
      split_ifs at member
      · rw [keys] at member
        obtain ⟨a, _, rfl⟩ := List.mem_map.mp member
        rfl
      · cases member
    exact fun entry one two => other ((job one).symm.trans (job two))

/-- Every application under one of the user's own jobs is appended, with that job's title. -/
theorem mem_myApplications_of_own (complete : t.Complete) {k a email title : String}
    (own : t.field k .jobPoster = some me) (filed : Matches t email title k a) :
    ⟨(k, a), ⟨email, some title⟩⟩ ∈ (myApplications E me t).out := by
  have listed : ⟨k, t.node k⟩ ∈ E.order t.jobs :=
    (JobTree.mem_order E).mpr ⟨JobTree.mem_of_applicant filed.1, rfl⟩
  have member : ⟨(k, a), ⟨email, some title⟩⟩ ∈ applicationsOf E ⟨k, t.node k⟩ :=
    List.mem_map.mpr ⟨⟨a, email⟩, E.mem_order.mpr filed.1, by rw [← filed.2]; rfl⟩
  rw [myApplications_eq complete]
  refine List.mem_flatMap.mpr ⟨_, listed, ?_⟩
  have mine : (t.node k).fields .jobPoster = some me := own
  rwa [if_pos mine]

/-! ## Rows and applications -/

/-- The applications under the user's own jobs, by their keys. -/
def ownEntries (me : String) (t : JobTree) : Set (String × String) :=
  {entry | t.field entry.1 .jobPoster = some me ∧ ∃ email, t.applicant entry.1 entry.2 = some email}

/-- The rows of a list stand for the applications under the user's own jobs, each for
one and none for the same, and each shows its application's email and job title. -/
structure RowsStandFor (E : Enumeration) (me : String) (t : JobTree) (applicants : Counted Application)
    (entry : ℕ → String × String) : Prop where
  bijOn : Set.BijOn entry (Set.Iio applicants.count) (ownEntries me t)
  row : ∀ r < applicants.count, ∃ email title, applicants.row E r = .ok ⟨email, some title⟩ ∧
    Matches t email title (entry r).1 (entry r).2

theorem RowsStandFor.count {applicants : Counted Application} {entry : ℕ → String × String}
    (rows : RowsStandFor E me t applicants entry) : applicants.count = (ownEntries me t).ncard := by
  rw [← rows.bijOn.image_eq, rows.bijOn.injOn.ncard_image, Set.ncard_Iio_nat]

theorem mem_keys_myApplications (complete : t.Complete) {entry : String × String} :
    entry ∈ (myApplications E me t).out.map Sigma.fst ↔ entry ∈ ownEntries me t := by
  constructor
  · intro member
    obtain ⟨⟨_, data⟩, appended, rfl⟩ := List.mem_map.mp member
    obtain ⟨filed, _, own⟩ := mem_myApplications appended
    exact ⟨own, data.email, filed⟩
  · rintro ⟨own, email, filed⟩
    obtain ⟨title, titled⟩ := complete.field (JobTree.mem_of_applicant filed) .title
    exact List.mem_map.mpr ⟨_, mem_myApplications_of_own complete own ⟨filed, titled⟩, rfl⟩

/-- After a single load, each row stands for the application it was built from. -/
theorem rowsStandFor_listed (E : Enumeration) (me : String) {t : JobTree} (complete : t.Complete) :
    RowsStandFor E me t (listed E me t) fun r => (displayed E me t r).getD ("", "") := by
  have count : (listed E me t).count = (myApplications E me t).out.length :=
    Counted.count_ofEntries _
  have keys : {k | k ∈ (myApplications E me t).out.map Sigma.fst} = ownEntries me t :=
    Set.ext fun _ => mem_keys_myApplications complete
  have nodup := nodup_myApplications E me complete
  constructor
  case bijOn =>
    rw [count, ← keys]
    exact Counted.rowKey_bijOn E nodup ("", "")
  case row =>
    intro r below
    rw [count] at below
    obtain ⟨⟨k, a⟩, ⟨email, title⟩, shown, read, member⟩ := Counted.rowKey_lt E below
    obtain ⟨filed, titled, own⟩ := mem_myApplications member
    obtain ⟨title', stored⟩ := complete.field (JobTree.mem_of_applicant filed) .title
    have same : title = some title' := titled.trans stored
    refine ⟨email, title', same ▸ read, ?_⟩
    have displays : displayed E me t r = some (k, a) := shown
    rw [displays]
    exact ⟨filed, stored⟩

end Lists

/-- **What a load lists.**  A load of complete jobs does not trap, and leaves a
dictionary whose keys are the numbers below the number of applications under the
user's own jobs.  The row of each such number shows one of these applications, with
the title of the job it is filed under, and this is a bijection. -/
theorem setMyPostedJobs_rows {E : Enumeration} {me : String} {t : JobTree} (complete : t.Complete) :
    (myApplications E me t).trap = none ∧
      (∀ i, i ∈ (listed E me t).dict ↔ i < (ownEntries me t).ncard) ∧
      ∃ entry : ℕ → String × String,
        Set.BijOn entry (Set.Iio (ownEntries me t).ncard) (ownEntries me t) ∧
        ∀ r < (ownEntries me t).ncard, displayed E me t r = some (entry r) ∧
          ∃ email title, (listed E me t).row E r = .ok ⟨email, some title⟩ ∧
            Matches t email title (entry r).1 (entry r).2 := by
  have rows := rowsStandFor_listed E me complete
  have count := rows.count
  refine ⟨myApplications_complete complete, fun i => ?_, _, count ▸ rows.bijOn, fun r below => ?_⟩
  · rw [← count]
    exact (listed E me t).dense i
  · rw [← count] at below
    refine ⟨?_, rows.row r below⟩
    have loaded : r < (myApplications E me t).out.length := Counted.count_ofEntries _ ▸ below
    obtain ⟨k, _, shown, _⟩ := Counted.rowKey_lt E loaded
    have displays : displayed E me t r = some k := shown
    rw [displays]
    rfl

/-- Ann's job with two applications, and Bob's with one. -/
def threeApplications : JobTree :=
  (JobTree.single "a" { JobRecord.sample "bob@x" with applicants := AList.singleton "w" "eve@x" }).put
    "b" { JobRecord.sample "ann@x" with
      applicants := (AList.singleton "u" "eve@x").insert "v" "dan@x" }

theorem threeApplications_complete : threeApplications.Complete :=
  (JobTree.complete_empty.put _ fun _ => rfl).put _ fun _ => rfl

/-- The two applications to Ann's job are listed, each in a row of its own. -/
theorem setMyPostedJobs_rows_two :
    (listed .inserted "ann@x" threeApplications).count = 2 ∧
      ∃ entry : ℕ → String × String,
        Set.BijOn entry (Set.Iio (ownEntries "ann@x" threeApplications).ncard)
          (ownEntries "ann@x" threeApplications) := by
  obtain ⟨_, _, entry, rows, _⟩ :=
    @setMyPostedJobs_rows .inserted "ann@x" threeApplications threeApplications_complete
  exact ⟨rfl, entry, rows⟩

/-! ## The calls of a decline -/

section Decline

variable {E : Enumeration} {t : JobTree} {applicants : Counted Application} {tag : ℕ}
  {data : Application} {title : String}

/-- The title is only read of a job with applications. -/
theorem trap_declineIn {email : String} {i : Σ _ : String, JobRecord} :
    (declineIn E email title i).trap = none ↔
      (i.2.applicants.entries ≠ [] → (i.2.fields .title).isSome) := by
  unfold declineIn
  split
  · rename_i none_
    exact iff_of_true rfl fun some_ => absurd none_ some_
  · rename_i some_
    simp [Issued.trap_ofExcept, JobRecord.cast, forceCast_ok, some_, Option.isSome_iff_exists]

/-- **When the read of a decline traps.**  If there is some job, the row must be there, with
a title, and every job that has an application must have one. -/
theorem trap_declineApplicant : (declineApplicant E applicants tag t).trap = none ↔
    ((∃ k, k ∈ t) → (∃ data title, applicants.row E tag = .ok data ∧ data.title = some title) ∧
      ∀ k a email, t.applicant k a = some email → (t.field k .title).isSome) := by
  unfold declineApplicant
  split
  · rename_i posted
    simp only [Issued.trap_ofExcept, Issued.trap_forEach, trap_declineIn, getPostedJobs_fst,
      forceCast_ok, (getPostedJobs_snd t).mp posted, true_implies]
    constructor
    · rintro ⟨data, row, title, titled, all⟩
      refine ⟨⟨data, title, row, titled⟩, fun k a email filed => ?_⟩
      refine all ⟨k, t.node k⟩ ((JobTree.mem_order E).mpr ⟨JobTree.mem_of_applicant filed, rfl⟩) ?_
      intro none_
      have member : ⟨a, email⟩ ∈ (t.node k).applicants.entries := AList.mem_lookup_iff.mp filed
      rw [none_] at member
      cases member
    · rintro ⟨⟨data, title, row, titled⟩, all⟩
      refine ⟨data, row, title, titled, fun ⟨k, n⟩ listed some_ => ?_⟩
      obtain ⟨_, rfl⟩ := (JobTree.mem_order E).mp listed
      obtain ⟨⟨a, email⟩, filed⟩ := List.exists_mem_of_ne_nil _ some_
      exact all k a email (AList.mem_lookup_iff.mpr filed)
  · rename_i none_
    exact iff_of_true rfl fun posted => absurd ((getPostedJobs_snd t).mpr posted) none_

/-- Every call is made with the email and the title of the row. -/
theorem mem_declineApplicant (row : applicants.row E tag = .ok data) (titled : data.title = some title)
    {call : String × String} (made : call ∈ (declineApplicant E applicants tag t).out) :
    call = (data.email, title) := by
  unfold declineApplicant at made
  split_ifs at made
  · rw [row, Issued.ofExcept_ok, titled, forceCast, Issued.ofExcept_ok] at made
    obtain ⟨i, _, made⟩ := Issued.mem_forEach made
    unfold declineIn at made
    split_ifs at made
    · cases made
    · cases cast : i.2.cast .title with
      | error e => simp [cast, Issued.ofExcept, Issued.stop] at made
      | ok title' =>
          rw [cast, Issued.ofExcept_ok, Issued.out_done] at made
          obtain ⟨_, _, same⟩ := List.mem_map.mp made
          exact same.symm
  · cases made

/-- A row whose application is in the tree makes at least one call. -/
theorem declineApplicant_calls (complete : t.Complete) (row : applicants.row E tag = .ok data)
    (titled : data.title = some title) {k a : String} (found : Matches t data.email title k a) :
    (data.email, title) ∈ (declineApplicant E applicants tag t).out := by
  have present := JobTree.mem_of_applicant found.1
  have posted : (getPostedJobs t).2 = true := (getPostedJobs_snd t).mpr ⟨k, present⟩
  have ok : ∀ i ∈ E.order t.jobs, (declineIn E data.email title i).trap = none := by
    intro i listed
    obtain ⟨present, record⟩ := (JobTree.mem_order E).mp listed
    exact trap_declineIn.mpr fun _ => (record ▸ complete.record present) .title
  rw [declineApplicant, if_pos posted, row, Issued.ofExcept_ok, titled, forceCast,
    Issued.ofExcept_ok, getPostedJobs_fst, Issued.forEach_ok ok, Issued.out_done]
  refine List.mem_flatMap.mpr ⟨⟨k, t.node k⟩, (JobTree.mem_order E).mpr ⟨present, rfl⟩, ?_⟩
  have filed : ⟨a, data.email⟩ ∈ E.order (t.node k).applicants := E.mem_order.mpr found.1
  have some_ : (t.node k).applicants.entries ≠ [] := by
    rw [← List.length_pos_iff, ← E.length_order]
    exact List.length_pos_of_mem filed
  have cast : (t.node k).cast .title = .ok title := forceCast_ok.mpr found.2
  rw [declineIn, if_neg some_, cast, Issued.ofExcept_ok, Issued.out_done]
  exact List.mem_map.mpr ⟨_, List.mem_filter.mpr ⟨filed, by simp⟩, rfl⟩

end Decline

end ShowApplicants

end JobFinder.Controller
