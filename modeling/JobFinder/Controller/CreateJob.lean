/-
# Controller.CreateJob -- what is written when a job is posted

`CreateJobVC.CreateJob` reads its form three times.  The location is read at the
tap, for the request to the geocoder; all four fields are checked for emptiness
when the answer is handled on the main queue; and the record is filled from the
fields as they are when the lookup of the user is delivered.  The user may edit in
between.

`published_asTapped_iff` is exact: every record written is as it was at the tap, with
coordinates that are the geocoder's answer for its location, if and only if every
delivery of a lookup that finds the user finds the form as it was at the tap, with
no field empty.
-/
import JobFinder.Model.DataHandeler
import JobFinder.Theory.Run

namespace JobFinder.Controller

open JobFinder.Theory JobFinder.Database JobFinder.Model

set_option autoImplicit false

/-- The four text fields of `CreateJobVC`. -/
structure JobForm where
  jobLocationTxt : String
  jobTitleTxt : String
  jobSalaryTxt : String
  jobDescriptionTxt : String
deriving DecidableEq, Repr

/-- A job in Stockholm. -/
def JobForm.sample : JobForm := ⟨"Stockholm", "Gardener", "20", "Mow the lawn"⟩

/-- No field is empty. -/
def JobForm.Filled (form : JobForm) : Prop :=
  form.jobLocationTxt ≠ "" ∧ form.jobTitleTxt ≠ "" ∧ form.jobSalaryTxt ≠ "" ∧
    form.jobDescriptionTxt ≠ ""

instance (form : JobForm) : Decidable form.Filled := inferInstanceAs (Decidable (_ ∧ _))

/-- The world outside: which texts are URLs, and what the service at one answers. -/
structure Web where
  isURL : String → Bool
  answer : String → Response

namespace CreateJob

/-- The URL of the geocoder's answer for a location. -/
def url (jobLocationTxt : String) : String :=
  "https://geocode.xyz/" ++ jobLocationTxt ++ "?json=1"

/-- A tap on Post Job: the URL it requests. -/
def createJob (web : Web) (form : JobForm) : Except Trap String :=
  unwrap (if web.isURL (url form.jobLocationTxt) then some (url form.jobLocationTxt) else none)

/-- `latitude.contains(".000")`. -/
def imprecise (latitude : String) : Bool := ".000".toList <:+: latitude.toList

/-- The writes that publish a job, in order. -/
def jobWrites (latitude longitude : String) (form : JobForm) (email : String) :
    List (JobField × String) :=
  [(.title, form.jobTitleTxt),
    (.latt, latitude),
    (.longt, longitude),
    (.literal, form.jobLocationTxt),
    (.salary, form.jobSalaryTxt),
    (.description, form.jobDescriptionTxt),
    (.jobPoster, email)]

/-- How far a run of `CreateJob` has come. -/
inductive Phase where
  | requested (url : String)
  | answered (latitude longitude : String)
  | lookingUp (latitude longitude : String)
  | finished
  | trapped (trap : Trap)
deriving DecidableEq, Repr

/-- The casts in the completion of `GetJsonData`. -/
def handleJson (val : Option String × Option String) : Except Trap (String × String) := do
  let latitude ← forceCast val.1
  let longitude ← forceCast val.2
  return (latitude, longitude)

/-- The run after the geocoder's answer: it waits for the main queue, or it ends,
because the completion was not called or because something trapped. -/
def handleAnswer (response : Response) : Phase :=
  match (getJsonData response).trap, (getJsonData response).out.map handleJson with
  | some trap, _ => .trapped trap
  | none, .ok (latitude, longitude) :: _ => .answered latitude longitude
  | none, .error trap :: _ => .trapped trap
  | none, [] => .finished

/-- The block on the main queue. -/
def handleOnMain (form : JobForm) (latitude longitude : String) : Phase :=
  if form.Filled then
    if !imprecise latitude then .lookingUp latitude longitude else .finished
  else .finished

/-- The handler calls of `FindUser`, each of which publishes a job, under a key of its
own, if it is told of a success. -/
def handleUsers (E : Enumeration) (me : String) (users : UserTree) (form : JobForm)
    (latitude longitude : String) : List (List (JobField × String)) :=
  ((findUser E me users).out.filter fun call => call.2).map fun _ =>
    jobWrites latitude longitude form me

end CreateJob

/-- A run of `CreateJob`: the form, how far the run has come, and the writes of the
jobs it has published. -/
structure CreateJob where
  form : JobForm
  phase : CreateJob.Phase
  published : List (List (JobField × String))

namespace CreateJob

inductive Event where
  /-- The user changes the form. -/
  | edit (form : JobForm)
  /-- The geocoder's answer arrives. -/
  | answer
  /-- The block on the main queue runs. -/
  | main
  /-- The lookup of the user is delivered. -/
  | deliver (users : UserTree)

/-- The run just after the tap. -/
def tapped (web : Web) (form : JobForm) : CreateJob where
  form := form
  phase :=
    match createJob web form with
    | .ok url => .requested url
    | .error trap => .trapped trap
  published := []

/-- One event. -/
def step (web : Web) (E : Enumeration) (me : String) (s : CreateJob) : Event → Option CreateJob
  | .edit form => some { s with form := form }
  | .answer =>
      match s.phase with
      | .requested url => some { s with phase := handleAnswer (web.answer url) }
      | _ => none
  | .main =>
      match s.phase with
      | .answered latitude longitude =>
          some { s with phase := handleOnMain s.form latitude longitude }
      | _ => none
  | .deliver users =>
      match s.phase with
      | .lookingUp latitude longitude =>
          some { s with
            phase := ((findUser E me users).trap.map .trapped).getD .finished
            published := s.published ++ handleUsers E me users s.form latitude longitude }
      | _ => none

/-- The record has the texts of the form, none of them empty, and the geocoder's
coordinates for its location. -/
structure AsTapped (web : Web) (form : JobForm) (record : JobField → Option String) : Prop where
  title : record .title = some form.jobTitleTxt
  literal : record .literal = some form.jobLocationTxt
  salary : record .salary = some form.jobSalaryTxt
  description : record .description = some form.jobDescriptionTxt
  filled : form.Filled
  located : ∃ literal latitude longitude, record .literal = some literal ∧
    web.answer (url literal) = .object (some latitude) (some longitude) ∧
    record .latt = some latitude ∧ record .longt = some longitude

/-- Every job published so far is as it was at the tap. -/
def AllAsTapped (web : Web) (form : JobForm) (s : CreateJob) : Prop :=
  ∀ writes ∈ s.published, AsTapped web form (JobField.leaves writes)

/-- A lookup that finds the user finds the form as it was at the tap, and filled. -/
def FindsForm (me : String) (form : JobForm) (s : CreateJob) (e : Event) : Prop :=
  ∀ users, e = .deliver users → (∃ uid p, users.lookup uid = some p ∧ p.email = me) →
    s.form = form ∧ form.Filled

/-- What is on its way belongs to the location at the tap. -/
def Located (web : Web) (form : JobForm) (s : CreateJob) : Prop :=
  match s.phase with
  | .requested u => u = url form.jobLocationTxt
  | .answered latitude longitude =>
      web.answer (url form.jobLocationTxt) = .object (some latitude) (some longitude)
  | .lookingUp latitude longitude =>
      web.answer (url form.jobLocationTxt) = .object (some latitude) (some longitude)
  | .finished => True
  | .trapped _ => True

section Runs

variable {web : Web} {E : Enumeration} {me : String} {form : JobForm} {s s' : CreateJob} {e : Event}

theorem located_tapped : Located web form (tapped web form) := by
  unfold Located tapped createJob
  split_ifs with accepted
  · rfl
  · trivial

/-- An answer that is waited on is the one for the location at the tap. -/
theorem located_handleAnswer {response : Response}
    (answered : web.answer (url form.jobLocationTxt) = response) (published) :
    Located web form ⟨s.form, handleAnswer response, published⟩ := by
  cases response with
  | unreadable => trivial
  | notAnObject => trivial
  | object latt longt =>
      cases latt with
      | none => trivial
      | some latitude =>
          cases longt with
          | none => trivial
          | some longitude => exact answered

theorem located_step (located : Located web form s) (stepped : step web E me s e = some s') :
    Located web form s' := by
  cases e with
  | edit form' =>
      cases stepped
      exact located
  | answer =>
      simp only [step] at stepped
      split at stepped
      · rename_i u phase
        cases stepped
        simp only [Located, phase] at located
        exact located_handleAnswer (located ▸ rfl) _
      · cases stepped
  | main =>
      simp only [step] at stepped
      split at stepped
      · rename_i latitude longitude phase
        cases stepped
        simp only [Located, phase] at located
        simp only [Located, handleOnMain]
        split_ifs
        · exact located
        · trivial
        · trivial
      · cases stepped
  | deliver users =>
      simp only [step] at stepped
      split at stepped
      · cases stepped
        cases (findUser E me users).trap with
        | none => trivial
        | some trap => trivial
      · cases stepped

/-- The record published from a form is as it was at the tap exactly if that form
is the one of the tap, and filled. -/
theorem asTapped_jobWrites {latitude longitude : String} {now : JobForm}
    (located : web.answer (url form.jobLocationTxt) = .object (some latitude) (some longitude)) :
    AsTapped web form (JobField.leaves (jobWrites latitude longitude now me)) ↔
      now = form ∧ form.Filled := by
  constructor
  · rintro ⟨title, literal, salary, description, filled, _⟩
    have sameTitle : now.jobTitleTxt = form.jobTitleTxt := Option.some.inj title
    have sameLocation : now.jobLocationTxt = form.jobLocationTxt := Option.some.inj literal
    have sameSalary : now.jobSalaryTxt = form.jobSalaryTxt := Option.some.inj salary
    have sameDescription : now.jobDescriptionTxt = form.jobDescriptionTxt :=
      Option.some.inj description
    refine ⟨?_, filled⟩
    cases now
    cases form
    simp_all
  · rintro ⟨rfl, filled⟩
    exact ⟨rfl, rfl, rfl, rfl, filled, _, latitude, longitude, rfl, located, rfl, rfl⟩

/-- A delivered lookup publishes a job for each profile with the user's email. -/
theorem handleUsers_eq {users : UserTree} {latitude longitude : String} :
    handleUsers E me users form latitude longitude =
      ((E.order users).filter fun user => user.2.email = me).map fun _ =>
        jobWrites latitude longitude form me := by
  rw [← success_findUser E me users, List.map_map]
  rfl

/-- What a delivered lookup publishes: nothing if it does not find the user, and
otherwise the record of the form as it is then. -/
theorem mem_handleUsers {users : UserTree} {latitude longitude : String}
    {writes : List (JobField × String)} :
    writes ∈ handleUsers E me users form latitude longitude ↔
      (∃ uid p, users.lookup uid = some p ∧ p.email = me) ∧
        writes = jobWrites latitude longitude form me := by
  rw [handleUsers_eq, List.mem_map]
  constructor
  · rintro ⟨⟨uid, p⟩, member, rfl⟩
    rw [List.mem_filter, E.mem_order, decide_eq_true_eq] at member
    exact ⟨⟨uid, p, member⟩, rfl⟩
  · rintro ⟨⟨uid, p, stored, same⟩, rfl⟩
    exact ⟨⟨uid, p⟩, List.mem_filter.mpr ⟨E.mem_order.mpr stored, decide_eq_true same⟩, rfl⟩

/-- One event keeps every published job as at the tap exactly if a lookup that it
delivers finds the form so. -/
theorem allAsTapped_step (located : Located web form s) (all : AllAsTapped web form s)
    (stepped : step web E me s e = some s') :
    AllAsTapped web form s' ↔ FindsForm me form s e := by
  cases e with
  | edit form' =>
      cases stepped
      exact iff_of_true all fun _ impossible => nomatch impossible
  | answer =>
      simp only [step] at stepped
      split at stepped
      · cases stepped
        exact iff_of_true all fun _ impossible => nomatch impossible
      · cases stepped
  | main =>
      simp only [step] at stepped
      split at stepped
      · cases stepped
        exact iff_of_true all fun _ impossible => nomatch impossible
      · cases stepped
  | deliver users =>
      simp only [step] at stepped
      split at stepped
      · rename_i latitude longitude phase
        cases stepped
        simp only [Located, phase] at located
        constructor
        · intro all' users' same found
          cases same
          have published : jobWrites latitude longitude s.form me ∈
              handleUsers E me users s.form latitude longitude :=
            mem_handleUsers.mpr ⟨found, rfl⟩
          exact (asTapped_jobWrites located).mp (all' _ (List.mem_append_right _ published))
        · intro finds writes member
          rcases List.mem_append.mp member with before | now
          · exact all writes before
          · obtain ⟨found, rfl⟩ := mem_handleUsers.mp now
            exact (asTapped_jobWrites located).mpr (finds users rfl found)
      · cases stepped

end Runs

/-- **What a posted job says.**  Wherever the user edits the form, every job that is
published has the texts of the form at the tap, none of them empty, and the
geocoder's coordinates for its location, if and only if every delivery of a lookup
that finds the user finds the form as it was at the tap, with no field empty. -/
theorem published_asTapped_iff (web : Web) (E : Enumeration) (me : String) (form : JobForm)
    (es : List Event) :
    Always (step web E me) (AllAsTapped web form) (tapped web form) es ↔
      Along (step web E me) (FindsForm me form) (tapped web form) es :=
  always_iff_along (I := Located web form) (D := fun _ _ => True)
    (fun _ _ _ located _ stepped => located_step located stepped)
    (fun _ _ _ located _ all stepped => allAsTapped_step located all stepped)
    es _ located_tapped (fun _ impossible => nomatch impossible) (along_of_forall fun _ _ _ => trivial)

/-- A service that knows two cities. -/
def twoCities : Web where
  isURL _ := true
  answer u :=
    if u = url "Stockholm" then .object (some "59.32") (some "18.07")
    else .object (some "48.85") (some "2.35")

/-- The profile of the poster. -/
def twoCities.users : UserTree :=
  AList.singleton "u" ⟨"password", "ann@x", "Ann", "Hill", "Job Poster"⟩

/-- The location is edited while the user is looked up, and the job is posted with
the coordinates of another city; or the title is cleared then, and the job is posted
without one. -/
theorem published_not_asTapped :
    (∃ s, run (step twoCities .inserted "ann@x") (tapped twoCities .sample)
        [.answer, .main, .edit { JobForm.sample with jobLocationTxt := "Paris" },
          .deliver twoCities.users] = some s ∧
      ∃ writes ∈ s.published, JobField.leaves writes .literal = some "Paris" ∧
        JobField.leaves writes .latt = some "59.32" ∧
        ¬ AsTapped twoCities .sample (JobField.leaves writes)) ∧
    ∃ s, run (step twoCities .inserted "ann@x") (tapped twoCities .sample)
        [.answer, .main, .edit { JobForm.sample with jobTitleTxt := "" },
          .deliver twoCities.users] = some s ∧
      ∃ writes ∈ s.published, JobField.leaves writes .title = some "" ∧
        ¬ AsTapped twoCities .sample (JobField.leaves writes) := by
  refine ⟨⟨_, rfl, _, List.mem_singleton_self _, rfl, rfl, fun asTapped => ?_⟩,
    ⟨_, rfl, _, List.mem_singleton_self _, rfl, fun asTapped => ?_⟩⟩
  · exact absurd asTapped.literal (by decide)
  · exact absurd asTapped.title (by decide)

end CreateJob

end JobFinder.Controller
