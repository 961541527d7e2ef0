/-
# Controller.ListingView -- a listing, and the load of its view

When its view loads, `JobListingVC` reads the coordinates of its job as numbers and forces
the result: `Double(jobLatt)!`.  The coordinates of a job are the two texts that the
geocoder answered when it was posted.

A numeral may still name no place on earth.  The map of a device may refuse the region
around it, with an exception that nothing catches; it is only asked where the listing zooms
to its job.  `loads_iff` is exact about both.
-/
import JobFinder.Database.PostedJobs
import JobFinder.Theory.Numeral

namespace JobFinder.Controller

open JobFinder.Theory JobFinder.Database

set_option autoImplicit false

/-- What a listing of `JobListingVC` is opened with. -/
structure JobListing where
  jobLatt : String
  jobLongt : String
  jobTitle : String
  jobDescription : String
  jobSalary : String
  jobPoster : String
  jobID : ℕ
deriving DecidableEq, Repr

/-- `CLLocationManager.authorizationStatus()`. -/
inductive AuthorizationStatus where
  | notDetermined
  | restricted
  | denied
  | authorizedAlways
  | authorizedWhenInUse
deriving DecidableEq, Repr

/-- What the device knows of its location: whether it may tell, the distance to a pair of
coordinates, rounded and written out, and whether its map takes a region around them. -/
structure LocationManager where
  locationServicesEnabled : Bool
  authorizationStatus : AuthorizationStatus
  distance : String → String → String
  takesRegion : String → String → Bool

/-- A listing zooms to its job on this device. -/
def LocationManager.Zooms (manager : LocationManager) : Prop :=
  manager.locationServicesEnabled = true ∧
    (manager.authorizationStatus = .authorizedWhenInUse ∨ manager.authorizationStatus = .notDetermined)

/-- A phone that may tell its location while the app is in use. -/
def LocationManager.sample : LocationManager :=
  ⟨true, .authorizedWhenInUse, fun _ _ => "0.0", fun _ _ => true⟩

/-- What a listing shows: its labels, and the coordinates its map is moved to. -/
structure ListingView where
  infoLbl : String
  jobPosterLbl : String
  jobSalaryLbl : String
  jobDistanceLbl : String
  jobDescriptionLbl : String
  region : Option (String × String)
deriving DecidableEq, Repr

namespace JobListing

/-- `Double(_:)`.  The number is only known here by its text. -/
def double (text : String) : Option String := if IsNumeral text then some text else none

/-- `GetDistanceToJob`. -/
def getDistanceToJob (manager : LocationManager) (self : JobListing) : Except Trap String := do
  let latitude ← unwrap (double self.jobLatt)
  let longitude ← unwrap (double self.jobLongt)
  return manager.distance latitude longitude

/-- `ZoomToJobLocation`.  `setRegion` raises on a region that the map does not take. -/
def zoomToJobLocation (manager : LocationManager) (self : JobListing) :
    Except Trap (String × String) := do
  let jobLatitude := double self.jobLatt
  let jobLongitude := double self.jobLongt
  let latitude ← unwrap jobLatitude
  let longitude ← unwrap jobLongitude
  if manager.takesRegion latitude longitude then return (latitude, longitude)
  else throw .uncaughtException

/-- `CheckLocationAuthorization`. -/
def checkLocationAuthorization (manager : LocationManager) (self : JobListing) :
    Except Trap (Option (String × String)) :=
  match manager.authorizationStatus with
  | .authorizedWhenInUse => (zoomToJobLocation manager self).map some
  | .denied => .ok none
  | .notDetermined => (zoomToJobLocation manager self).map some
  | .restricted => .ok none
  | .authorizedAlways => .ok none

/-- `viewDidLoad`. -/
def viewDidLoad (manager : LocationManager) (self : JobListing) : Except Trap ListingView := do
  let distance ← getDistanceToJob manager self
  let region ←
    (if manager.locationServicesEnabled then checkLocationAuthorization manager self else .ok none)
  return {
    infoLbl := self.jobTitle
    jobPosterLbl := "Job Poster: " ++ self.jobPoster
    jobSalaryLbl := "Hourly Rate: " ++ self.jobSalary ++ " $/hr"
    jobDistanceLbl := "Distance To The Job: " ++ distance ++ " km"
    jobDescriptionLbl := "Job Description: " ++ self.jobDescription
    region := region }

/-- The view loads. -/
def Loads (manager : LocationManager) (self : JobListing) : Prop :=
  ∃ view, viewDidLoad manager self = .ok view

/-- The coordinates are numerals, and the map takes them if the listing zooms to them. -/
def Loadable (manager : LocationManager) (latt longt : String) : Prop :=
  IsNumeral latt ∧ IsNumeral longt ∧ (manager.Zooms → manager.takesRegion latt longt = true)

/-- What stands under the two coordinates can be loaded. -/
def LoadableCoordinates (manager : LocationManager) (fields : JobField → Option String) : Prop :=
  ∀ latt longt, fields .latt = some latt → fields .longt = some longt → Loadable manager latt longt

section Views

variable (manager : LocationManager) (self : JobListing)

theorem unwrap_double {text : String} {value : String} :
    unwrap (double text) = .ok value ↔ IsNumeral text ∧ value = text := by
  rw [unwrap_ok, double]
  split_ifs with numeral
  · simp [numeral, eq_comm]
  · simp [numeral]

theorem getDistanceToJob_ok {distance : String} :
    getDistanceToJob manager self = .ok distance ↔
      IsNumeral self.jobLatt ∧ IsNumeral self.jobLongt ∧
        distance = manager.distance self.jobLatt self.jobLongt := by
  simp only [getDistanceToJob, bind_ok, unwrap_double]
  constructor
  · rintro ⟨_, ⟨latt, rfl⟩, _, ⟨longt, rfl⟩, measured⟩
    cases measured
    exact ⟨latt, longt, rfl⟩
  · rintro ⟨latt, longt, rfl⟩
    exact ⟨_, ⟨latt, rfl⟩, _, ⟨longt, rfl⟩, rfl⟩

theorem zoomToJobLocation_ok {region : String × String} :
    zoomToJobLocation manager self = .ok region ↔
      IsNumeral self.jobLatt ∧ IsNumeral self.jobLongt ∧
        manager.takesRegion self.jobLatt self.jobLongt = true ∧
        region = (self.jobLatt, self.jobLongt) := by
  simp only [zoomToJobLocation, bind_ok, unwrap_double]
  constructor
  · rintro ⟨_, ⟨latt, rfl⟩, _, ⟨longt, rfl⟩, moved⟩
    split at moved
    · rename_i takes
      cases moved
      exact ⟨latt, longt, takes, rfl⟩
    · cases moved
  · rintro ⟨latt, longt, takes, rfl⟩
    exact ⟨_, ⟨latt, rfl⟩, _, ⟨longt, rfl⟩, by rw [if_pos takes]; rfl⟩

/-- The authorization is checked without ending the app if the map takes the region where it
is moved to it. -/
theorem checkLocationAuthorization_ok (latt : IsNumeral self.jobLatt) (longt : IsNumeral self.jobLongt) :
    (∃ region, checkLocationAuthorization manager self = .ok region) ↔
      (manager.authorizationStatus = .authorizedWhenInUse ∨
          manager.authorizationStatus = .notDetermined →
        manager.takesRegion self.jobLatt self.jobLongt = true) := by
  have zooms : (∃ region, (zoomToJobLocation manager self).map some = .ok region) ↔
      manager.takesRegion self.jobLatt self.jobLongt = true := by
    cases moved : zoomToJobLocation manager self with
    | ok region => simp [Except.map, ((zoomToJobLocation_ok manager self).mp moved).2.2.1]
    | error trap =>
        refine iff_of_false (by simp [Except.map]) fun takes => ?_
        have ok := (zoomToJobLocation_ok manager self).mpr ⟨latt, longt, takes, rfl⟩
        cases moved.symm.trans ok
  unfold checkLocationAuthorization
  cases manager.authorizationStatus <;> simp [zooms]

/-- **When the view of a listing loads.** -/
theorem loads_iff : Loads manager self ↔ Loadable manager self.jobLatt self.jobLongt := by
  simp only [Loads, Loadable, LocationManager.Zooms, viewDidLoad, bind_ok, getDistanceToJob_ok]
  constructor
  · rintro ⟨view, distance, ⟨latt, longt, rfl⟩, region, checked, _⟩
    refine ⟨latt, longt, fun ⟨enabled, status⟩ => ?_⟩
    rw [if_pos enabled] at checked
    exact (checkLocationAuthorization_ok manager self latt longt).mp ⟨region, checked⟩ status
  · rintro ⟨latt, longt, takes⟩
    by_cases enabled : manager.locationServicesEnabled = true
    · obtain ⟨region, checked⟩ := (checkLocationAuthorization_ok manager self latt longt).mpr
        fun status => takes ⟨enabled, status⟩
      exact ⟨_, _, ⟨latt, longt, rfl⟩, region, by rw [if_pos enabled, checked], rfl⟩
    · exact ⟨_, _, ⟨latt, longt, rfl⟩, none, by rw [if_neg enabled], rfl⟩

/-- A view that does not load ends the app at its coordinates. -/
theorem trapsIn_viewDidLoad {ways : Trap → Prop} (unwrapped : ways .unwrappedNil)
    (raised : ways .uncaughtException) : TrapsIn ways (viewDidLoad manager self) := by
  have zooms : TrapsIn ways (zoomToJobLocation manager self) := by
    refine (trapsIn_unwrap unwrapped _).bind fun _ => (trapsIn_unwrap unwrapped _).bind fun _ => ?_
    split
    · exact trapsIn_ok _
    · intro e failed
      cases failed
      exact raised
  refine TrapsIn.bind ?_ fun _ => TrapsIn.bind ?_ fun _ => trapsIn_ok _
  · exact (trapsIn_unwrap unwrapped _).bind fun _ => (trapsIn_unwrap unwrapped _).bind fun _ =>
      trapsIn_ok _
  · split
    · unfold checkLocationAuthorization
      split
      · exact zooms.map some
      · exact trapsIn_ok _
      · exact zooms.map some
      · exact trapsIn_ok _
      · exact trapsIn_ok _
    · exact trapsIn_ok _

end Views

end JobListing

end JobFinder.Controller
