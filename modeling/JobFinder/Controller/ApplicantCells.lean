/-
# Controller.ApplicantCells -- whose profile the info button of a cell shows

The collection view of `ShowApplicantsVC` makes cells, and takes them back for reuse
when they leave the screen.  Setting up a cell for a row tags its job label and its
accept and decline buttons with the row.  The info button is never tagged: it keeps
the tag 0 that a new button has.

`ShowUserInfo` goes from the tag of the button to a row, from there to an email, and
through `FindUser` to a profile.  So in every cell it shows the applicant of row 0.
`infoButton_presents_iff` is exact: the profile shown is the one of the applicant the
cell displays if and only if that applicant has the email of row 0.
-/
import JobFinder.Controller.ShowApplicants
import JobFinder.Theory.Run

namespace JobFinder.Controller

open JobFinder.Theory JobFinder.Database JobFinder.Model

set_option autoImplicit false

/-- A new cell: its labels are blank, and its views have tag 0. -/
def ApplicantCell.new : ApplicantCell := ⟨"", "", 0, 0, 0, 0⟩

/-- What a popover of `UserInfoVC` is filled with. -/
structure UserInfo where
  userEmail : String
  userFirstName : String
  userLastName : String
deriving DecidableEq, Repr

/-- The popover for a profile. -/
def UserInfo.ofProfile (p : Profile) : UserInfo := ⟨p.email, p.firstName, p.lastName⟩

namespace ShowApplicants

/-- `ShowUserInfo`, up to and with the delivery of its lookup: the popovers it presents. -/
def showUserInfo (E : Enumeration) (applicants : Counted Application) (tag : ℕ) (users : UserTree) :
    Issued UserInfo :=
  .ofExcept (applicants.row E tag) fun selectedCellData =>
    (findUser E selectedCellData.email users).filterMap fun call =>
      if call.2 then some (.ofProfile call.1.2) else none

section ShowUserInfo

variable {E : Enumeration} {applicants : Counted Application} {tag : ℕ} {data : Application}
  {users : UserTree}

/-- Every popover is filled from a profile with the email of the tagged row. -/
theorem mem_showUserInfo (row : applicants.row E tag = .ok data) {info : UserInfo}
    (presented : info ∈ (showUserInfo E applicants tag users).out) :
    ∃ uid p, users.lookup uid = some p ∧ p.email = data.email ∧ info = .ofProfile p := by
  rw [showUserInfo, row, Issued.ofExcept_ok] at presented
  obtain ⟨⟨⟨uid, p⟩, success⟩, called, shown⟩ := List.mem_filterMap.mp presented
  cases success with
  | false => cases shown
  | true =>
      have member : (⟨uid, p⟩ : User) ∈ (E.order users).filter fun user =>
          user.2.email = data.email := by
        rw [← success_findUser]
        exact List.mem_map.mpr ⟨_, List.mem_filter.mpr ⟨called, rfl⟩, rfl⟩
      obtain ⟨listed, same⟩ := List.mem_filter.mp member
      exact ⟨uid, p, E.mem_order.mp listed, of_decide_eq_true same, (Option.some.inj shown).symm⟩

/-- If there is a profile with the email of the tagged row, a popover is presented. -/
theorem showUserInfo_found (row : applicants.row E tag = .ok data)
    (found : users.HasEmail data.email) :
    showUserInfo E applicants tag users =
      .done (((E.order users).filter fun user => user.2.email = data.email).map fun user =>
        .ofProfile user.2) := by
  rw [showUserInfo, row, Issued.ofExcept_ok, findUser_found E found, Issued.filterMap_done,
    List.filterMap_map]
  exact congrArg Issued.done (congrFun (List.filterMap_eq_map ..) _)

/-- The lookup only traps where nobody has a profile. -/
theorem trap_showUserInfo (row : applicants.row E tag = .ok data) :
    (showUserInfo E applicants tag users).trap = none ↔ ∃ uid, uid ∈ users := by
  rw [showUserInfo, row, Issued.ofExcept_ok]
  show (findUser E data.email users).trap = none ↔ _
  by_cases found : users.HasEmail data.email
  · obtain ⟨uid, p, stored, _⟩ := id found
    rw [findUser_found E found]
    exact iff_of_true rfl ⟨uid, AList.lookup_isSome.mp (by rw [stored]; rfl)⟩
  · rw [findUser_missed E found]
    cases listed : E.order users with
    | nil =>
        refine iff_of_false (by simp [subscript, Issued.ofExcept, Issued.stop]) ?_
        rintro ⟨uid, member⟩
        obtain ⟨p, stored⟩ := Option.isSome_iff_exists.mp (AList.lookup_isSome.mpr member)
        have entry : (⟨uid, p⟩ : User) ∈ E.order users := E.mem_order.mpr stored
        rw [listed] at entry
        cases entry
    | cons user rest =>
        have entry : user ∈ E.order users := by rw [listed]; exact List.mem_cons_self
        refine iff_of_true rfl ⟨user.1, AList.lookup_isSome.mp ?_⟩
        rw [E.mem_order.mp entry]
        rfl

end ShowUserInfo

end ShowApplicants

/-- The collection view: the cells on the screen with their rows, and those kept for
reuse. -/
structure ApplicantsCV where
  onScreen : List (ℕ × ApplicantCell)
  reusable : List ApplicantCell

namespace ApplicantsCV

inductive Event where
  /-- A row comes on the screen, in a new cell or in one of those kept for reuse. -/
  | display (row : ℕ) (reused : Option ℕ)
  /-- A cell leaves the screen and is kept for reuse. -/
  | endDisplaying (cell : ℕ)
deriving DecidableEq, Repr

/-- No cell has been made yet. -/
def empty : ApplicantsCV := ⟨[], []⟩

/-- `dequeueReusableCell`: the cell to set up, and the cells still kept. -/
def dequeue (cv : ApplicantsCV) : Option ℕ → Option (ApplicantCell × List ApplicantCell)
  | none => some (.new, cv.reusable)
  | some i => cv.reusable[i]?.map fun cell => (cell, cv.reusable.eraseIdx i)

/-- One event.  A cell is on the screen once it has been set up without a trap. -/
def step (E : Enumeration) (applicants : Counted Application) (cv : ApplicantsCV) :
    Event → Option ApplicantsCV
  | .display row reused =>
      if row < applicants.count then
        (cv.dequeue reused).bind fun (myCell, reusable) =>
          match ShowApplicants.cellForItemAt E applicants myCell row with
          | .ok cell => some ⟨(row, cell) :: cv.onScreen, reusable⟩
          | .error _ => none
      else none
  | .endDisplaying i =>
      cv.onScreen[i]?.map fun (_, cell) => ⟨cv.onScreen.eraseIdx i, cell :: cv.reusable⟩

/-- The cell displays the row's applicant. -/
def Displays (E : Enumeration) (applicants : Counted Application) (row : ℕ) (cell : ApplicantCell) :
    Prop :=
  ∃ data, applicants.row E row = .ok data ∧ cell.applicantEmail = "Applicant: " ++ data.email

/-- Cells on the screen display the applicant of their row, and no info button has
ever been tagged. -/
structure SetUp (E : Enumeration) (applicants : Counted Application) (cv : ApplicantsCV) : Prop where
  displays : ∀ row cell, (row, cell) ∈ cv.onScreen → Displays E applicants row cell
  onScreen : ∀ row cell, (row, cell) ∈ cv.onScreen → cell.applicantInfoTag = 0
  reusable : ∀ cell ∈ cv.reusable, cell.applicantInfoTag = 0

/-- A tap on the info button of the cell presents the profile of the user with the
email, and nobody else's. -/
def Presents (E : Enumeration) (applicants : Counted Application) (users : UserTree)
    (cell : ApplicantCell) (email : String) : Prop :=
  ∃ presented, ShowApplicants.showUserInfo E applicants cell.applicantInfoTag users = .done presented ∧
    presented ≠ [] ∧ ∀ info ∈ presented,
      ∃ uid p, users.lookup uid = some p ∧ p.email = email ∧ info = .ofProfile p

section Runs

variable {E : Enumeration} {applicants : Counted Application} {cv cv' : ApplicantsCV}

/-- Setting up a cell displays the row's applicant and leaves the info button's tag. -/
theorem setUp_cell {myCell cell : ApplicantCell} {row : ℕ}
    (configured : ShowApplicants.cellForItemAt E applicants myCell row = .ok cell) :
    Displays E applicants row cell ∧ cell.applicantInfoTag = myCell.applicantInfoTag := by
  obtain ⟨data, read, configured⟩ := bind_ok.mp configured
  obtain ⟨title, _, configured⟩ := bind_ok.mp configured
  cases configured
  exact ⟨⟨data, read, rfl⟩, rfl⟩

/-- A cell to be set up has an info button that was never tagged. -/
theorem SetUp.dequeue (setUp : SetUp E applicants cv) {reused : Option ℕ} {myCell : ApplicantCell}
    {rest : List ApplicantCell} (dequeued : cv.dequeue reused = some (myCell, rest)) :
    myCell.applicantInfoTag = 0 ∧ ∀ cell ∈ rest, cell ∈ cv.reusable := by
  cases reused with
  | none =>
      cases dequeued
      exact ⟨rfl, fun _ kept => kept⟩
  | some i =>
      obtain ⟨cell, at_, same⟩ := Option.map_eq_some_iff.mp dequeued
      cases same
      exact ⟨setUp.reusable _ (List.mem_of_getElem? at_), fun _ => List.mem_of_mem_eraseIdx⟩

theorem SetUp.step {e : Event} (setUp : SetUp E applicants cv)
    (stepped : ApplicantsCV.step E applicants cv e = some cv') : SetUp E applicants cv' := by
  cases e with
  | display row reused =>
      simp only [ApplicantsCV.step] at stepped
      split at stepped
      · obtain ⟨⟨myCell, rest⟩, dequeued, stepped⟩ := Option.bind_eq_some_iff.mp stepped
        obtain ⟨untagged, kept⟩ := setUp.dequeue dequeued
        simp only at stepped
        split at stepped
        · rename_i cell configured
          cases stepped
          obtain ⟨displays, tag⟩ := setUp_cell configured
          refine ⟨fun row' cell' member => ?_, fun row' cell' member => ?_, fun cell' member =>
            setUp.reusable cell' (kept cell' member)⟩
          · rcases List.mem_cons.mp member with same | before
            · cases same
              exact displays
            · exact setUp.displays row' cell' before
          · rcases List.mem_cons.mp member with same | before
            · cases same
              exact tag.trans untagged
            · exact setUp.onScreen row' cell' before
        · cases stepped
      · cases stepped
  | endDisplaying i =>
      obtain ⟨⟨row, cell⟩, at_, rfl⟩ := Option.map_eq_some_iff.mp stepped
      refine ⟨fun row' cell' member => setUp.displays row' cell' (List.mem_of_mem_eraseIdx member),
        fun row' cell' member => setUp.onScreen row' cell' (List.mem_of_mem_eraseIdx member),
        fun cell' member => ?_⟩
      rcases List.mem_cons.mp member with rfl | before
      · exact setUp.onScreen row _ (List.mem_of_getElem? at_)
      · exact setUp.reusable cell' before

theorem setUp_empty : SetUp E applicants empty where
  displays _ _ member := absurd member List.not_mem_nil
  onScreen _ _ member := absurd member List.not_mem_nil
  reusable _ member := absurd member List.not_mem_nil

/-- However cells are made, reused and set up, they stay so. -/
theorem setUp_run {es : List Event} (ran : run (ApplicantsCV.step E applicants) empty es = some cv) :
    SetUp E applicants cv :=
  invariant_of_run (fun _ _ _ setUp stepped => setUp.step stepped) setUp_empty ran

/-- The info button of a cell presents a user exactly if row 0 has that user's email. -/
theorem presents_iff {users : UserTree} {cell : ApplicantCell} {email : String}
    (untagged : cell.applicantInfoTag = 0) (found : users.HasEmail email) :
    Presents E applicants users cell email ↔
      ∃ first, applicants.row E 0 = .ok first ∧ first.email = email := by
  unfold Presents
  rw [untagged]
  constructor
  · rintro ⟨presented, shown, some_, all⟩
    obtain ⟨info, member⟩ := List.exists_mem_of_ne_nil presented some_
    cases row : applicants.row E 0 with
    | error e =>
        rw [ShowApplicants.showUserInfo, row] at shown
        cases congrArg Issued.trap shown
    | ok first =>
        refine ⟨first, rfl, ?_⟩
        obtain ⟨_, p, _, same, rfl⟩ := all info member
        have issued : .ofProfile p ∈ (ShowApplicants.showUserInfo E applicants 0 users).out := by
          rw [shown]
          exact member
        obtain ⟨_, p', _, same', filled⟩ := ShowApplicants.mem_showUserInfo row issued
        have sameEmail : p.email = p'.email := congrArg UserInfo.userEmail filled
        rw [← same', ← sameEmail, same]
  · rintro ⟨first, row, rfl⟩
    refine ⟨_, ShowApplicants.showUserInfo_found row found, ?_, fun info member => ?_⟩
    · rw [Ne, List.map_eq_nil_iff, UserTree.filter_email_eq_nil]
      exact not_not.mpr found
    · obtain ⟨⟨uid, p⟩, filtered, rfl⟩ := List.mem_map.mp member
      obtain ⟨listed, same⟩ := List.mem_filter.mp filtered
      exact ⟨uid, p, E.mem_order.mp listed, of_decide_eq_true same, rfl⟩

end Runs

/-- **Whose profile the info button shows.**  However the cells of the list are made,
reused and set up, a cell on the screen displays the applicant of its row; and if there
is a profile with that applicant's email, a tap on the cell's info button presents it,
and nobody else's, if and only if the applicant of row 0 has the same email. -/
theorem infoButton_presents_iff {E : Enumeration} {applicants : Counted Application}
    {es : List Event} {cv : ApplicantsCV}
    (ran : run (step E applicants) empty es = some cv) {row : ℕ} {cell : ApplicantCell}
    (onScreen : (row, cell) ∈ cv.onScreen) :
    ∃ data, applicants.row E row = .ok data ∧ cell.applicantEmail = "Applicant: " ++ data.email ∧
      ∀ users : UserTree, users.HasEmail data.email →
        (Presents E applicants users cell data.email ↔
          ∃ first, applicants.row E 0 = .ok first ∧ first.email = data.email) := by
  have setUp := setUp_run ran
  obtain ⟨data, read, displayed⟩ := setUp.displays row cell onScreen
  exact ⟨data, read, displayed, fun users found =>
    presents_iff (setUp.onScreen row cell onScreen) found⟩

/-- Eve's and Dan's applications for a gardener's job. -/
def eveThenDan : Counted Application :=
  Counted.empty.pushAll [⟨"eve@x", some "Gardener"⟩, ⟨"dan@x", some "Gardener"⟩]

/-- The profiles of Eve and Dan. -/
def eveThenDan.users : UserTree :=
  (AList.singleton "u" ⟨"password", "eve@x", "Eve", "Hill", "Job Searcher"⟩).insert "v"
    ⟨"password", "dan@x", "Dan", "Hill", "Job Searcher"⟩

/-- The cell of row 0 is taken off the screen and reused for row 1. -/
theorem infoButton_presents_iff_second :
    ∃ cv cell, run (step .inserted eveThenDan) empty
        [.display 0 none, .endDisplaying 0, .display 1 (some 0)] = some cv ∧
      (1, cell) ∈ cv.onScreen ∧
      ∃ data, eveThenDan.row .inserted 1 = .ok data ∧
        cell.applicantEmail = "Applicant: " ++ data.email ∧
        ∀ users : UserTree, users.HasEmail data.email →
          (Presents .inserted eveThenDan users cell data.email ↔
            ∃ first, eveThenDan.row .inserted 0 = .ok first ∧ first.email = data.email) :=
  ⟨_, _, rfl, List.mem_singleton_self _, @infoButton_presents_iff .inserted eveThenDan
    [.display 0 none, .endDisplaying 0, .display 1 (some 0)] _ rfl 1 _ (List.mem_singleton_self _)⟩

/-- The cell of row 1 displays Dan, and its info button presents Eve. -/
theorem infoButton_presents_another :
    ∃ cv cell, run (step .inserted eveThenDan) empty [.display 1 none] = some cv ∧
      (1, cell) ∈ cv.onScreen ∧ cell.applicantEmail = "Applicant: dan@x" ∧
      eveThenDan.users.HasEmail "dan@x" ∧
      ShowApplicants.showUserInfo .inserted eveThenDan cell.applicantInfoTag eveThenDan.users =
        .done [⟨"eve@x", "Eve", "Hill"⟩] ∧
      ¬ Presents .inserted eveThenDan eveThenDan.users cell "dan@x" := by
  have found : eveThenDan.users.HasEmail "dan@x" := ⟨"v", _, rfl, rfl⟩
  refine ⟨_, _, rfl, List.mem_singleton_self _, rfl, found, rfl, fun presents => ?_⟩
  obtain ⟨first, row, same⟩ := (presents_iff rfl found).mp presents
  cases row
  exact absurd same (by decide)

end ApplicantsCV

end JobFinder.Controller
