/-
# Model.DataHandeler -- the database operations the view controllers share

`FindUser` scans the profiles for an email and calls its handler for each profile
that holds it, or, if none does, once for the first profile with the word that the
user was not found.

`GetPostedJobs` hands its caller the dictionary of all jobs.  `RemoveApplication`
takes two snapshots: the jobs of the first, and a second one in which it looks
for applications by email and job title.  For each application it finds it
removes the application's key under *every* job of the first snapshot.
-/
import JobFinder.Database.PostedJobs
import JobFinder.Database.Users

namespace JobFinder.Model

open JobFinder.Theory JobFinder.Database

set_option autoImplicit false

/-! ## Profiles -/

/-- `CreateDBUser`, when its write is applied. -/
def createDBUser (uid : String) (userData : Profile) (users : UserTree) : UserTree :=
  users.insert uid userData

/-- The loop of `FindUser`: the handler calls it makes, and `foundUser` after it. -/
def findUserLoop (email : String) : Bool → List User → List (User × Bool) × Bool
  | foundUser, [] => ([], foundUser)
  | foundUser, user :: rest =>
      if user.2.email = email then
        let (calls, foundUser) := findUserLoop email true rest
        ((user, true) :: calls, foundUser)
      else findUserLoop email foundUser rest

/-- `FindUser` when its read is delivered: the calls of its handler. -/
def findUser (E : Enumeration) (email : String) (users : UserTree) : Issued (User × Bool) :=
  let userSnapshot := E.order users
  let (calls, foundUser) := findUserLoop email false userSnapshot
  if foundUser = false then
    .ofExcept (subscript userSnapshot 0) fun first => .done (calls ++ [(first, foundUser)])
  else .done calls

/-- `GetUserAccountType` when its read is delivered: the calls of its completion. -/
def getUserAccountType (E : Enumeration) (email : String) (users : UserTree) : Issued String :=
  (findUser E email users).map fun call => call.1.2.accountType

theorem findUserLoop_eq (email : String) (foundUser : Bool) (l : List User) :
    findUserLoop email foundUser l =
      ((l.filter fun user => user.2.email = email).map fun user => (user, true),
        foundUser || l.any fun user => user.2.email = email) := by
  induction l generalizing foundUser with
  | nil => simp [findUserLoop]
  | cons user rest ih =>
      rw [findUserLoop, ih, ih]
      by_cases same : user.2.email = email <;> simp [same]

/-- The handler calls that report success are those for the profiles with the email. -/
theorem success_findUser (E : Enumeration) (email : String) (users : UserTree) :
    ((findUser E email users).out.filter fun call => call.2).map Prod.fst =
      (E.order users).filter fun user => user.2.email = email := by
  have scanned (l : List User) : (l.map fun user => (user, true)).filter (fun call => call.2) =
      l.map fun user => (user, true) := by simp
  simp only [findUser, findUserLoop_eq, Bool.false_or]
  split
  · rename_i missed
    have none_ : (E.order users).filter (fun user => user.2.email = email) = [] := by
      simpa [List.filter_eq_nil_iff] using missed
    rw [none_]
    cases subscript (E.order users) 0 with
    | error e => rfl
    | ok first => simp [missed]
  · rw [Issued.out_done, scanned, List.map_map]
    exact List.map_id _

/-- If no profile has the email, the handler is told so with the first user, if any. -/
theorem findUser_missed (E : Enumeration) {email : String} {users : UserTree}
    (missed : ¬ users.HasEmail email) :
    findUser E email users =
      .ofExcept (subscript (E.order users) 0) fun first => .done [(first, false)] := by
  have none_ := (UserTree.filter_email_eq_nil E).mpr missed
  have unseen : (E.order users).any (fun user => user.2.email = email) = false := by
    rw [List.any_eq_false]
    exact List.filter_eq_nil_iff.mp none_
  simp only [findUser, findUserLoop_eq, unseen, none_, Bool.or_false]
  rfl

/-- If some profile has the email, the handler is called for each that has it. -/
theorem findUser_found (E : Enumeration) {email : String} {users : UserTree}
    (found : users.HasEmail email) :
    findUser E email users =
      .done (((E.order users).filter fun user => user.2.email = email).map fun user =>
        (user, true)) := by
  obtain ⟨uid, p, stored, same⟩ := found
  have seen : (E.order users).any (fun user => user.2.email = email) = true :=
    List.any_eq_true.mpr ⟨⟨uid, p⟩, E.mem_order.mpr stored, decide_eq_true same⟩
  simp only [findUser, findUserLoop_eq, seen, Bool.or_true]
  rfl

/-- **The one user with an email is found, once.** -/
theorem findUser_stored (E : Enumeration) {users : UserTree} (distinct : users.EmailsDistinct)
    {uid : String} {p : Profile} (stored : users.lookup uid = some p) :
    findUser E p.email users = .done [(⟨uid, p⟩, true)] := by
  rw [findUser_found E ⟨uid, p, stored, rfl⟩, UserTree.filter_email E distinct stored]
  rfl

/-- `FindUser` traps on an empty list of users only. -/
theorem trap_findUser (E : Enumeration) (email : String) (users : UserTree) :
    (findUser E email users).trap = none ↔ users ≠ ∅ := by
  by_cases found : users.HasEmail email
  · rw [findUser_found E found]
    refine iff_of_true rfl ?_
    rintro rfl
    obtain ⟨uid, p, stored, _⟩ := found
    cases stored
  · rw [findUser_missed E found, Ne, ← E.order_eq_nil]
    cases E.order users with
    | nil => exact iff_of_false (by simp [subscript, Issued.ofExcept, Issued.stop]) (· rfl)
    | cons first rest => exact iff_of_true rfl (List.cons_ne_nil first rest)

/-! ## What a lookup is meant to do -/

/-- The handler is called once: with a user of the snapshot that has the email and
`true` if there is one, and with `false` otherwise. -/
def FoundOnce (E : Enumeration) (email : String) (users : UserTree) : Prop :=
  ∃ user success, findUser E email users = .done [(user, success)] ∧
    (users.HasEmail email → user ∈ E.order users ∧ user.2.email = email ∧ success = true) ∧
    (¬ users.HasEmail email → success = false)

/-- Every account type delivered is that of a profile with the email. -/
def OwnAccountType (E : Enumeration) (email : String) (users : UserTree) : Prop :=
  ∀ accountType ∈ (getUserAccountType E email users).out,
    ∃ uid p, users.lookup uid = some p ∧ p.email = email ∧ p.accountType = accountType

section Lookups

variable {E : Enumeration} {email : String} {users : UserTree}

theorem foundOnce_of_found (found : users.HasEmail email) :
    FoundOnce E email users ↔ users.HasEmailOnce email := by
  rw [← UserTree.filter_email_singleton E, FoundOnce, findUser_found E found]
  constructor
  · rintro ⟨user, success, once, _⟩
    obtain ⟨user', only, _⟩ := List.map_eq_singleton_iff.mp (congrArg Issued.out once)
    exact ⟨user', only⟩
  · rintro ⟨user, only⟩
    have member : user ∈ (E.order users).filter fun user => user.2.email = email :=
      only ▸ List.mem_singleton_self user
    obtain ⟨listed, same⟩ := List.mem_filter.mp member
    exact ⟨user, true, by rw [only]; rfl, fun _ => ⟨listed, of_decide_eq_true same, rfl⟩,
      fun missed => absurd found missed⟩

theorem foundOnce_of_missed (missed : ¬ users.HasEmail email) :
    FoundOnce E email users ↔ users ≠ ∅ := by
  rw [← trap_findUser E email, FoundOnce]
  constructor
  · rintro ⟨user, success, once, _⟩
    rw [once]
    rfl
  · intro untrapped
    rw [findUser_missed E missed] at untrapped ⊢
    cases first : subscript (E.order users) 0 with
    | error e => simp [first, Issued.ofExcept, Issued.stop] at untrapped
    | ok user => exact ⟨user, false, rfl, fun found => absurd found missed, fun _ => rfl⟩

theorem ownAccountType_of_found (found : users.HasEmail email) : OwnAccountType E email users := by
  intro accountType delivered
  rw [getUserAccountType, findUser_found E found] at delivered
  simp only [Issued.map_done, Issued.out_done, List.map_map, List.mem_map] at delivered
  obtain ⟨⟨uid, p⟩, member, rfl⟩ := delivered
  obtain ⟨listed, same⟩ := List.mem_filter.mp member
  exact ⟨uid, p, E.mem_order.mp listed, of_decide_eq_true same, rfl⟩

/-- Where nobody has the email, the first user's account type is delivered. -/
theorem ownAccountType_of_missed (missed : ¬ users.HasEmail email) :
    OwnAccountType E email users ↔ users = ∅ := by
  rw [OwnAccountType, getUserAccountType, findUser_missed E missed, ← E.order_eq_nil]
  cases E.order users with
  | nil => exact iff_of_true (fun _ delivered => absurd delivered List.not_mem_nil) rfl
  | cons first rest =>
      refine iff_of_false (fun own => ?_) (List.cons_ne_nil first rest)
      obtain ⟨uid, p, stored, same, _⟩ := own first.2.accountType (List.mem_singleton_self _)
      exact missed ⟨uid, p, stored, same⟩

end Lookups

/-- **When a lookup does what it is meant to.**  `FindUser` calls its handler once and
rightly if and only if one profile has the email, or none has and there are
profiles; `GetUserAccountType` delivers no stranger's account type if and only if
some profile has the email, or there are no profiles.  Both hold together if and only
if exactly one profile has the email. -/
theorem findUser_foundOnce_iff (E : Enumeration) (email : String) (users : UserTree) :
    (FoundOnce E email users ↔
        users.HasEmailOnce email ∨ (¬ users.HasEmail email ∧ users ≠ ∅)) ∧
      (OwnAccountType E email users ↔ users.HasEmail email ∨ users = ∅) ∧
      (FoundOnce E email users ∧ OwnAccountType E email users ↔ users.HasEmailOnce email) := by
  by_cases found : users.HasEmail email
  · have own := ownAccountType_of_found (E := E) found
    rw [foundOnce_of_found found]
    simp [found, own]
  · have notOnce : ¬ users.HasEmailOnce email := fun once => found once.hasEmail
    rw [foundOnce_of_missed found, ownAccountType_of_missed found]
    simp [found, notOnce]

/-- The profile of a poster. -/
def sampleProfile (email : String) : Profile := ⟨"password", email, "Ann", "Hill", "Job Poster"⟩

/-- An empty list of users traps; of two users with the email both are handed out; and
a user whose profile is not there gets the account type of another one. -/
theorem findUser_not_foundOnce :
    ¬ FoundOnce .inserted "ann@x" ∅ ∧
    ¬ FoundOnce .inserted "ann@x"
      ((AList.singleton "u" (sampleProfile "ann@x")).insert "v" (sampleProfile "ann@x")) ∧
    (getUserAccountType .inserted "ann@x" (AList.singleton "u" (sampleProfile "bob@x"))).out =
      ["Job Poster"] ∧
    ¬ OwnAccountType .inserted "ann@x" (AList.singleton "u" (sampleProfile "bob@x")) := by
  refine ⟨?_, ?_, rfl, ?_⟩
  · rintro ⟨user, success, once, _⟩
    cases once
  · rintro ⟨user, success, once, _⟩
    have twice : (findUser .inserted "ann@x"
      ((AList.singleton "u" (sampleProfile "ann@x")).insert "v" (sampleProfile "ann@x"))).out.length =
        2 := rfl
    rw [once] at twice
    cases twice
  · intro own
    obtain ⟨uid, p, stored, same, _⟩ := own "Job Poster" (List.mem_singleton_self _)
    obtain rfl := key_of_singleton stored
    cases stored
    exact absurd same (by decide)

/-! ## Posted jobs -/

/-- `GetPostedJobs`: the arguments its handler is called with. -/
def getPostedJobs (t : JobTree) : Dict String JobRecord × Bool :=
  if t.jobs.entries.length ≠ 0 then (t.jobs, true) else (∅, false)

theorem getPostedJobs_fst (t : JobTree) : (getPostedJobs t).1 = t.jobs := by
  unfold getPostedJobs
  split
  · rfl
  · rename_i none_
    exact AList.ext (List.eq_nil_of_length_eq_zero (not_not.mp none_)).symm

theorem getPostedJobs_snd (t : JobTree) : (getPostedJobs t).2 = true ↔ ∃ k, k ∈ t := by
  have nonempty : t.jobs.entries.length ≠ 0 ↔ ∃ k, k ∈ t := by
    rw [Ne, List.length_eq_zero_iff, JobTree.entries_eq_nil]
    push Not
    rfl
  unfold getPostedJobs
  split
  · rename_i some_
    exact iff_of_true rfl (nonempty.mp some_)
  · rename_i none_
    exact iff_of_false Bool.false_ne_true fun some_ => none_ (nonempty.mpr some_)

/-- The body of the innermost matching test: the removals issued for one
application `k` of the job `n`. -/
def removeMatch (E : Enumeration) (email jobTitle : String) (jobs : Dict String JobRecord)
    (n : JobRecord) (k : Σ _ : String, String) : Issued (String × String) :=
  -- `&&` reads the title only when the emails agree
  if k.2 = email then
    .ofExcept (n.cast .title) fun title =>
      if title = jobTitle then .done ((E.order jobs).map fun i => (i.1, k.1)) else .done []
  else .done []

/-- `RemoveApplication` at its second read: the paths, job key and application
key, whose nodes it removes. -/
def removeApplication (E : Enumeration) (email jobTitle : String) (jobs : Dict String JobRecord)
    (snapshot : JobTree) : Issued (String × String) :=
  if snapshot.jobs.entries = [] then .stop .forcedCast
  else
    .forEach (fun i => .forEach (removeMatch E email jobTitle jobs i.2) (E.order i.2.applicants))
      (E.order snapshot.jobs)

/-- The application at `a` under the job at `k` is one that `RemoveApplication`
looks for. -/
def Matches (t : JobTree) (email jobTitle k a : String) : Prop :=
  t.applicant k a = some email ∧ t.field k .title = some jobTitle

instance (t : JobTree) (email jobTitle k a : String) : Decidable (Matches t email jobTitle k a) :=
  inferInstanceAs (Decidable (_ ∧ _))

section Spec

variable {E : Enumeration} {email jobTitle : String} {jobs : Dict String JobRecord} {t : JobTree}

theorem mem_removeMatch {n : JobRecord} {k : Σ _ : String, String} {j a : String}
    (issued : (j, a) ∈ (removeMatch E email jobTitle jobs n k).out) :
    j ∈ jobs ∧ a = k.1 ∧ k.2 = email ∧ n.fields .title = some jobTitle := by
  unfold removeMatch at issued
  split at issued
  · rename_i sameEmail
    cases title : n.fields .title with
    | none => simp [JobRecord.cast, title, forceCast, Issued.ofExcept, Issued.stop] at issued
    | some v =>
        simp only [JobRecord.cast, title, forceCast, Issued.ofExcept_ok] at issued
        split at issued
        · rename_i sameTitle
          obtain ⟨i, member, same⟩ := List.mem_map.mp issued
          cases same
          exact ⟨E.mem_order_keys.mp (List.mem_map.mpr ⟨i, member, rfl⟩), rfl, sameEmail,
            congrArg some sameTitle⟩
        · cases issued
  · cases issued

theorem removeMatch_of_match {n : JobRecord} {k : Σ _ : String, String} {j : String}
    (here : j ∈ jobs) (sameEmail : k.2 = email) (title : n.fields .title = some jobTitle) :
    (j, k.1) ∈ (removeMatch E email jobTitle jobs n k).out := by
  obtain ⟨i, member, rfl⟩ := List.mem_map.mp (E.mem_order_keys.mpr here)
  simp only [removeMatch, sameEmail, if_true, JobRecord.cast, title, forceCast, Issued.ofExcept_ok]
  exact List.mem_map.mpr ⟨i, member, rfl⟩

/-- The title is only read of a job with an application by that email. -/
theorem trap_removeMatch {n : JobRecord} {k : Σ _ : String, String} :
    (removeMatch E email jobTitle jobs n k).trap = none ↔
      (k.2 = email → (n.fields .title).isSome) := by
  unfold removeMatch
  split
  · rename_i sameEmail
    rw [Issued.trap_ofExcept, Option.isSome_iff_exists]
    constructor
    · rintro ⟨title, cast, _⟩ -
      exact ⟨title, forceCast_ok.mp cast⟩
    · intro titled
      obtain ⟨title, found⟩ := titled sameEmail
      exact ⟨title, forceCast_ok.mpr found, by split_ifs <;> rfl⟩
  · rename_i other
    exact iff_of_true rfl fun sameEmail => absurd sameEmail other

/-- **When the second read traps.**  There must be some job, and a title to every job that
has an application by that email. -/
theorem trap_removeApplication : (removeApplication E email jobTitle jobs t).trap = none ↔
    (∃ k, k ∈ t) ∧ ∀ k a, t.applicant k a = some email → (t.field k .title).isSome := by
  unfold removeApplication
  split
  · rename_i none_
    refine iff_of_false (by simp [Issued.stop]) ?_
    rintro ⟨⟨k, present⟩, _⟩
    exact JobTree.entries_eq_nil.mp none_ k present
  · rename_i some_
    have posted : ∃ k, k ∈ t := by simpa [JobTree.entries_eq_nil] using some_
    simp only [Issued.trap_forEach, trap_removeMatch, and_iff_right posted]
    constructor
    · intro all k a filed
      exact all ⟨k, t.node k⟩ ((JobTree.mem_order E).mpr ⟨JobTree.mem_of_applicant filed, rfl⟩)
        ⟨a, email⟩ (E.mem_order.mpr filed) rfl
    · rintro all ⟨k, n⟩ listed ⟨a, e⟩ filed rfl
      obtain ⟨_, rfl⟩ := (JobTree.mem_order E).mp listed
      exact all k a (E.mem_order.mp filed)

/-- Whatever is removed was found: a key of the first snapshot, and the key of an
application in the second with that email, under a job with that title. -/
theorem mem_removeApplication {j a : String}
    (issued : (j, a) ∈ (removeApplication E email jobTitle jobs t).out) :
    j ∈ jobs ∧ ∃ k, Matches t email jobTitle k a := by
  unfold removeApplication at issued
  split at issued
  · cases issued
  · obtain ⟨⟨k, r⟩, listed, issued⟩ := Issued.mem_forEach issued
    obtain ⟨⟨a', e⟩, filed, issued⟩ := Issued.mem_forEach issued
    obtain ⟨here, rfl, rfl, title⟩ := mem_removeMatch issued
    obtain ⟨_, rfl⟩ := (JobTree.mem_order E).mp listed
    exact ⟨here, k, E.mem_order.mp filed, title⟩

/-- On complete records the search never traps, and issues the removal of every
application it is meant to find, under every job of the first snapshot. -/
theorem removeApplication_complete (complete : t.Complete) (nonempty : ∃ k, k ∈ t) :
    (removeApplication E email jobTitle jobs t).trap = none ∧
      ∀ j ∈ jobs, ∀ k a, Matches t email jobTitle k a →
        (j, a) ∈ (removeApplication E email jobTitle jobs t).out := by
  have some_ : t.jobs.entries ≠ [] := by
    obtain ⟨k, present⟩ := nonempty
    exact fun none_ => JobTree.entries_eq_nil.mp none_ k present
  have inner : ∀ i ∈ E.order t.jobs, ∀ k ∈ E.order i.2.applicants,
      (removeMatch E email jobTitle jobs i.2 k).trap = none := by
    intro i listed k _
    obtain ⟨present, record⟩ := (JobTree.mem_order E).mp listed
    have whole : i.2.Complete := record ▸ complete.record present
    exact trap_removeMatch.mpr fun _ => whole .title
  have outer : ∀ i ∈ E.order t.jobs, (Issued.forEach (removeMatch E email jobTitle jobs i.2)
      (E.order i.2.applicants)).trap = none :=
    fun i listed => Issued.trap_forEach.mpr (inner i listed)
  unfold removeApplication
  rw [if_neg some_, Issued.forEach_ok outer]
  refine ⟨rfl, fun j here k a ⟨filed, title⟩ => ?_⟩
  have listed : ⟨k, t.node k⟩ ∈ E.order t.jobs :=
    (JobTree.mem_order E).mpr ⟨JobTree.mem_of_applicant filed, rfl⟩
  refine List.mem_flatMap.mpr ⟨_, listed, ?_⟩
  rw [Issued.forEach_ok (inner _ listed)]
  refine List.mem_flatMap.mpr ⟨⟨a, email⟩, E.mem_order.mpr filed, ?_⟩
  exact removeMatch_of_match here rfl title

end Spec

/-! ## Answers from the web -/

/-- What a web service answers, as `GetJsonData` reads it: nothing that can be
parsed, a value that is no object, or an object, here with the two members that
are looked at, `none` where such a member is missing or no string. -/
inductive Response where
  | unreadable
  | notAnObject
  | object (latt longt : Option String)
deriving DecidableEq, Repr

/-- `GetJsonData` when the answer arrives: the calls of its completion. -/
def getJsonData : Response → Issued (Option String × Option String)
  | .unreadable => .done []
  | .notAnObject => .stop .forcedCast
  | .object latt longt => .done [(latt, longt)]

end JobFinder.Model
