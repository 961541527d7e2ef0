/-
# Database.Users -- the `users` tree of the realtime database

`users` holds one profile per account, under the account's uid.  A profile is
written by a single `updateChildValues` with all five of its leaves, so a node
under `users` is a whole profile or does not exist.
-/
import JobFinder.Theory.Dictionary

namespace JobFinder.Database

open JobFinder.Theory

set_option autoImplicit false

/-- What is stored about the user of an account. -/
structure Profile where
  provider : String
  email : String
  firstName : String
  lastName : String
  accountType : String
deriving DecidableEq, Repr

/-- The tree under `users`: profiles by uid. -/
abbrev UserTree := Dict String Profile

/-- A child of `users`, as a snapshot lists it. -/
abbrev User := Σ _ : String, Profile

namespace UserTree

/-- No two profiles hold the same email. -/
def EmailsDistinct (users : UserTree) : Prop :=
  ∀ u v p q, users.lookup u = some p → users.lookup v = some q → p.email = q.email → u = v

/-- Some profile holds the email. -/
def HasEmail (users : UserTree) (email : String) : Prop :=
  ∃ uid p, users.lookup uid = some p ∧ p.email = email

/-- Exactly one profile holds the email. -/
def HasEmailOnce (users : UserTree) (email : String) : Prop :=
  ∃! uid, ∃ p, users.lookup uid = some p ∧ p.email = email

theorem HasEmailOnce.hasEmail {users : UserTree} {email : String} (once : users.HasEmailOnce email) :
    users.HasEmail email :=
  once.exists

section Snapshots

variable (E : Enumeration) {users : UserTree} {uid email : String} {p : Profile}

/-- The users with an email are that one user, if nobody else has it. -/
theorem filter_email_of_unique (stored : users.lookup uid = some p) (same : p.email = email)
    (unique : ∀ v q, users.lookup v = some q → q.email = email → v = uid) :
    (E.order users).filter (fun user => user.2.email = email) = [⟨uid, p⟩] := by
  have nodup : (E.order users).Nodup := List.Nodup.of_map _ (E.nodup_keys users)
  have perm : ((E.order users).filter fun user => user.2.email = email).Perm [⟨uid, p⟩] := by
    refine (List.perm_ext_iff_of_nodup (nodup.filter _) (List.nodup_singleton _)).mpr ?_
    rintro ⟨v, q⟩
    rw [List.mem_filter, E.mem_order, decide_eq_true_eq, List.mem_singleton]
    constructor
    · rintro ⟨listed, same'⟩
      obtain rfl := unique v q listed same'
      cases listed.symm.trans stored
      rfl
    · intro same'
      cases same'
      exact ⟨stored, same⟩
  exact List.perm_singleton.mp perm

/-- Among distinct emails, the users with the email of a profile are that one user. -/
theorem filter_email (distinct : users.EmailsDistinct) (stored : users.lookup uid = some p) :
    (E.order users).filter (fun user => user.2.email = p.email) = [⟨uid, p⟩] :=
  filter_email_of_unique E stored rfl fun _ _ listed same => distinct _ _ _ _ listed stored same

/-- A snapshot lists no user with the email exactly if no profile holds it. -/
theorem filter_email_eq_nil :
    (E.order users).filter (fun user => user.2.email = email) = [] ↔ ¬ users.HasEmail email := by
  rw [List.filter_eq_nil_iff]
  constructor
  · rintro missed ⟨uid, p, stored, same⟩
    exact missed ⟨uid, p⟩ (E.mem_order.mpr stored) (decide_eq_true same)
  · rintro missed ⟨uid, p⟩ listed same
    exact missed ⟨uid, p, E.mem_order.mp listed, of_decide_eq_true same⟩

/-- A snapshot lists one user with the email exactly if one profile holds it. -/
theorem filter_email_singleton :
    (∃ user, (E.order users).filter (fun user => user.2.email = email) = [user]) ↔
      users.HasEmailOnce email := by
  constructor
  · rintro ⟨⟨uid, p⟩, only⟩
    have member (v : String) (q : Profile) :
        users.lookup v = some q ∧ q.email = email ↔ (⟨v, q⟩ : User) = ⟨uid, p⟩ := by
      rw [← List.mem_singleton (a := (⟨v, q⟩ : User)), ← only, List.mem_filter, E.mem_order,
        decide_eq_true_eq]
    refine ⟨uid, ⟨p, (member uid p).mpr rfl⟩, ?_⟩
    rintro v ⟨q, found⟩
    exact congrArg Sigma.fst ((member v q).mp found)
  · rintro ⟨uid, ⟨p, stored, same⟩, unique⟩
    exact ⟨_, filter_email_of_unique E stored same fun v q listed same' => unique v ⟨q, listed, same'⟩⟩

end Snapshots

end UserTree

end JobFinder.Database
