/-
# Database.PostedJobs -- the `postedJobs` tree of the realtime database

`postedJobs` holds one record per job, under a key.  A record is written one leaf
at a time, so any of its leaves may be missing; its applications are kept under
`applicants`, each under a key of its own and holding the applicant's email.

The database has no empty nodes.  A node exists exactly when some leaf below it
does: writing a leaf creates the nodes above it, and removing the last leaf of a
node removes the node.  A `JobTree` carries that as a field (`live`), and every
operation goes through `JobTree.put`, which keeps it.

Two readings determine a tree: `field` and `applicant`, the leaves.  Each
operation has one lemma for each of them, and no later proof unfolds a tree.

A `String` stands for a Swift string up to the equivalence that Swift's `==`
decides.
-/
import JobFinder.Theory.Dictionary
import JobFinder.Theory.Trap
import Mathlib.Data.Fintype.Pi

namespace JobFinder.Database

open JobFinder.Theory

set_option autoImplicit false

/-- The leaves of a job record other than its applications. -/
inductive JobField where
  | title
  | latt
  | longt
  | literal
  | salary
  | description
  | jobPoster
deriving DecidableEq, Repr

namespace JobField

/-- The leaves in the order in which a job is published. -/
def published : List JobField := [.title, .latt, .longt, .literal, .salary, .description, .jobPoster]

theorem mem_published (f : JobField) : f ∈ published := by cases f <;> decide

instance : Fintype JobField := .ofList published mem_published

/-- The leaves that a sequence of writes leaves behind. -/
def leaves (writes : List (JobField × String)) : JobField → Option String :=
  writes.foldl (fun fields w => Function.update fields w.1 (some w.2)) fun _ => none

@[simp] theorem leaves_nil (f : JobField) : leaves [] f = none := rfl

theorem leaves_concat (writes : List (JobField × String)) (w : JobField × String) (f : JobField) :
    leaves (writes ++ [w]) f = if f = w.1 then some w.2 else leaves writes f := by
  rw [leaves, List.foldl_append, List.foldl_cons, List.foldl_nil, Function.update_apply]
  rfl

/-- The leaves there are those that were written. -/
theorem leaves_isSome {writes : List (JobField × String)} {f : JobField} :
    (leaves writes f).isSome ↔ f ∈ writes.map Prod.fst := by
  induction writes using List.reverseRecOn with
  | nil => simp
  | append_singleton writes w ih =>
      rw [leaves_concat, List.map_append, List.mem_append, ← ih]
      by_cases same : f = w.1 <;> simp [same]

end JobField

/-- A job record, or as much of one as has been written. -/
structure JobRecord where
  fields : JobField → Option String
  applicants : Dict String String

namespace JobRecord

/-- Two records are equal when their leaves are; unlike the derived instance, this
one evaluates. -/
instance : DecidableEq JobRecord := fun r s =>
  decidable_of_iff
    ((∀ f ∈ JobField.published, r.fields f = s.fields f) ∧
      r.applicants.entries = s.applicants.entries) <| by
    constructor
    · rintro ⟨fields, applicants⟩
      exact JobRecord.mk.injEq .. ▸
        ⟨funext fun f => fields f f.mem_published, AList.ext applicants⟩
    · rintro rfl
      exact ⟨fun _ _ => rfl, rfl⟩

/-- No leaf at all: the node does not exist. -/
def blank : JobRecord := ⟨fun _ => none, ∅⟩

/-- Every leaf that the readers cast is there. -/
def Complete (r : JobRecord) : Prop := ∀ f, (r.fields f).isSome

instance (r : JobRecord) : Decidable r.Complete := inferInstanceAs (Decidable (∀ _, _))

/-- `data["title"] as! String` and its siblings. -/
def cast (r : JobRecord) (f : JobField) : Except Trap String := forceCast (r.fields f)

/-- The record holding exactly the given text under every field. -/
def full (texts : JobField → String) (applicants : Dict String String) : JobRecord :=
  ⟨fun f => some (texts f), applicants⟩

theorem full_complete (texts : JobField → String) (applicants : Dict String String) :
    (full texts applicants).Complete := fun _ => rfl

/-- A complete record, posted by `poster` and without applications. -/
def sample (poster : String) : JobRecord :=
  full (fun
    | .title => "Gardener"
    | .latt => "59.32"
    | .longt => "18.07"
    | .literal => "Stockholm"
    | .salary => "20"
    | .description => "Mow the lawn"
    | .jobPoster => poster) ∅

theorem Complete.cast_ok {r : JobRecord} (complete : r.Complete) (f : JobField) :
    ∃ v, r.fields f = some v ∧ r.cast f = .ok v := by
  obtain ⟨v, found⟩ := Option.isSome_iff_exists.mp (complete f)
  exact ⟨v, found, forceCast_ok.mpr found⟩

/-- These fields are there. -/
def Has (r : JobRecord) (fields : List JobField) : Prop := ∀ f ∈ fields, (r.fields f).isSome

theorem Complete.has {r : JobRecord} (complete : r.Complete) (fields : List JobField) : r.Has fields :=
  fun f _ => complete f

theorem Has.cast_ok {r : JobRecord} {fields : List JobField} (has : r.Has fields) {f : JobField}
    (member : f ∈ fields) : ∃ v, r.cast f = .ok v := by
  obtain ⟨v, found⟩ := Option.isSome_iff_exists.mp (has f member)
  exact ⟨v, forceCast_ok.mpr found⟩

end JobRecord

/-- The tree under `postedJobs`: job records by key, none of them empty. -/
structure JobTree where
  jobs : Dict String JobRecord
  live : ∀ k, jobs.lookup k ≠ some .blank

namespace JobTree

/-- No job is posted. -/
def empty : JobTree := ⟨∅, fun k => by simp⟩

instance : Membership String JobTree := ⟨fun t k => k ∈ t.jobs⟩

theorem mem_def {t : JobTree} {k : String} : k ∈ t ↔ k ∈ t.jobs := Iff.rfl

instance (t : JobTree) (k : String) : Decidable (k ∈ t) := inferInstanceAs (Decidable (k ∈ t.jobs))

/-- The node at `k`, blank when there is none. -/
def node (t : JobTree) (k : String) : JobRecord := (t.jobs.lookup k).getD .blank

/-- The leaf `f` of the job at `k`. -/
def field (t : JobTree) (k : String) (f : JobField) : Option String := (t.node k).fields f

/-- The email of the application at `a` under the job at `k`. -/
def applicant (t : JobTree) (k a : String) : Option String := (t.node k).applicants.lookup a

/-- Make `r` the node at `k`; a blank node is no node. -/
def put (t : JobTree) (k : String) (r : JobRecord) : JobTree :=
  if blank : r = .blank then
    ⟨t.jobs.erase k, fun k' => by
      by_cases same : k' = k
      · subst same; simp
      · rw [AList.lookup_erase_ne same]; exact t.live k'⟩
  else
    ⟨t.jobs.insert k r, fun k' => by
      by_cases same : k' = k
      · subst same; simpa using blank
      · rw [AList.lookup_insert_ne same]; exact t.live k'⟩

/-- `ref.child(k).updateChildValues([f: v])`, `f` possibly under `location`. -/
def setField (t : JobTree) (k : String) (f : JobField) (v : String) : JobTree :=
  t.put k { t.node k with fields := Function.update (t.node k).fields f (some v) }

/-- `ref.child(k).child("applicants").child(a).updateChildValues(["email": email])`. -/
def addApplicant (t : JobTree) (k a email : String) : JobTree :=
  t.put k { t.node k with applicants := (t.node k).applicants.insert a email }

/-- `ref.child(k).removeValue()`. -/
def removeJob (t : JobTree) (k : String) : JobTree := t.put k .blank

/-- `ref.child(k).child("applicants").child(a).removeValue()`. -/
def removeApplicant (t : JobTree) (k a : String) : JobTree :=
  t.put k { t.node k with applicants := (t.node k).applicants.erase a }

/-- What other clients do to the tree when they post or remove a job: one of the
writes that publish it, or its removal. -/
inductive Change where
  | write (key : String) (field : JobField) (value : String)
  | remove (key : String)

/-- The tree after a change. -/
def change (t : JobTree) : Change → JobTree
  | .write k f v => t.setField k f v
  | .remove k => t.removeJob k

/-- The tree after some changes, the first one first. -/
def changed (t : JobTree) (changes : List Change) : JobTree := changes.foldl change t

/-- The two trees have the same leaves, so they are the same tree. -/
def SameLeaves (t t' : JobTree) : Prop :=
  (∀ k f, t'.field k f = t.field k f) ∧ ∀ k a, t'.applicant k a = t.applicant k a

/-- The tree holding one record. -/
def single (k : String) (r : JobRecord) : JobTree := empty.put k r

/-- Bob's job `a`, and Ann's job `b` posted after it. -/
def bobThenAnn : JobTree := (single "a" (.sample "bob@x")).put "b" (.sample "ann@x")

/-! ## Nodes and leaves -/

theorem mem_iff_node {t : JobTree} {k : String} : k ∈ t ↔ t.node k ≠ .blank := by
  rw [mem_def, ← AList.lookup_isSome, node]
  cases found : t.jobs.lookup k with
  | none => simp
  | some r =>
      have live := t.live k
      rw [found] at live
      simpa using fun same => live (congrArg some same)

theorem lookup_eq_some {t : JobTree} {k : String} {r : JobRecord} :
    t.jobs.lookup k = some r ↔ k ∈ t ∧ t.node k = r := by
  rw [mem_def, ← AList.lookup_isSome, node]
  cases t.jobs.lookup k <;> simp

/-- What an enumeration of the jobs lists. -/
theorem mem_order (E : Enumeration) {t : JobTree} {k : String} {r : JobRecord} :
    ⟨k, r⟩ ∈ E.order t.jobs ↔ k ∈ t ∧ t.node k = r := by
  rw [E.mem_order, lookup_eq_some]

/-- The keys of the posted jobs, in the order of enumeration. -/
def keys (E : Enumeration) (t : JobTree) : List String := (E.order t.jobs).map Sigma.fst

theorem mem_keys {E : Enumeration} {t : JobTree} {k : String} : k ∈ t.keys E ↔ k ∈ t :=
  E.mem_order_keys

theorem nodup_keys (E : Enumeration) (t : JobTree) : (t.keys E).Nodup := E.nodup_keys _

@[simp] theorem node_put (t : JobTree) (k : String) (r : JobRecord) (k' : String) :
    (t.put k r).node k' = if k' = k then r else t.node k' := by
  unfold put
  by_cases same : k' = k
  · subst same
    by_cases blank : r = .blank
    · simp [node, blank]
    · simp [node, blank]
  · by_cases blank : r = .blank
    · simp [node, blank, same, AList.lookup_erase_ne same]
    · simp [node, blank, same, AList.lookup_insert_ne same]

theorem eq_of_mem_single {k k' : String} {r : JobRecord} (present : k' ∈ single k r) : k' = k := by
  by_contra other
  refine mem_iff_node.mp present ?_
  rw [single, node_put, if_neg other]
  rfl

theorem applicant_put (t : JobTree) (k : String) (r : JobRecord) (k' a : String) :
    (t.put k r).applicant k' a = if k' = k then r.applicants.lookup a else t.applicant k' a := by
  unfold applicant
  rw [node_put]
  split_ifs <;> rfl

@[simp] theorem field_setField (t : JobTree) (k : String) (f : JobField) (v k' : String)
    (f' : JobField) :
    (t.setField k f v).field k' f' = if k' = k ∧ f' = f then some v else t.field k' f' := by
  unfold field setField
  rw [node_put]
  by_cases same : k' = k
  · subst same; simp [Function.update_apply]
  · simp [same]

@[simp] theorem applicant_setField (t : JobTree) (k : String) (f : JobField) (v k' a : String) :
    (t.setField k f v).applicant k' a = t.applicant k' a := by
  unfold applicant setField
  rw [node_put]
  by_cases same : k' = k
  · subst same; simp
  · simp [same]

@[simp] theorem field_addApplicant (t : JobTree) (k a email k' : String) (f : JobField) :
    (t.addApplicant k a email).field k' f = t.field k' f := by
  unfold field addApplicant
  rw [node_put]
  by_cases same : k' = k
  · subst same; simp
  · simp [same]

@[simp] theorem applicant_addApplicant (t : JobTree) (k a email k' a' : String) :
    (t.addApplicant k a email).applicant k' a' =
      if k' = k ∧ a' = a then some email else t.applicant k' a' := by
  unfold applicant addApplicant
  rw [node_put]
  by_cases same : k' = k
  · subst same
    by_cases same' : a' = a
    · subst same'; simp
    · simp [same', AList.lookup_insert_ne same']
  · simp [same]

@[simp] theorem field_removeJob (t : JobTree) (k k' : String) (f : JobField) :
    (t.removeJob k).field k' f = if k' = k then none else t.field k' f := by
  unfold field removeJob
  rw [node_put]
  by_cases same : k' = k <;> simp [same, JobRecord.blank]

@[simp] theorem applicant_removeJob (t : JobTree) (k k' a : String) :
    (t.removeJob k).applicant k' a = if k' = k then none else t.applicant k' a := by
  unfold applicant removeJob
  rw [node_put]
  by_cases same : k' = k <;> simp [same, JobRecord.blank]

@[simp] theorem field_removeApplicant (t : JobTree) (k a k' : String) (f : JobField) :
    (t.removeApplicant k a).field k' f = t.field k' f := by
  unfold field removeApplicant
  rw [node_put]
  by_cases same : k' = k
  · subst same; simp
  · simp [same]

@[simp] theorem applicant_removeApplicant (t : JobTree) (k a k' a' : String) :
    (t.removeApplicant k a).applicant k' a' =
      if k' = k ∧ a' = a then none else t.applicant k' a' := by
  unfold applicant removeApplicant
  rw [node_put]
  by_cases same : k' = k
  · subst same
    by_cases same' : a' = a
    · subst same'; simp
    · simp [same', AList.lookup_erase_ne same']
  · simp [same]

@[simp] theorem field_empty (k : String) (f : JobField) : empty.field k f = none := rfl

@[simp] theorem applicant_empty (k a : String) : empty.applicant k a = none := rfl

/-- **A node exists exactly when some leaf below it does.** -/
theorem mem_iff_leaf {t : JobTree} {k : String} :
    k ∈ t ↔ (∃ f, t.field k f ≠ none) ∨ ∃ a, t.applicant k a ≠ none := by
  rw [mem_iff_node]
  constructor
  · intro live
    by_contra bare
    push Not at bare
    refine live (JobRecord.mk.injEq .. |>.mpr ⟨funext bare.1, ?_⟩)
    have noKeys : ∀ a, a ∉ (t.node k).applicants := fun a => AList.lookup_eq_none.mp (bare.2 a)
    refine AList.ext (List.eq_nil_iff_forall_not_mem.mpr fun ⟨a, e⟩ member => noKeys a ?_)
    exact AList.mem_keys.mpr (List.mem_map.mpr ⟨_, member, rfl⟩)
  · rintro (⟨f, leaf⟩ | ⟨a, leaf⟩) same
    · exact leaf (by rw [field, same]; rfl)
    · exact leaf (by rw [applicant, same]; rfl)

theorem mem_of_field {t : JobTree} {k v : String} {f : JobField} (leaf : t.field k f = some v) :
    k ∈ t :=
  mem_iff_leaf.mpr (.inl ⟨f, by simp [leaf]⟩)

theorem mem_of_applicant {t : JobTree} {k a e : String} (leaf : t.applicant k a = some e) :
    k ∈ t :=
  mem_iff_leaf.mpr (.inr ⟨a, by simp [leaf]⟩)

theorem mem_setField {t : JobTree} {k v k' : String} {f : JobField} :
    k' ∈ t.setField k f v ↔ k' = k ∨ k' ∈ t := by
  by_cases same : k' = k
  · subst same
    exact iff_of_true (mem_of_field (f := f) (v := v) (by simp)) (.inl rfl)
  · simp [mem_iff_leaf, same]

theorem mem_addApplicant {t : JobTree} {k a e k' : String} :
    k' ∈ t.addApplicant k a e ↔ k' = k ∨ k' ∈ t := by
  by_cases same : k' = k
  · subst same
    exact iff_of_true (mem_of_applicant (a := a) (e := e) (by simp)) (.inl rfl)
  · simp [mem_iff_leaf, same]

theorem mem_removeJob {t : JobTree} {k k' : String} : k' ∈ t.removeJob k ↔ k' ≠ k ∧ k' ∈ t := by
  by_cases same : k' = k <;> simp [mem_iff_leaf, same]

theorem entries_eq_nil {t : JobTree} : t.jobs.entries = [] ↔ ∀ k, k ∉ t := by
  rw [List.eq_nil_iff_forall_not_mem]
  constructor
  · intro none_ k present
    obtain ⟨e, member, _⟩ := List.mem_map.mp (AList.mem_keys.mp present)
    exact none_ e member
  · exact fun none_ e member => none_ e.1 (AList.mem_keys.mpr (List.mem_map.mpr ⟨e, member, rfl⟩))

theorem field_of_not_mem {t : JobTree} {k : String} (absent : k ∉ t) (f : JobField) :
    t.field k f = none := by
  by_contra leaf
  exact absent (mem_iff_leaf.mpr (.inl ⟨f, leaf⟩))

theorem applicant_of_not_mem {t : JobTree} {k : String} (absent : k ∉ t) (a : String) :
    t.applicant k a = none := by
  by_contra leaf
  exact absent (mem_iff_leaf.mpr (.inr ⟨a, leaf⟩))

/-! ## Complete trees -/

/-- Every record has all the leaves that the readers cast. -/
def Complete (t : JobTree) : Prop := ∀ k ∈ t, ∀ f, (t.field k f).isSome

theorem Complete.record {t : JobTree} (complete : t.Complete) {k : String} (present : k ∈ t) :
    (t.node k).Complete := complete k present

theorem Complete.field {t : JobTree} (complete : t.Complete) {k : String} (present : k ∈ t)
    (f : JobField) : ∃ v, t.field k f = some v :=
  Option.isSome_iff_exists.mp (complete k present f)

theorem complete_empty : empty.Complete := fun k present => by
  simp [mem_iff_leaf] at present

/-- A complete record keeps a tree of such complete. -/
theorem Complete.put {t : JobTree} (complete : t.Complete) (k : String) {r : JobRecord}
    (whole : r.Complete) : (t.put k r).Complete := by
  intro k' present f
  show (((t.put k r).node k').fields f).isSome
  rw [mem_iff_node, node_put] at present
  rw [node_put]
  split_ifs at present ⊢
  · exact whole f
  · exact complete k' (mem_iff_node.mpr present) f

/-- Removing a job keeps every other record as it is. -/
theorem Complete.removeJob {t : JobTree} (complete : t.Complete) (k : String) :
    (t.removeJob k).Complete := by
  intro k' present f
  obtain ⟨other, present'⟩ := mem_removeJob.mp present
  simpa [other] using complete k' present' f

theorem mem_of_mem_removeApplicant {t : JobTree} {k a k' : String}
    (present : k' ∈ t.removeApplicant k a) : k' ∈ t := by
  refine mem_iff_leaf.mpr ((mem_iff_leaf.mp present).imp (by simp) ?_)
  rintro ⟨a', leaf⟩
  refine ⟨a', fun absent => leaf ?_⟩
  simp [absent]

/-- Removing an application leaves a complete record complete. -/
theorem Complete.removeApplicant {t : JobTree} (complete : t.Complete) (k a : String) :
    (t.removeApplicant k a).Complete := by
  intro k' present f
  rw [field_removeApplicant]
  exact complete k' (mem_of_mem_removeApplicant present) f

/-- **Filing an application keeps every record complete exactly when the job it is
filed under exists.**  Under a key with no job it creates a record that holds
nothing but the application. -/
theorem complete_addApplicant_iff {t : JobTree} (complete : t.Complete) (k a e : String) :
    (t.addApplicant k a e).Complete ↔ k ∈ t := by
  constructor
  · intro after
    have leaf := after k (mem_addApplicant.mpr (.inl rfl)) .title
    rw [field_addApplicant] at leaf
    obtain ⟨v, found⟩ := Option.isSome_iff_exists.mp leaf
    exact mem_of_field found
  · intro present k' present' f
    rw [field_addApplicant]
    rcases mem_addApplicant.mp present' with rfl | before
    · exact complete _ present f
    · exact complete k' before f

end JobTree

end JobFinder.Database
