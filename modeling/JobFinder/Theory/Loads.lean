/-
# Theory.Loads -- a list cleared when a load is issued and filled when it arrives

Code that refreshes a list from a remote source often clears the list when it
issues the read, and appends what the read delivers when it is delivered.  Several
loads may be outstanding; each is read from the source at some moment, and
delivered at a later one, in any order.

Between the issue and the delivery a load *owes* the list what it will append.
No reading and no delivering changes what is shown and owed together
(`total_quiet`), so once everything is delivered the list holds what the last
load read, and on top of it everything that was still owed when the last load was
issued.  `settled_iff` is the exact condition for the list to be right.
-/
import JobFinder.Theory.Run
import Mathlib.Algebra.Order.BigOperators.Group.List
import Mathlib.Data.Multiset.OrderedMonoid

namespace JobFinder.Theory.Loads

set_option autoImplicit false

/-- The remote source, the list shown, and the loads outstanding: not yet read,
or read and holding the source as it was then. -/
structure State (σ β : Type) where
  source : σ
  shown : List β
  loads : List (Option σ)

inductive Event (σ : Type) where
  | call
  | read (load : ℕ)
  | deliver (load : ℕ)
  | change (source : σ)

/-- Nothing is issued and the source does not change. -/
def Event.quiet {σ : Type} : Event σ → Bool
  | .read _ => true
  | .deliver _ => true
  | _ => false

section

variable {σ β : Type} (items : σ → Option (List β))

/-- `items snap` is what delivering the snapshot `snap` appends; `none` if the
delivery stops the program. -/
def step (s : State σ β) : Event σ → Option (State σ β)
  | .call => some { s with shown := [], loads := s.loads ++ [none] }
  | .read i =>
      match s.loads[i]? with
      | some none => some { s with loads := s.loads.set i (some s.source) }
      | _ => none
  | .deliver i =>
      match s.loads[i]? with
      | some (some snap) =>
          (items snap).map fun vs =>
            { s with shown := s.shown ++ vs, loads := s.loads.eraseIdx i }
      | _ => none
  | .change source => some { s with source := source }

/-- What an outstanding load will append, if the source stays as it is. -/
def due (source : σ) (load : Option σ) : Multiset β := (items (load.getD source)).getD []

/-- What the outstanding loads will append. -/
def owed (s : State σ β) : Multiset β := (s.loads.map (due items s.source)).sum

/-- What is shown and what is owed. -/
def total (s : State σ β) : Multiset β := s.shown + owed items s

end

variable {σ β : Type} {items : σ → Option (List β)}

/-- A step that issues nothing and changes nothing remote keeps the total. -/
theorem total_quiet {s s' : State σ β} {e : Event σ} (quiet : e.quiet = true)
    (stepped : step items s e = some s') : s'.source = s.source ∧ total items s' = total items s := by
  cases e with
  | call => cases quiet
  | change source => cases quiet
  | read i =>
      simp only [step] at stepped
      split at stepped
      · rename_i unread
        cases stepped
        obtain ⟨bound, same⟩ := List.getElem?_eq_some_iff.mp unread
        have sameDue : (s.loads.set i (some s.source)).map (due items s.source) =
            s.loads.map (due items s.source) := by
          refine List.ext_getElem (by simp) fun j _ _ => ?_
          by_cases here : i = j
          · subst here; simp [same, due]
          · simp [List.getElem_set_ne here]
        exact ⟨rfl, congrArg (fun l => (s.shown : Multiset β) + List.sum l) sameDue⟩
      · cases stepped
  | deliver i =>
      simp only [step] at stepped
      split at stepped
      · rename_i snap arrived
        obtain ⟨vs, delivered, rfl⟩ := Option.map_eq_some_iff.mp stepped
        refine ⟨rfl, ?_⟩
        have at_ : (s.loads.map (due items s.source))[i]? = some (vs : Multiset β) := by
          simp [List.getElem?_map, arrived, due, delivered]
        have sum := (perm_eraseIdx at_).sum_eq
        show ((s.shown ++ vs : List β) : Multiset β) +
          ((s.loads.eraseIdx i).map (due items s.source)).sum = s.shown + _
        rw [owed, sum, List.sum_cons, ← Multiset.coe_add, List.eraseIdx_map, add_assoc]
      · cases stepped

/-- A load whose delivery would stop the program stays outstanding. -/
theorem stuck_quiet {s s' : State σ β} {e : Event σ} (quiet : e.quiet = true)
    (stepped : step items s e = some s')
    (stuck : ∃ load ∈ s.loads, items (load.getD s.source) = none) :
    ∃ load ∈ s'.loads, items (load.getD s'.source) = none := by
  obtain ⟨load, outstanding, stops⟩ := stuck
  obtain ⟨j, at_j⟩ := List.mem_iff_getElem?.mp outstanding
  cases e with
  | call => cases quiet
  | change source => cases quiet
  | read i =>
      simp only [step] at stepped
      split at stepped
      · rename_i unread
        cases stepped
        by_cases here : i = j
        · subst here
          rw [unread] at at_j
          cases at_j
          obtain ⟨bound, _⟩ := List.getElem?_eq_some_iff.mp unread
          exact ⟨some s.source, List.mem_of_getElem? (List.getElem?_set_self bound), stops⟩
        · exact ⟨load, List.mem_of_getElem? ((List.getElem?_set_ne here).trans at_j), stops⟩
      · cases stepped
  | deliver i =>
      simp only [step] at stepped
      split at stepped
      · rename_i snap arrived
        obtain ⟨vs, delivered, rfl⟩ := Option.map_eq_some_iff.mp stepped
        have other : load ≠ some snap := by
          rintro rfl
          rw [Option.getD_some, delivered] at stops
          cases stops
        have kept := (perm_eraseIdx arrived).mem_iff.mp outstanding
        exact ⟨load, (List.mem_cons.mp kept).resolve_left other, stops⟩
      · cases stepped

theorem not_stuck {a s : State σ β} {es : List (Event σ)} (quiet : ∀ e ∈ es, e.quiet = true)
    (ran : run (step items) a es = some s) (done : s.loads = []) :
    ∀ load ∈ a.loads, items (load.getD a.source) ≠ none := by
  induction es generalizing a with
  | nil =>
      cases ran
      simp [done]
  | cons e es ih =>
      obtain ⟨a', stepped, rest⟩ := run_cons_some.mp ran
      have later := ih (fun e' member => quiet e' (List.mem_cons_of_mem _ member)) rest
      intro load outstanding stops
      obtain ⟨load', outstanding', stops'⟩ :=
        stuck_quiet (quiet e List.mem_cons_self) stepped ⟨load, outstanding, stops⟩
      exact later load' outstanding' stops'

theorem total_of_quiet {a s : State σ β} {es : List (Event σ)} (quiet : ∀ e ∈ es, e.quiet = true)
    (ran : run (step items) a es = some s) :
    s.source = a.source ∧ total items s = total items a := by
  induction es generalizing a with
  | nil =>
      cases ran
      exact ⟨rfl, rfl⟩
  | cons e es ih =>
      obtain ⟨a', stepped, rest⟩ := run_cons_some.mp ran
      obtain ⟨sameSource, sameTotal⟩ := total_quiet (quiet e List.mem_cons_self) stepped
      obtain ⟨sameSource', sameTotal'⟩ :=
        ih (fun e' member => quiet e' (List.mem_cons_of_mem _ member)) rest
      exact ⟨sameSource'.trans sameSource, sameTotal'.trans sameTotal⟩

/-- **What a settled list holds**: what was owed when the last load was issued,
and what that load itself read. -/
theorem settled {s₁ s : State σ β} {post : List (Event σ)} (quiet : ∀ e ∈ post, e.quiet = true)
    (ran : run (step items) s₁ (.call :: post) = some s) (done : s.loads = []) :
    s.source = s₁.source ∧
      (s.shown : Multiset β) = owed items s₁ + ((items s₁.source).getD [] : List β) := by
  obtain ⟨s₂, called, rest⟩ := run_cons_some.mp ran
  cases called
  obtain ⟨sameSource, sameTotal⟩ := total_of_quiet quiet rest
  refine ⟨sameSource, ?_⟩
  simpa [total, owed, done, due] using sameTotal

/-- Every load that the settled run delivered could be delivered. -/
theorem delivered_of_settled {s₁ s : State σ β} {post : List (Event σ)}
    (quiet : ∀ e ∈ post, e.quiet = true)
    (ran : run (step items) s₁ (.call :: post) = some s) (done : s.loads = []) :
    ∀ load ∈ s₁.loads ++ [none], ∃ vs, items (load.getD s₁.source) = some vs := by
  obtain ⟨s₂, called, rest⟩ := run_cons_some.mp ran
  cases called
  intro load outstanding
  exact Option.ne_none_iff_exists'.mp (not_stuck quiet rest done load outstanding)

/-- **The settled list is right exactly when nothing was owed at the last call**:
every load outstanding then delivers no item. -/
theorem settled_iff {s₁ s : State σ β} {post : List (Event σ)}
    (quiet : ∀ e ∈ post, e.quiet = true)
    (ran : run (step items) s₁ (.call :: post) = some s) (done : s.loads = []) :
    (∃ vs, items s.source = some vs ∧ s.shown.Perm vs) ↔
      ∀ load ∈ s₁.loads, items (load.getD s₁.source) = some [] := by
  obtain ⟨sameSource, shown⟩ := settled quiet ran done
  have delivered := delivered_of_settled quiet ran done
  obtain ⟨vs, last⟩ := delivered none (by simp)
  rw [Option.getD_none] at last
  have right : (∃ vs, items s.source = some vs ∧ s.shown.Perm vs) ↔ owed items s₁ = 0 := by
    rw [sameSource, last]
    simp only [Option.some.injEq, exists_eq_left']
    rw [← Multiset.coe_eq_coe, shown, last, Option.getD_some, add_eq_right]
  rw [right, owed, List.sum_eq_zero_iff, List.forall_mem_map]
  refine forall₂_congr fun load outstanding => ?_
  obtain ⟨vs', arrives⟩ := delivered load (List.mem_append_left _ outstanding)
  simp [due, arrives]

end JobFinder.Theory.Loads
