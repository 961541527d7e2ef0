/-
# Theory.Pool -- atomic steps of many tasks, in any order

Asynchronous code is a set of pending callbacks.  A `Pool` holds the shared state
and the tasks that are pending; firing one task runs its callback as a single
atomic step, which rewrites the shared state and issues new tasks.  Any pending
task may fire next, so a run of the pool is any interleaving of the callbacks of
any number of clients.  A client that dies, or loses its connection for good, is
one whose tasks never fire again: every prefix of a run is a run.

The pool carries a history variable: the tasks fired so far, newest first, each
with the shared state its callback was given.  No step reads it.

* `Pool.step_cases` says once what a step can do.
* `Pool.terminates`: when a callback only issues tasks of smaller rank, no
  schedule goes on for ever, so every schedule ends with the pool empty
  (`Pool.exists_drained`).
-/
import JobFinder.Theory.Run
import Mathlib.Data.Multiset.DershowitzManna

namespace JobFinder.Theory

set_option autoImplicit false

universe u v

/-- A shared state, the pending tasks, and the history of the tasks fired. -/
structure Pool (σ : Type u) (τ : Type v) where
  shared : σ
  tasks : List τ
  history : List (τ × σ)

/-- A new task is started, or the pending task at an index fires. -/
inductive PoolEvent (τ : Type v) where
  | spawn (task : τ)
  | fire (index : ℕ)
deriving DecidableEq, Repr

namespace Pool

variable {σ : Type u} {τ : Type v}

/-- A pool with nothing pending and nothing done. -/
def idle (s : σ) : Pool σ τ := ⟨s, [], []⟩

/-- A pool with the given tasks pending and nothing done. -/
def start (s : σ) (tasks : List τ) : Pool σ τ := ⟨s, tasks, []⟩

/-- One event: `exec task s` is the shared state a callback leaves and the tasks
it issues. -/
def step (exec : τ → σ → σ × List τ) (p : Pool σ τ) : PoolEvent τ → Option (Pool σ τ)
  | .spawn task => some { p with tasks := p.tasks ++ [task] }
  | .fire index =>
      p.tasks[index]?.map fun task =>
        ⟨(exec task p.shared).1, p.tasks.eraseIdx index ++ (exec task p.shared).2,
          (task, p.shared) :: p.history⟩

section Steps

variable {exec : τ → σ → σ × List τ} {p p' : Pool σ τ}

/-- What one event does: it starts a task, or it fires a pending one, whose place
is taken by the tasks its callback issues. -/
theorem step_cases {e : PoolEvent τ} (stepped : step exec p e = some p') :
    (∃ task, e = .spawn task ∧ p' = { p with tasks := p.tasks ++ [task] }) ∨
      (∃ index task rest, e = .fire index ∧ p.tasks[index]? = some task ∧
        p.tasks.Perm (task :: rest) ∧
        p' = ⟨(exec task p.shared).1, rest ++ (exec task p.shared).2,
          (task, p.shared) :: p.history⟩) := by
  cases e with
  | spawn task =>
      cases stepped
      exact .inl ⟨task, rfl, rfl⟩
  | fire index =>
      obtain ⟨task, at_, rfl⟩ := Option.map_eq_some_iff.mp stepped
      exact .inr ⟨index, task, _, rfl, at_, perm_eraseIdx at_, rfl⟩

theorem step_fire {index : ℕ} {task : τ} (at_ : p.tasks[index]? = some task) :
    step exec p (.fire index) =
      some ⟨(exec task p.shared).1, p.tasks.eraseIdx index ++ (exec task p.shared).2,
        (task, p.shared) :: p.history⟩ := by
  simp [step, at_]

end Steps

/-! ## Every schedule ends -/

section Termination

variable {exec : τ → σ → σ × List τ} {rank : τ → ℕ}

/-- The ranks of the pending tasks. -/
def ranks (rank : τ → ℕ) (p : Pool σ τ) : Multiset ℕ := (p.tasks.map rank : List ℕ)

theorem ranks_fire (descends : ∀ task s, ∀ t ∈ (exec task s).2, rank t < rank task)
    {p p' : Pool σ τ} {index : ℕ} (fired : step exec p (.fire index) = some p') :
    (p'.ranks rank).IsDershowitzMannaLT (p.ranks rank) := by
  rcases step_cases fired with ⟨_, impossible, _⟩ | ⟨_, task, rest, _, _, perm, rfl⟩
  · cases impossible
  refine ⟨(rest.map rank : List ℕ), ((exec task p.shared).2.map rank : List ℕ), {rank task},
    by simp, ?_, ?_, ?_⟩
  · simp [ranks]
  · have mapped : (p.tasks.map rank : Multiset ℕ) = ((task :: rest).map rank : List ℕ) :=
      Multiset.coe_eq_coe.mpr (perm.map rank)
    rw [ranks, mapped, List.map_cons, ← Multiset.cons_coe, add_comm, Multiset.singleton_add]
  · intro r member
    obtain ⟨t, issued, rfl⟩ := List.mem_map.mp (Multiset.mem_coe.mp member)
    exact ⟨rank task, Multiset.mem_singleton_self _, descends task p.shared t issued⟩

/-- **No schedule goes on for ever**, when a callback only issues tasks of smaller
rank than its own. -/
theorem terminates (descends : ∀ task s, ∀ t ∈ (exec task s).2, rank t < rank task) :
    WellFounded fun p' p : Pool σ τ => ∃ index, step exec p (.fire index) = some p' :=
  Subrelation.wf (r := InvImage Multiset.IsDershowitzMannaLT (ranks rank))
    (fun ⟨_, fired⟩ => ranks_fire descends fired)
    (InvImage.wf _ Multiset.wellFounded_isDershowitzMannaLT)

/-- Every pool can be drained by firing its tasks. -/
theorem exists_drained (descends : ∀ task s, ∀ t ∈ (exec task s).2, rank t < rank task)
    (p : Pool σ τ) :
    ∃ (fires : List ℕ) (p' : Pool σ τ),
      run (step exec) p (fires.map .fire) = some p' ∧ p'.tasks = [] := by
  induction p using (terminates descends).induction with
  | _ p ih =>
      rcases empty : p.tasks with _ | ⟨task, rest⟩
      · exact ⟨[], p, rfl, empty⟩
      · have first : p.tasks[0]? = some task := by simp [empty]
        have fired : step exec p (.fire 0) = some _ := step_fire first
        obtain ⟨fires, p', ran, drained⟩ := ih _ ⟨0, fired⟩
        refine ⟨0 :: fires, p', ?_, drained⟩
        rw [List.map_cons, run_cons, fired]
        exact ran

end Termination

end Pool

/-- One of some things is replaced by smaller ones. -/
theorem isDershowitzMannaLT_replaced {α : Type u} [Preorder α] {r : α} {rest new : Multiset α}
    (smaller : ∀ s ∈ new, s < r) : (rest + new).IsDershowitzMannaLT (r ::ₘ rest) :=
  ⟨rest, new, {r}, by simp, rfl, by rw [add_comm, Multiset.singleton_add],
    fun s member => ⟨r, Multiset.mem_singleton_self r, smaller s member⟩⟩

end JobFinder.Theory
