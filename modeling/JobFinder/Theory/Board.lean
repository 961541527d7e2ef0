/-
# Theory.Board -- a board of notices, and the applications under them

A board holds notices by key.  A notice has data that never change, and applications that
come and go.  It is put up whole, in one step, and taken down in one step; an application is
for a notice that is up.
-/
import JobFinder.Theory.Run
import Mathlib.Logic.Function.Basic

namespace JobFinder.Theory

set_option autoImplicit false

/-- The data of a notice, and the applications under it. -/
structure Notice (δ α ε : Type) where
  data : δ
  applications : α → Option ε

/-- The notices that are up, by key. -/
abbrev Board (κ δ α ε : Type) := κ → Option (Notice δ α ε)

namespace Board

variable {κ δ α ε : Type}

inductive Op (κ δ α ε : Type) where
  | post (key : κ) (notice : Notice δ α ε)
  | retire (key : κ)
  | apply (key : κ) (applicant : α) (email : ε)
  | withdraw (key : κ) (applicant : α)

variable [DecidableEq κ] [DecidableEq α]

/-- One operation: a notice is put up under a key that is free, and everything else is for
a notice that is up. -/
def step (b : Board κ δ α ε) : Op κ δ α ε → Option (Board κ δ α ε)
  | .post key notice =>
      match b key with
      | none => some (Function.update b key (some notice))
      | some _ => none
  | .retire key => (b key).map fun _ => Function.update b key none
  | .apply key applicant email =>
      (b key).map fun notice => Function.update b key (some { notice with
        applications := Function.update notice.applications applicant (some email) })
  | .withdraw key applicant =>
      (b key).map fun notice => Function.update b key (some { notice with
        applications := Function.update notice.applications applicant none })

variable {b b' : Board κ δ α ε} {key : κ} {notice : Notice δ α ε}

theorem step_post (free : b key = none) (here : b' key = some notice)
    (others : ∀ k ≠ key, b' k = b k) : b.step (.post key notice) = some b' := by
  rw [step, free]
  exact congrArg some (Function.update_eq_iff.mpr ⟨here.symm, fun k other => (others k other).symm⟩)

theorem step_retire (up : (b key).isSome) (here : b' key = none) (others : ∀ k ≠ key, b' k = b k) :
    b.step (.retire key) = some b' := by
  obtain ⟨notice, there⟩ := Option.isSome_iff_exists.mp up
  rw [step, there]
  exact congrArg some (Function.update_eq_iff.mpr ⟨here.symm, fun k other => (others k other).symm⟩)

theorem step_apply {applicant : α} {email : ε} (up : b key = some notice)
    (here : b' key = some ⟨notice.data, Function.update notice.applications applicant (some email)⟩)
    (others : ∀ k ≠ key, b' k = b k) : b.step (.apply key applicant email) = some b' := by
  rw [step, up]
  exact congrArg some (Function.update_eq_iff.mpr ⟨here.symm, fun k other => (others k other).symm⟩)

theorem step_withdraw {applicant : α} (up : b key = some notice)
    (here : b' key = some ⟨notice.data, Function.update notice.applications applicant none⟩)
    (others : ∀ k ≠ key, b' k = b k) : b.step (.withdraw key applicant) = some b' := by
  rw [step, up]
  exact congrArg some (Function.update_eq_iff.mpr ⟨here.symm, fun k other => (others k other).symm⟩)

end Board

end JobFinder.Theory
