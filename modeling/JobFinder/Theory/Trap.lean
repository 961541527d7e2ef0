/-
# Theory.Trap -- programs that trap, and loops that act before they trap

A forced cast, a forced unwrap and an array index stop the program when they
fail.  A pure computation that may trap is an `Except Trap`; a loop whose body
issues actions (asynchronous writes, handler calls) keeps what it issued before
it trapped, so its result is an `Issued`: the actions in order, and the trap that
ended it, if one did.

`Issued.forEach_ok` is the loop rule used throughout: a loop whose body never
traps issues the concatenation of what the bodies issue.
-/
import Mathlib.Data.List.Basic

namespace JobFinder.Theory

set_option autoImplicit false

/-- Why the program stopped. -/
inductive Trap where
  | forcedCast
  | unwrappedNil
  | indexOutOfRange
  | uncaughtException
deriving DecidableEq, Repr

variable {α β : Type}

/-- `value as! T`, of a value that is present and a `T`, or is not. -/
def forceCast : Option α → Except Trap α
  | some a => .ok a
  | none => .error .forcedCast

/-- `value!`. -/
def unwrap : Option α → Except Trap α
  | some a => .ok a
  | none => .error .unwrappedNil

/-- `array[index]`. -/
def subscript (l : List α) (i : ℕ) : Except Trap α :=
  match l[i]? with
  | some a => .ok a
  | none => .error .indexOutOfRange

theorem forceCast_ok {o : Option α} {a : α} : forceCast o = .ok a ↔ o = some a := by
  cases o <;> simp [forceCast]

theorem unwrap_ok {o : Option α} {a : α} : unwrap o = .ok a ↔ o = some a := by
  cases o <;> simp [unwrap]

theorem subscript_ok {l : List α} {i : ℕ} {a : α} : subscript l i = .ok a ↔ l[i]? = some a := by
  unfold subscript
  split <;> simp_all

/-- A computation that did not trap, taken apart at its first step. -/
theorem bind_ok {γ δ : Type} {x : Except Trap γ} {f : γ → Except Trap δ} {d : δ} :
    (x >>= f) = .ok d ↔ ∃ c, x = .ok c ∧ f c = .ok d := by
  cases x with
  | error e => simp [bind, Except.bind]
  | ok c => simp [bind, Except.bind]

/-- If the computation traps, it is in one of these ways. -/
def TrapsIn (ways : Trap → Prop) (x : Except Trap α) : Prop := ∀ e, x = .error e → ways e

section TrapsIn

variable {ways : Trap → Prop}

theorem trapsIn_ok (a : α) : TrapsIn ways (.ok a) := fun _ impossible => by cases impossible

theorem trapsIn_forceCast (way : ways .forcedCast) (o : Option α) : TrapsIn ways (forceCast o) := by
  intro e failed
  cases o with
  | none =>
      cases failed
      exact way
  | some a => cases failed

theorem trapsIn_unwrap (way : ways .unwrappedNil) (o : Option α) : TrapsIn ways (unwrap o) := by
  intro e failed
  cases o with
  | none =>
      cases failed
      exact way
  | some a => cases failed

theorem TrapsIn.bind {x : Except Trap α} {f : α → Except Trap β} (first : TrapsIn ways x)
    (rest : ∀ a, TrapsIn ways (f a)) : TrapsIn ways (x >>= f) := by
  intro e failed
  cases x with
  | error e' =>
      cases failed
      exact first _ rfl
  | ok a => exact rest a e failed

theorem TrapsIn.map {x : Except Trap α} (all : TrapsIn ways x) (f : α → β) :
    TrapsIn ways (x.map f) := by
  intro e failed
  cases x with
  | error e' =>
      cases failed
      exact all _ rfl
  | ok a => cases failed

end TrapsIn

/-- The actions issued so far, and the trap that stopped the loop. -/
structure Issued (α : Type) where
  out : List α
  trap : Option Trap
deriving DecidableEq, Repr

namespace Issued

/-- Issue `out` and go on. -/
def done (out : List α) : Issued α := ⟨out, none⟩

/-- Trap, having issued nothing. -/
def stop (e : Trap) : Issued α := ⟨[], some e⟩

/-- Go on with the value of a pure computation, or trap as it does. -/
def ofExcept (x : Except Trap β) (f : β → Issued α) : Issued α :=
  match x with
  | .ok b => f b
  | .error e => stop e

/-- `for b in l { ... }`: a trap in the body ends the loop. -/
def forEach (f : β → Issued α) : List β → Issued α
  | [] => done []
  | b :: bs =>
      match (f b).trap with
      | some e => ⟨(f b).out, some e⟩
      | none => ⟨(f b).out ++ (forEach f bs).out, (forEach f bs).trap⟩

/-- Do something else for each action issued. -/
def map (f : α → β) (x : Issued α) : Issued β := ⟨x.out.map f, x.trap⟩

/-- Do something else for some of the actions issued. -/
def filterMap (f : α → Option β) (x : Issued α) : Issued β := ⟨x.out.filterMap f, x.trap⟩

@[simp] theorem filterMap_done (f : α → Option β) (out : List α) :
    (done out).filterMap f = done (out.filterMap f) := rfl

@[simp] theorem map_done (f : α → β) (out : List α) : (done out).map f = done (out.map f) := rfl

@[simp] theorem out_done (out : List α) : (done out).out = out := rfl

@[simp] theorem trap_done (out : List α) : (done out).trap = none := rfl

@[simp] theorem ofExcept_ok (b : β) (f : β → Issued α) : ofExcept (.ok b) f = f b := rfl

theorem trap_ofExcept {x : Except Trap β} {f : β → Issued α} :
    (ofExcept x f).trap = none ↔ ∃ b, x = .ok b ∧ (f b).trap = none := by
  cases x with
  | ok b => simp
  | error e => simp [ofExcept, stop]

/-- **The loop rule**: a loop whose body never traps issues what its bodies issue. -/
theorem forEach_ok {f : β → Issued α} {l : List β} (ok : ∀ b ∈ l, (f b).trap = none) :
    forEach f l = done (l.flatMap fun b => (f b).out) := by
  induction l with
  | nil => rfl
  | cons b bs ih =>
      have rest := ih fun b' member => ok b' (List.mem_cons_of_mem _ member)
      simp [forEach, ok b List.mem_cons_self, rest, done]

/-- A loop whose body issues one action for the elements that pass a test. -/
theorem forEach_filter {f : β → Issued α} {g : β → α} {p : β → Bool} {l : List β}
    (body : ∀ b ∈ l, f b = done (if p b then [g b] else [])) :
    forEach f l = done ((l.filter p).map g) := by
  induction l with
  | nil => rfl
  | cons b bs ih =>
      have rest := ih fun b' member => body b' (List.mem_cons_of_mem _ member)
      rw [forEach, body b List.mem_cons_self, rest]
      cases passes : p b <;> simp [done, passes]

/-- Whatever a loop issued, one of its bodies issued. -/
theorem mem_forEach {f : β → Issued α} {l : List β} {a : α} (issued : a ∈ (forEach f l).out) :
    ∃ b ∈ l, a ∈ (f b).out := by
  induction l with
  | nil => simp [forEach] at issued
  | cons b bs ih =>
      have split : a ∈ (f b).out ∨ a ∈ (forEach f bs).out := by
        cases trapped : (f b).trap with
        | some e => simp_all [forEach]
        | none => simpa [forEach, trapped] using issued
      rcases split with here | later
      · exact ⟨b, List.mem_cons_self, here⟩
      · obtain ⟨b', member, found⟩ := ih later
        exact ⟨b', List.mem_cons_of_mem _ member, found⟩

/-- The trap that ended a loop is that of a body. -/
theorem trap_of_forEach {f : β → Issued α} {l : List β} {e : Trap}
    (trapped : (forEach f l).trap = some e) : ∃ b ∈ l, (f b).trap = some e := by
  induction l with
  | nil => cases trapped
  | cons b bs ih =>
      cases body : (f b).trap with
      | some e' =>
          simp only [forEach, body] at trapped
          exact ⟨b, List.mem_cons_self, body.trans trapped⟩
      | none =>
          simp only [forEach, body] at trapped
          obtain ⟨b', member, found⟩ := ih trapped
          exact ⟨b', List.mem_cons_of_mem _ member, found⟩

/-- A loop traps where its first trapping body does. -/
theorem trap_forEach {f : β → Issued α} {l : List β} :
    (forEach f l).trap = none ↔ ∀ b ∈ l, (f b).trap = none := by
  induction l with
  | nil => simp [forEach]
  | cons b bs ih =>
      cases trapped : (f b).trap with
      | some e => simp [forEach, trapped]
      | none => simp [forEach, trapped, ih]

end Issued

end JobFinder.Theory
