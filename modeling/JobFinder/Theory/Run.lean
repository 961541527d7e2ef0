/-
# Theory.Run -- runs of a step function, and what holds along them

A system is a partial step function `step : σ → ε → Option σ`: `none` says that
the event cannot happen in that state.  A run is a list of events.  Two readings
of a run are used everywhere:

* `Along step C s es`: every event of the run that does happen satisfies `C` at
  the state it happens in (a condition on the steps of the run);
* `Always step P s es`: `P` holds in every state the run visits, the first and
  the last included.

`invariant_of_along` is the induction every safety theorem uses: an invariant
that the steps satisfying a condition preserve holds wherever such a run ends.
`always_iff_along` is its exact form, for a step condition that is precisely
what keeps the invariant.  `run_observed` and `run_simulated` carry a run over to
another system, by a function of its states and by a relation.
-/
import Mathlib.Logic.Basic
import Mathlib.Data.List.Perm.Basic
import Mathlib.Data.Option.Basic

namespace JobFinder.Theory

set_option autoImplicit false

universe u v w

variable {σ : Type u} {ε : Type v}

/-- The state after the events `es`, or `none` when one of them cannot happen. -/
def run (step : σ → ε → Option σ) : σ → List ε → Option σ
  | s, [] => some s
  | s, e :: es => (step s e).bind fun s' => run step s' es

/-- Every event of the run that happens satisfies `C` where it happens. -/
def Along (step : σ → ε → Option σ) (C : σ → ε → Prop) : σ → List ε → Prop
  | _, [] => True
  | s, e :: es => ∀ s', step s e = some s' → C s e ∧ Along step C s' es

/-- `P` holds in every state of the run. -/
def Always (step : σ → ε → Option σ) (P : σ → Prop) : σ → List ε → Prop
  | s, [] => P s
  | s, e :: es => P s ∧ ∀ s', step s e = some s' → Always step P s' es

instance decidableAlong (step : σ → ε → Option σ) (C : σ → ε → Prop) [∀ s e, Decidable (C s e)] :
    ∀ (s : σ) (es : List ε), Decidable (Along step C s es)
  | _, [] => isTrue trivial
  | s, e :: es =>
      match stepped : step s e with
      | none => isTrue fun s' some_ => by rw [stepped] at some_; cases some_
      | some s' =>
          have := decidableAlong step C s' es
          decidable_of_iff (C s e ∧ Along step C s' es)
            ⟨fun holds t some_ => by rw [stepped] at some_; cases some_; exact holds,
              fun along => along s' stepped⟩

section Rules

variable {step : σ → ε → Option σ} {C D : σ → ε → Prop} {I P : σ → Prop}

@[simp] theorem run_nil (s : σ) : run step s [] = some s := rfl

theorem run_cons (s : σ) (e : ε) (es : List ε) :
    run step s (e :: es) = (step s e).bind fun s' => run step s' es := rfl

theorem run_cons_some {s t : σ} {e : ε} {es : List ε} :
    run step s (e :: es) = some t ↔ ∃ s', step s e = some s' ∧ run step s' es = some t := by
  rw [run_cons, Option.bind_eq_some_iff]

theorem run_append (s : σ) (es fs : List ε) :
    run step s (es ++ fs) = (run step s es).bind fun s' => run step s' fs := by
  induction es generalizing s with
  | nil => rfl
  | cons e es ih =>
      simp only [List.cons_append, run_cons]
      cases step s e with
      | none => rfl
      | some s' => exact ih s'

theorem run_append_some {s t : σ} {es fs : List ε} :
    run step s (es ++ fs) = some t ↔
      ∃ s', run step s es = some s' ∧ run step s' fs = some t := by
  rw [run_append, Option.bind_eq_some_iff]

/-- A step-by-step translation of one system and its events into another translates its
runs. -/
theorem run_map_events {σ' : Type u} {ε' : Type v} {step' : σ' → ε' → Option σ'} (f : σ → σ')
    (g : ε → ε') (sim : ∀ s e, (step s e).map f = step' (f s) (g e)) (s : σ) (es : List ε) :
    (run step s es).map f = run step' (f s) (es.map g) := by
  induction es generalizing s with
  | nil => rfl
  | cons e es ih =>
      rw [List.map_cons, run_cons, run_cons, ← sim]
      cases step s e with
      | none => rfl
      | some s' => exact ih s'

/-- A step-by-step translation of one system into another translates its runs. -/
theorem run_map {σ' : Type u} {step' : σ' → ε → Option σ'} (f : σ → σ')
    (sim : ∀ s e, (step s e).map f = step' (f s) e) (s : σ) (es : List ε) :
    (run step s es).map f = run step' (f s) es := by
  simpa using run_map_events f id sim s es

theorem Along.and : ∀ {es : List ε} {s : σ}, Along step C s es → Along step D s es →
    Along step (fun s e => C s e ∧ D s e) s es
  | [], _, _, _ => trivial
  | _ :: _, _, alongC, alongD => fun s' stepped =>
      ⟨⟨(alongC s' stepped).1, (alongD s' stepped).1⟩,
        (alongC s' stepped).2.and (alongD s' stepped).2⟩

/-- A run condition holds along both parts of a run. -/
theorem Along.of_append : ∀ {es fs : List ε} {s : σ}, Along step C s (es ++ fs) →
    Along step C s es ∧ ∀ s', run step s es = some s' → Along step C s' fs
  | [], _, _, along => ⟨trivial, fun s' ran => by cases ran; exact along⟩
  | e :: es, fs, s, along => by
      refine ⟨fun s₁ stepped => ⟨(along s₁ stepped).1, (along s₁ stepped).2.of_append.1⟩, ?_⟩
      intro s' ran
      obtain ⟨s₁, stepped, rest⟩ := run_cons_some.mp ran
      exact (along s₁ stepped).2.of_append.2 s' rest

theorem Along.append : ∀ {es fs : List ε} {s : σ}, Along step C s es →
    (∀ s', run step s es = some s' → Along step C s' fs) → Along step C s (es ++ fs)
  | [], _, s, _, rest => rest s rfl
  | _ :: _, _, _, along, rest => fun s₁ stepped =>
      ⟨(along s₁ stepped).1, (along s₁ stepped).2.append fun s' ran =>
        rest s' (run_cons_some.mpr ⟨s₁, stepped, ran⟩)⟩

/-- A condition on the events alone holds along every run of such events. -/
theorem along_of_forall : ∀ {es : List ε} {s : σ}, (∀ e ∈ es, ∀ s, C s e) → Along step C s es
  | [], _, _ => trivial
  | e :: _, s, all => fun _ _ =>
      ⟨all e List.mem_cons_self s, along_of_forall fun e' later => all e' (List.mem_cons_of_mem _ later)⟩

/-- A run condition may be weakened to what a kept invariant makes of it. -/
theorem along_of_along (keep : ∀ s e s', I s → C s e → step s e = some s' → D s e ∧ I s') :
    ∀ (es : List ε) (s : σ), I s → Along step C s es → Along step D s es
  | [], _, _, _ => trivial
  | e :: es, s, inv, along => by
      intro s' stepped
      obtain ⟨here, rest⟩ := along s' stepped
      obtain ⟨holds, inv'⟩ := keep s e s' inv here stepped
      exact ⟨holds, along_of_along keep es s' inv' rest⟩

/-- A run condition may be weakened. -/
theorem Along.mono (weaker : ∀ s e, C s e → D s e) {es : List ε} {s : σ} (along : Along step C s es) :
    Along step D s es :=
  along_of_along (I := fun _ => True) (fun s e _ _ here _ => ⟨weaker s e here, trivial⟩) es s trivial
    along

/-- **The invariant rule.**  An invariant kept by every step that meets `C` holds
at the end of every run whose steps meet `C`. -/
theorem invariant_of_along (keep : ∀ s e s', I s → C s e → step s e = some s' → I s') :
    ∀ (es : List ε) (s t : σ), I s → Along step C s es → run step s es = some t → I t
  | [], s, t, inv, _, ran => by
      cases ran
      exact inv
  | e :: es, s, t, inv, along, ran => by
      obtain ⟨s', stepped, rest⟩ := run_cons_some.mp ran
      obtain ⟨here, along'⟩ := along s' stepped
      exact invariant_of_along keep es s' t (keep s e s' inv here stepped) along' rest

/-- The invariant rule for an invariant that every step keeps. -/
theorem invariant_of_run (keep : ∀ s e s', I s → step s e = some s' → I s')
    {es : List ε} {s t : σ} (inv : I s) (ran : run step s es = some t) : I t := by
  induction es generalizing s with
  | nil =>
      cases ran
      exact inv
  | cons e es ih =>
      obtain ⟨s', stepped, rest⟩ := run_cons_some.mp ran
      exact ih (keep s e s' inv stepped) rest

/-- **What is never lost.**  Where every step takes a state to one that has at least as much,
the last state of a run has at least as much as all of them. -/
theorem along_of_grows {R : σ → σ → Prop} (refl : ∀ s, R s s)
    (trans : ∀ {s t u}, R s t → R t u → R s u)
    (grows : ∀ s e s', I s → step s e = some s' → I s' ∧ R s s') :
    ∀ (es : List ε) (s t : σ), I s → run step s es = some t →
      R s t ∧ Along step (fun s e => ∀ s', step s e = some s' → R s' t) s es
  | [], s, t, _, ran => by
      cases ran
      exact ⟨refl s, trivial⟩
  | e :: es, s, t, inv, ran => by
      obtain ⟨s', stepped, rest⟩ := run_cons_some.mp ran
      obtain ⟨inv', more⟩ := grows s e s' inv stepped
      obtain ⟨upTo, along⟩ := along_of_grows refl trans grows es s' t inv' rest
      refine ⟨trans more upTo, fun s₁ stepped₁ => ?_⟩
      cases stepped.symm.trans stepped₁
      refine ⟨fun s₂ stepped₂ => ?_, along⟩
      cases stepped.symm.trans stepped₂
      exact upTo

theorem always_head {s : σ} {es : List ε} (always : Always step P s es) : P s := by
  cases es with
  | nil => exact always
  | cons e es => exact always.1

/-- **The exact rule.**  Let the steps that meet `D` keep an invariant `I`.  Where
`C` is precisely the condition under which such a step keeps `P`, `P` holds
throughout a run of them if and only if `C` holds along it. -/
theorem always_iff_along (keep : ∀ s e s', I s → D s e → step s e = some s' → I s')
    (exact_ : ∀ s e s', I s → D s e → P s → step s e = some s' → (P s' ↔ C s e)) :
    ∀ (es : List ε) (s : σ), I s → P s → Along step D s es →
      (Always step P s es ↔ Along step C s es)
  | [], _, _, holds, _ => ⟨fun _ => trivial, fun _ => holds⟩
  | e :: es, s, inv, holds, legal => by
      constructor
      · rintro ⟨_, always⟩ s' stepped
        obtain ⟨here, rest⟩ := legal s' stepped
        have next := always s' stepped
        have holds' : P s' := always_head next
        refine ⟨(exact_ s e s' inv here holds stepped).mp holds', ?_⟩
        exact (always_iff_along keep exact_ es s' (keep s e s' inv here stepped) holds' rest).mp next
      · intro along
        refine ⟨holds, fun s' stepped => ?_⟩
        obtain ⟨here, rest⟩ := legal s' stepped
        obtain ⟨meets, along'⟩ := along s' stepped
        have holds' : P s' := (exact_ s e s' inv here holds stepped).mpr meets
        exact (always_iff_along keep exact_ es s' (keep s e s' inv here stepped) holds' rest).mpr
          along'

end Rules

/-! ## What is observed of a run -/

section Observed

variable {τ ω : Type w} {step : σ → ε → Option σ} {observe : σ → ε → List ω}

/-- What an observer writes down of the run, step by step. -/
def observed (step : σ → ε → Option σ) (observe : σ → ε → List ω) : σ → List ε → List ω
  | _, [] => []
  | s, e :: es =>
      match step s e with
      | none => []
      | some s' => observe s e ++ observed step observe s' es

theorem observed_cons {s s' : σ} {e : ε} (stepped : step s e = some s') (es : List ε) :
    observed step observe s (e :: es) = observe s e ++ observed step observe s' es := by
  rw [observed, stepped]

/-- What has been observed of a run was observed of one of its steps. -/
theorem mem_observed {o : ω} : ∀ {es : List ε} {s t : σ}, run step s es = some t →
    o ∈ observed step observe s es → ∃ es₁ e es₂ s₁ s₂, es = es₁ ++ e :: es₂ ∧
      run step s es₁ = some s₁ ∧ step s₁ e = some s₂ ∧ run step s₂ es₂ = some t ∧ o ∈ observe s₁ e
  | [], _, _, _, seen => absurd seen List.not_mem_nil
  | e :: es, s, t, ran, seen => by
      obtain ⟨s', stepped, rest⟩ := run_cons_some.mp ran
      rw [observed_cons stepped] at seen
      rcases List.mem_append.mp seen with here | later
      · exact ⟨[], e, es, s, s', rfl, rfl, stepped, rest, here⟩
      · obtain ⟨es₁, e', es₂, s₁, s₂, rfl, before, there, after, seen'⟩ := mem_observed rest later
        exact ⟨e :: es₁, e', es₂, s₁, s₂, rfl, run_cons_some.mpr ⟨s', stepped, before⟩, there, after,
          seen'⟩

/-- **The refinement rule.**  Let the steps that meet `C` keep `I`, and let each of them be a
run of another system over what is observed of it: none, one or several steps there.  Then
so is every run of them. -/
theorem run_observed {step' : τ → ω → Option τ} {abs : σ → τ} {I : σ → Prop} {C : σ → ε → Prop}
    (keep : ∀ s e s', I s → C s e → step s e = some s' → I s')
    (sim : ∀ s e s', I s → C s e → step s e = some s' →
      run step' (abs s) (observe s e) = some (abs s')) :
    ∀ (es : List ε) (s t : σ), I s → Along step C s es → run step s es = some t →
      run step' (abs s) (observed step observe s es) = some (abs t)
  | [], _, _, _, _, ran => by
      cases ran
      rfl
  | e :: es, s, t, inv, along, ran => by
      obtain ⟨s', stepped, rest⟩ := run_cons_some.mp ran
      obtain ⟨here, along'⟩ := along s' stepped
      rw [observed_cons stepped]
      exact run_append_some.mpr ⟨abs s', sim s e s' inv here stepped,
        run_observed keep sim es s' t (keep s e s' inv here stepped) along' rest⟩

end Observed

/-- **The simulation rule.**  Let each step that meets `C` be matched by a run of another
system, of steps that meet `D`, from any state that `R` relates to one that it relates
again.  Then so is every run of them. -/
theorem run_simulated {τ : Type w} {ω : Type w} {step : σ → ε → Option σ} {step' : τ → ω → Option τ}
    {C : σ → ε → Prop} {D : τ → ω → Prop} {R : σ → τ → Prop}
    (sim : ∀ s e s' t, R s t → C s e → step s e = some s' →
      ∃ fs t', Along step' D t fs ∧ run step' t fs = some t' ∧ R s' t') :
    ∀ (es : List ε) (s s' : σ) (t : τ), R s t → Along step C s es → run step s es = some s' →
      ∃ fs t', Along step' D t fs ∧ run step' t fs = some t' ∧ R s' t'
  | [], _, _, t, related, _, ran => by
      cases ran
      exact ⟨[], t, trivial, rfl, related⟩
  | e :: es, s, s', t, related, along, ran => by
      obtain ⟨s₁, stepped, rest⟩ := run_cons_some.mp ran
      obtain ⟨here, along'⟩ := along s₁ stepped
      obtain ⟨fs, t₁, matched, ran₁, related₁⟩ := sim s e s₁ t related here stepped
      obtain ⟨fs', t', matched', ran', related'⟩ := run_simulated sim es s₁ s' t₁ related₁ along' rest
      refine ⟨fs ++ fs', t', matched.append fun t₂ ran₂ => ?_, run_append_some.mpr ⟨t₁, ran₁, ran'⟩,
        related'⟩
      cases ran₁.symm.trans ran₂
      exact matched'

/-! ## Taking one of the things that are pending -/

section Pending

variable {α : Type u}

theorem perm_eraseIdx {l : List α} {i : ℕ} {a : α} (at_ : l[i]? = some a) :
    l.Perm (a :: l.eraseIdx i) := by
  obtain ⟨bound, rfl⟩ := List.getElem?_eq_some_iff.mp at_
  have split : l = l.take i ++ l[i] :: l.drop (i + 1) := by simp
  rw [List.eraseIdx_eq_take_drop_succ]
  exact (List.Perm.of_eq split).trans List.perm_middle

theorem perm_issued {l rest issued : List α} {a b : α} (perm : l.Perm (a :: rest)) :
    b ∈ rest ++ issued → b ∈ l ∨ b ∈ issued := by
  rw [List.mem_append]
  exact Or.imp_left fun h => perm.mem_iff.mpr (List.mem_cons_of_mem _ h)

theorem perm_kept {l rest issued : List α} {a b : α} (perm : l.Perm (a :: rest))
    (pending : b ∈ l) (other : b ≠ a) : b ∈ rest ++ issued :=
  List.mem_append_left _ ((List.mem_cons.mp (perm.mem_iff.mp pending)).resolve_left other)

end Pending

end JobFinder.Theory
