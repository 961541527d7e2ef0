/-
# Clients.JobBoard -- the clients together are a job board

What the app is for is a board: jobs are put up whole and taken down, and applications are
made and withdrawn under those that are up.  The clients do it in many steps.  A posting is
seven writes, an application a read and a write, a decline two reads and any number of
removals, and between any two of them anything may happen.

A job is up from the last of its writes on.  While every application finds its job and every
last write finds the title, every step of the clients is a step of the board, or none
(`refines_board`); and when no job that stands in the tree is being posted, the lists of the
readers show the board and nothing else (`lists_show_board`).
-/
import JobFinder.Clients.WholeRecords
import JobFinder.Theory.Board

namespace JobFinder.Clients

open JobFinder.Theory JobFinder.Database JobFinder.Model JobFinder.Controller

set_option autoImplicit false

/-- A board of jobs, with the emails of their applicants. -/
abbrev JobBoard := Board String (JobField → Option String) String String

/-- The job under a key, with its applications. -/
def notice (t : JobTree) (k : String) : Notice (JobField → Option String) String String :=
  ⟨t.field k, t.applicant k⟩

/-- The jobs that are up: those in the tree that nobody is posting any more. -/
def board (p : State) : JobBoard := fun k =>
  if k ∈ p.shared ∧ ¬ BeingPosted p k then some (notice p.shared k) else none

/-- What a step of the clients does on the board. -/
def observe (p : State) :
    PoolEvent Task → List (Board.Op String (JobField → Option String) String String)
  | .spawn _ => []
  | .fire i =>
      match p.tasks[i]? with
      | some (.createJob key [(f, v)]) => [.post key (notice (p.shared.setField key f v) key)]
      | some (.fileApplication hashID uuid email) =>
          if (board p hashID).isSome then [.apply hashID uuid email] else []
      | some (.removeJobAt key) => if (board p key).isSome then [.retire key] else []
      | some (.removeApplicantAt job applicant) =>
          if (board p job).isSome then [.withdraw job applicant] else []
      | _ => []

section Steps

variable {E : Enumeration} {t₀ : JobTree} {p p' : State} {e : PoolEvent Task} {k key : String}
  {task : Task} {rest : List Task}

theorem board_up (present : k ∈ p.shared) (settled : ¬ BeingPosted p k) :
    board p k = some (notice p.shared k) := if_pos ⟨present, settled⟩

theorem board_eq_none : board p k = none ↔ (k ∈ p.shared → BeingPosted p k) := by
  unfold board
  split_ifs with up
  · exact iff_of_false (by simp) fun posted => up.2 (posted up.1)
  · exact iff_of_true rfl fun present => by_contra fun settled => up ⟨present, settled⟩

theorem isSome_board : (board p k).isSome ↔ k ∈ p.shared ∧ ¬ BeingPosted p k := by
  unfold board
  split_ifs with up
  · exact iff_of_true rfl up
  · exact iff_of_false (by simp) up

/-- The board only depends on the tree and on what is being posted. -/
theorem board_congr (present : k ∈ p'.shared ↔ k ∈ p.shared)
    (posted : BeingPosted p' k ↔ BeingPosted p k)
    (field : ∀ f, p'.shared.field k f = p.shared.field k f)
    (applicant : ∀ a, p'.shared.applicant k a = p.shared.applicant k a) : board p' k = board p k := by
  by_cases up : k ∈ p.shared ∧ ¬ BeingPosted p k
  · rw [board_up up.1 up.2, board_up (present.mpr up.1) fun posted' => up.2 (posted.mp posted')]
    unfold notice
    rw [funext field, funext applicant]
  · have hidden : board p k = none := if_neg up
    rw [hidden]
    exact if_neg fun up' => up ⟨present.mp up'.1, fun posted' => up'.2 (posted.mpr posted')⟩

/-- Where a callback writes nothing, the board stays as it is. -/
theorem board_fired_of_same (perm : p.tasks.Perm (task :: rest))
    (notWriting : ∀ w writes, task ≠ .createJob k (w :: writes))
    (present : k ∈ (task.exec E p.shared).1 ↔ k ∈ p.shared)
    (field : ∀ f, (task.exec E p.shared).1.field k f = p.shared.field k f)
    (applicant : ∀ a, (task.exec E p.shared).1.applicant k a = p.shared.applicant k a) :
    board (fired E p task rest) k = board p k :=
  board_congr present
    ⟨beingPosted_of_fired perm, fun posted => posted.fired perm notWriting⟩ field applicant

/-- The last write of a job puts it up. -/
theorem board_last {f : JobField} {v : String} (keeping : Keeping t₀ p)
    (perm : p.tasks.Perm (.createJob key [(f, v)] :: rest)) :
    (board p).step (.post key (notice (p.shared.setField key f v) key)) =
      some (board (fired E p (.createJob key [(f, v)]) rest)) := by
  have being : BeingPosted p key := ⟨(f, v), [], perm.mem_iff.mpr List.mem_cons_self⟩
  have settled := keeping.not_beingPosted (E := E) perm (le_refl 1)
  refine Board.step_post (board_eq_none.mpr fun _ => being) ?_ fun k other => ?_
  · exact board_up (JobTree.mem_setField.mpr (.inl rfl)) settled
  · refine board_fired_of_same perm (fun w writes same => ?_) ?_ (fun f' => ?_) fun a => ?_
    · cases same
      exact other rfl
    · exact JobTree.mem_setField.trans (or_iff_right other)
    · exact (JobTree.field_setField ..).trans (if_neg fun both => other both.1)
    · exact JobTree.applicant_setField ..

/-- The other writes of a job do not show. -/
theorem board_write {w w' : JobField × String} {writes : List (JobField × String)}
    (perm : p.tasks.Perm (.createJob key (w :: w' :: writes) :: rest)) :
    board (fired E p (.createJob key (w :: w' :: writes)) rest) = board p := by
  funext k
  by_cases same : k = key
  · subst same
    have being : BeingPosted p k := ⟨w, w' :: writes, perm.mem_iff.mpr List.mem_cons_self⟩
    have being' : BeingPosted (fired E p (.createJob k (w :: w' :: writes)) rest) k :=
      ⟨w', writes, List.mem_append_right _ (List.mem_singleton_self _)⟩
    rw [board_eq_none.mpr fun _ => being, board_eq_none.mpr fun _ => being']
  · refine board_fired_of_same perm (fun _ _ equal => ?_) ?_ (fun f' => ?_) fun a => ?_
    · cases equal
      exact same rfl
    · exact JobTree.mem_setField.trans (or_iff_right same)
    · exact (JobTree.field_setField ..).trans (if_neg fun both => same both.1)
    · exact JobTree.applicant_setField ..

/-- An application is made under a job that is up, or does not show yet. -/
theorem board_file {uuid email : String} (perm : p.tasks.Perm (.fileApplication key uuid email :: rest))
    (found : key ∈ p.shared ∨ BeingPosted p key) :
    run Board.step (board p) (if (board p key).isSome then [.apply key uuid email] else []) =
      some (board (fired E p (.fileApplication key uuid email) rest)) := by
  have notWriting (k : String) (w : JobField × String) (writes : List (JobField × String)) :
      Task.fileApplication key uuid email ≠ .createJob k (w :: writes) := by simp
  have others : ∀ k ≠ key, board (fired E p (.fileApplication key uuid email) rest) k = board p k := by
    intro k other
    refine board_fired_of_same perm (notWriting k) ?_ (fun f => ?_) fun a => ?_
    · exact JobTree.mem_addApplicant.trans (or_iff_right other)
    · exact JobTree.field_addApplicant ..
    · exact (JobTree.applicant_addApplicant ..).trans (if_neg fun both => other both.1)
  split_ifs with up
  · obtain ⟨present, settled⟩ := isSome_board.mp up
    have settled' : ¬ BeingPosted (fired E p (.fileApplication key uuid email) rest) key :=
      fun posted => settled (beingPosted_of_fired perm posted)
    have here : board (fired E p (.fileApplication key uuid email) rest) key =
        some ⟨p.shared.field key, Function.update (p.shared.applicant key) uuid (some email)⟩ := by
      rw [board_up (JobTree.mem_addApplicant.mpr (.inl rfl)) settled']
      congr 1
      simp only [notice, fired, Task.exec, Notice.mk.injEq]
      refine ⟨funext fun f => JobTree.field_addApplicant .., funext fun a => ?_⟩
      rw [JobTree.applicant_addApplicant, Function.update_apply]
      simp
    rw [run_cons, Board.step_apply (board_up present settled) here others]
    rfl
  · have being : BeingPosted p key :=
      found.elim (fun present => by_contra fun settled => up (isSome_board.mpr ⟨present, settled⟩)) id
    have being' := being.fired (E := E) perm (notWriting key)
    have same : board (fired E p (.fileApplication key uuid email) rest) = board p := by
      funext k
      by_cases here : k = key
      · rw [here, board_eq_none.mpr fun _ => being, board_eq_none.mpr fun _ => being']
      · exact others k here
    rw [same]
    rfl

/-- A removal takes down a job that is up, or does not show. -/
theorem board_remove (perm : p.tasks.Perm (.removeJobAt key :: rest)) :
    run Board.step (board p) (if (board p key).isSome then [.retire key] else []) =
      some (board (fired E p (.removeJobAt key) rest)) := by
  have notWriting (k : String) (w : JobField × String) (writes : List (JobField × String)) :
      Task.removeJobAt key ≠ .createJob k (w :: writes) := by simp
  have others : ∀ k ≠ key, board (fired E p (.removeJobAt key) rest) k = board p k := by
    intro k other
    refine board_fired_of_same perm (notWriting k) ?_ (fun f => ?_) fun a => ?_
    · exact JobTree.mem_removeJob.trans (and_iff_right other)
    · exact (JobTree.field_removeJob ..).trans (if_neg other)
    · exact (JobTree.applicant_removeJob ..).trans (if_neg other)
  have gone : board (fired E p (.removeJobAt key) rest) key = none :=
    board_eq_none.mpr fun present => absurd rfl (JobTree.mem_removeJob.mp present).1
  split_ifs with up
  · rw [run_cons, Board.step_retire up gone others]
    rfl
  · have same : board (fired E p (.removeJobAt key) rest) = board p := by
      funext k
      by_cases here : k = key
      · rw [here, gone]
        exact (Option.not_isSome_iff_eq_none.mp up).symm
      · exact others k here
    rw [same]
    rfl

/-- An application is withdrawn from a job that is up, or does not show. -/
theorem board_withdraw {applicant : String} (whole : Whole p)
    (perm : p.tasks.Perm (.removeApplicantAt key applicant :: rest)) :
    run Board.step (board p) (if (board p key).isSome then [.withdraw key applicant] else []) =
      some (board (fired E p (.removeApplicantAt key applicant) rest)) := by
  have notWriting (k : String) (w : JobField × String) (writes : List (JobField × String)) :
      Task.removeApplicantAt key applicant ≠ .createJob k (w :: writes) := by simp
  have others : ∀ k ≠ key, board (fired E p (.removeApplicantAt key applicant) rest) k = board p k := by
    intro k other
    have applicants (a : String) :
        (p.shared.removeApplicant key applicant).applicant k a = p.shared.applicant k a :=
      (JobTree.applicant_removeApplicant ..).trans (if_neg fun both => other both.1)
    refine board_fired_of_same perm (notWriting k) ?_ (fun f => ?_) applicants
    · show k ∈ p.shared.removeApplicant key applicant ↔ k ∈ p.shared
      simp only [JobTree.mem_iff_leaf, JobTree.field_removeApplicant, applicants]
    · exact JobTree.field_removeApplicant ..
  split_ifs with up
  · obtain ⟨present, settled⟩ := isSome_board.mp up
    have settled' : ¬ BeingPosted (fired E p (.removeApplicantAt key applicant) rest) key :=
      fun posted => settled (beingPosted_of_fired perm posted)
    -- a whole record has a title, and stays when its last application goes
    have present' : key ∈ (fired E p (.removeApplicantAt key applicant) rest).shared := by
      obtain ⟨title, titled⟩ := Option.isSome_iff_exists.mp (whole key present settled .title)
      exact JobTree.mem_of_field ((JobTree.field_removeApplicant ..).trans titled)
    have here : board (fired E p (.removeApplicantAt key applicant) rest) key =
        some ⟨p.shared.field key, Function.update (p.shared.applicant key) applicant none⟩ := by
      rw [board_up present' settled']
      congr 1
      simp only [notice, fired, Task.exec, Notice.mk.injEq]
      refine ⟨funext fun f => JobTree.field_removeApplicant .., funext fun a => ?_⟩
      rw [JobTree.applicant_removeApplicant, Function.update_apply]
      simp
    rw [run_cons, Board.step_withdraw (board_up present settled) here others]
    rfl
  · have hidden : board p key = none := Option.not_isSome_iff_eq_none.mp up
    have hidden' : board (fired E p (.removeApplicantAt key applicant) rest) key = none :=
      board_eq_none.mpr fun present => (board_eq_none.mp hidden
        (JobTree.mem_of_mem_removeApplicant present)).fired perm (notWriting key)
    have same : board (fired E p (.removeApplicantAt key applicant) rest) = board p := by
      funext k
      by_cases here : k = key
      · rw [here, hidden, hidden']
      · exact others k here
    rw [same]
    rfl

/-- A callback that writes nothing, of any of the other kinds, does not show. -/
theorem board_read (perm : p.tasks.Perm (task :: rest)) (same : (task.exec E p.shared).1 = p.shared)
    (notWriting : ∀ key w writes, task ≠ .createJob key (w :: writes)) :
    board (fired E p task rest) = board p := by
  funext k
  refine board_fired_of_same perm (notWriting k) ?_ (fun f => ?_) fun a => ?_ <;> rw [same]

/-- A task that is started does not show: what it may post is not in the tree. -/
theorem board_spawn (starts : StartsAnything p (.spawn task)) :
    board { p with tasks := p.tasks ++ [task] } = board p := by
  funext k
  by_cases posts : ∃ writes, task = .createJob k writes
  · obtain ⟨writes, rfl⟩ := posts
    rcases starts _ rfl with tapped | ⟨key, writes', same, _, new⟩ | ⟨_, _, _, same, _⟩
    · cases tapped
    · cases same
      have absent : k ∉ p.shared := fun present => new (.inl present)
      have hidden : board p k = none := board_eq_none.mpr fun present => absurd present absent
      rw [hidden]
      exact board_eq_none.mpr fun present => absurd present absent
    · cases same
  · refine board_congr Iff.rfl ⟨?_, ?_⟩ (fun _ => rfl) fun _ => rfl
    · rintro ⟨w, writes, member⟩
      rcases List.mem_append.mp member with before | now
      · exact ⟨w, writes, before⟩
      · exact absurd ⟨_, (List.mem_singleton.mp now).symm⟩ posts
    · rintro ⟨w, writes, member⟩
      exact ⟨w, writes, List.mem_append_left _ member⟩

/-- **One step of the clients is a step of the board, or none.** -/
theorem board_step (keeping : Keeping t₀ p) (whole : Whole p) (starts : StartsAnything p e)
    (files : FilesUnderPosted p e) (stepped : step E p e = some p') :
    run Board.step (board p) (observe p e) = some (board p') := by
  rcases Pool.step_cases stepped with ⟨task, rfl, rfl⟩ | ⟨i, task, rest, rfl, at_, perm, rfl⟩
  · rw [board_spawn starts]
    rfl
  show run Board.step (board p) (observe p (.fire i)) = some (board (fired E p task rest))
  unfold observe
  simp only [at_]
  cases task with
  | createJob key writes =>
      rcases writes with _ | ⟨⟨f, v⟩, _ | ⟨w', writes⟩⟩
      · rw [board_read perm rfl (by simp)]
        rfl
      · rw [run_cons, board_last keeping perm]
        rfl
      · rw [board_write perm]
        rfl
  | fileApplication hashID uuid email => exact board_file perm (files i hashID uuid email rfl at_)
  | removeJobAt key => exact board_remove perm
  | removeApplicantAt job applicant => exact board_withdraw whole perm
  | applyToJob jobID uuid email =>
      have same : ((Task.applyToJob jobID uuid email).exec E p.shared).1 = p.shared := by
        simp only [Task.exec]
        split <;> rfl
      rw [board_read perm same (by simp)]
      rfl
  | removeJob jobIndex =>
      rw [board_read perm rfl (by simp)]
      rfl
  | removeApplication email jobTitle =>
      rw [board_read perm rfl (by simp)]
      rfl
  | removeApplicationIn email jobTitle jobs =>
      rw [board_read perm rfl (by simp)]
      rfl
  | declineApplicant applicants tag =>
      rw [board_read perm rfl (by simp)]
      rfl

/-- What shows on the board is the write of a callback. -/
theorem mem_observe {op : Board.Op String (JobField → Option String) String String}
    (seen : op ∈ observe p e) : ∃ i task, e = .fire i ∧ p.tasks[i]? = some task ∧
      ((∃ key f v, task = .createJob key [(f, v)] ∧
          op = .post key (notice (p.shared.setField key f v) key)) ∨
        (∃ key a email, task = .fileApplication key a email ∧ op = .apply key a email) ∨
        (∃ key, task = .removeJobAt key ∧ op = .retire key) ∨
        ∃ key a, task = .removeApplicantAt key a ∧ op = .withdraw key a) := by
  cases e with
  | spawn task => cases seen
  | fire i =>
      simp only [observe] at seen
      split at seen
      · rename_i key f v at_
        exact ⟨i, _, rfl, at_, .inl ⟨key, f, v, rfl, List.mem_singleton.mp seen⟩⟩
      · rename_i key a email at_
        split_ifs at seen
        · exact ⟨i, _, rfl, at_, .inr (.inl ⟨key, a, email, rfl, List.mem_singleton.mp seen⟩)⟩
        · cases seen
      · rename_i key at_
        split_ifs at seen
        · exact ⟨i, _, rfl, at_, .inr (.inr (.inl ⟨key, rfl, List.mem_singleton.mp seen⟩))⟩
        · cases seen
      · rename_i key a at_
        split_ifs at seen
        · exact ⟨i, _, rfl, at_, .inr (.inr (.inr ⟨key, a, rfl, List.mem_singleton.mp seen⟩))⟩
        · cases seen
      · cases seen

/-- What puts a job up is the last write of one. -/
theorem observe_post {up : Notice (JobField → Option String) String String}
    (seen : .post key up ∈ observe p e) : ∃ i f v, e = .fire i ∧
      p.tasks[i]? = some (.createJob key [(f, v)]) ∧ up = notice (p.shared.setField key f v) key := by
  obtain ⟨i, task, rfl, at_, kind⟩ := mem_observe seen
  rcases kind with ⟨_, f, v, rfl, same⟩ | ⟨_, _, _, _, same⟩ | ⟨_, _, same⟩ | ⟨_, _, _, same⟩
  · cases same
    exact ⟨i, f, v, rfl, at_, rfl⟩
  · cases same
  · cases same
  · cases same

/-- The job that is put up is whole, as the client began to post it. -/
theorem observed_whole {up : Notice (JobField → Option String) String String}
    (keeping : Keeping t₀ p) (titled : EndsTitled p e) (stepped : step E p e = some p')
    (seen : .post key up ∈ observe p e) :
    ∃ writes, Began p' key writes ∧ up.data = JobField.leaves writes := by
  obtain ⟨i, f, v, rfl, at_, rfl⟩ := observe_post seen
  rcases Pool.step_cases stepped with ⟨task, impossible, _⟩ | ⟨i', task, rest, same, at_', perm, rfl⟩
  · cases impossible
  cases same
  cases at_.symm.trans at_'
  obtain ⟨made, draft⟩ := keeping.draft key [(f, v)] (perm.mem_iff.mpr List.mem_cons_self)
  have next : Draft (fired E p (.createJob key [(f, v)]) rest) key (made ++ [(f, v)]) [] := draft.next
  have began := next.began (by simp)
  rw [List.append_nil] at began
  exact ⟨_, began, funext (draft.last (titled i key (f, v) rfl at_))⟩

end Steps

/-- The conditions under which the clients are a board. -/
def InTime (p : State) (e : PoolEvent Task) : Prop := FilesUnderPosted p e ∧ EndsTitled p e

/-- They can be read off the task that fires. -/
def Task.inTime (p : State) : Task → Bool
  | .fileApplication hashID _ _ => decide (hashID ∈ p.shared ∨ BeingPosted p hashID)
  | .createJob key [_] => (p.shared.field key .title).isSome
  | _ => true

theorem inTime_fire {p : State} {i : ℕ} :
    InTime p (.fire i) ↔ ∀ task ∈ p.tasks[i]?, task.inTime p = true := by
  rw [InTime, filesUnderPosted_fire, endsTitled_fire]
  constructor
  · rintro ⟨files, ends⟩ task at_
    unfold Task.inTime
    split
    · exact decide_eq_true (files _ at_ _ _ _ rfl)
    · exact ends _ at_ _ _ rfl
    · rfl
  · intro all
    refine ⟨fun task at_ hashID uuid email same => ?_, fun task at_ key w same => ?_⟩ <;> subst same
    · exact of_decide_eq_true (all _ at_)
    · exact all _ at_

theorem inTime_spawn {p : State} (task : Task) : InTime p (.spawn task) := by
  refine ⟨fun i hashID uuid email same => ?_, fun i key w same => ?_⟩ <;> cases same

instance (p : State) : (e : PoolEvent Task) → Decidable (InTime p e)
  | .spawn task => isTrue (inTime_spawn task)
  | .fire _ => decidable_of_iff _ inTime_fire.symm

theorem keeping_whole_run {E : Enumeration} {t : JobTree} {es : List (PoolEvent Task)} {p p' : State}
    (both : Keeping t p ∧ Whole p)
    (along : Along (step E) (fun p e => StartsAnything p e ∧ InTime p e) p es)
    (ran : run (step E) p es = some p') : Keeping t p' ∧ Whole p' :=
  invariant_of_along (I := fun p => Keeping t p ∧ Whole p)
    (fun _ _ _ both here stepped =>
      ⟨both.1.step here.1 stepped, (whole_step_iff both.1 both.2 here.1 stepped).mpr here.2⟩)
    es _ _ both along ran

theorem keeping_whole {E : Enumeration} {t : JobTree} (complete : t.Complete)
    {es : List (PoolEvent Task)} (starts : Along (step E) StartsAnything (.idle t) es)
    (inTime : Along (step E) InTime (.idle t) es) {p : State}
    (ran : run (step E) (.idle t) es = some p) : Keeping t p ∧ Whole p :=
  keeping_whole_run ⟨.initially t, fun _ present _ => complete.record present⟩ (starts.and inTime) ran

section Observed

variable {E : Enumeration} {t : JobTree} {es : List (PoolEvent Task)} {p : State} {key : String}

/-- What is observed of the clients is a run of the board. -/
theorem run_board (complete : t.Complete) (starts : Along (step E) StartsAnything (.idle t) es)
    (inTime : Along (step E) InTime (.idle t) es) (ran : run (step E) (.idle t) es = some p) :
    run Board.step (board (.idle t)) (observed (step E) observe (.idle t) es) = some (board p) :=
  run_observed (I := fun p => Keeping t p ∧ Whole p)
    (fun _ _ _ both here stepped =>
      ⟨both.1.step here.1 stepped, (whole_step_iff both.1 both.2 here.1 stepped).mpr here.2⟩)
    (fun _ _ _ both here stepped => board_step both.1 both.2 here.1 here.2.1 stepped)
    es _ _ ⟨.initially t, fun _ present _ => complete.record present⟩ (starts.and inTime) ran

theorem began_of_observed (complete : t.Complete)
    (starts : Along (step E) StartsAnything (.idle t) es)
    (inTime : Along (step E) InTime (.idle t) es) (ran : run (step E) (.idle t) es = some p)
    {up : Notice (JobField → Option String) String String}
    (seen : .post key up ∈ observed (step E) observe (.idle t) es) :
    ∃ writes, Began p key writes ∧ up.data = JobField.leaves writes := by
  obtain ⟨es₁, e, es₂, p₁, p₂, rfl, before, stepped, after, seen⟩ := mem_observed ran seen
  have keeping := (keeping_whole complete starts.of_append.1 inTime.of_append.1 before).1
  have titled := ((inTime.of_append.2 p₁ before) p₂ stepped).1.2
  obtain ⟨writes, began, whole⟩ := observed_whole keeping titled stepped seen
  exact ⟨writes, began.run after, whole⟩

/-- What shows on the board has fired. -/
theorem heard_of_observed {op : Board.Op String (JobField → Option String) String String}
    (ran : run (step E) (.idle t) es = some p)
    (seen : op ∈ observed (step E) observe (.idle t) es) : ∃ task s, (task, s) ∈ p.history ∧
      ((∃ key f v, task = .createJob key [(f, v)] ∧ op = .post key (notice (s.setField key f v) key)) ∨
        (∃ key a email, task = .fileApplication key a email ∧ op = .apply key a email) ∨
        (∃ key, task = .removeJobAt key ∧ op = .retire key) ∨
        ∃ key a, task = .removeApplicantAt key a ∧ op = .withdraw key a) := by
  obtain ⟨es₁, e, es₂, p₁, p₂, rfl, before, stepped, after, seen⟩ := mem_observed ran seen
  obtain ⟨i, task, rfl, at_, kind⟩ := mem_observe seen
  refine ⟨task, p₁.shared, ?_, kind⟩
  refine invariant_of_run (I := fun p => (task, p₁.shared) ∈ p.history)
    (fun p e p' heard stepped => ?_) ?_ after
  · rcases Pool.step_cases stepped with ⟨_, rfl, rfl⟩ | ⟨_, _, _, _, _, _, rfl⟩
    · exact heard
    · exact List.mem_cons_of_mem _ heard
  · have fired : step E p₁ (.fire i) = some _ := Pool.step_fire at_
    cases fired.symm.trans stepped
    exact List.mem_cons_self

end Observed

/-- **The clients refine the job board.**  Let any number of clients post, apply for, decline
and remove jobs, with every application finding its job and every last write the title.
What is observed of the run is a run of the board, from the jobs there were to the jobs that
are up now; and every job that was put up in it is whole, with all its fields as one client
began to post them under that key. -/
theorem refines_board {E : Enumeration} {t : JobTree} (complete : t.Complete)
    {es : List (PoolEvent Task)} (starts : Along (step E) StartsAnything (.idle t) es)
    (inTime : Along (step E) InTime (.idle t) es) {p : State}
    (ran : run (step E) (.idle t) es = some p) :
    run Board.step (board (.idle t)) (observed (step E) observe (.idle t) es) = some (board p) ∧
      ∀ key up, .post key up ∈ observed (step E) observe (.idle t) es →
        ∃ writes, Began p key writes ∧ up.data = JobField.leaves writes :=
  ⟨run_board complete starts inTime ran,
    fun _ _ seen => began_of_observed complete starts inTime ran seen⟩

theorem annsPosting_inTime : Along (step .inserted) InTime (.idle .empty) annsPosting := by
  decide +kernel

theorem annBobAndEve_inTime : Along (step .inserted) InTime (.idle .empty) annBobAndEve := by
  decide +kernel

set_option maxRecDepth 2048 in
theorem refines_board_annBobAndEve :
    ∃ p, run (step .inserted) (.idle .empty) annBobAndEve = some p ∧
      (observed (step .inserted) observe (.idle .empty) annBobAndEve).length = 4 ∧
      run Board.step (board (.idle .empty))
          (observed (step .inserted) observe (.idle .empty) annBobAndEve) = some (board p) ∧
      ∀ key up, .post key up ∈ observed (step .inserted) observe (.idle .empty) annBobAndEve →
        ∃ writes, Began p key writes ∧ up.data = JobField.leaves writes :=
  ⟨_, rfl, by decide +kernel,
    refines_board JobTree.complete_empty annBobAndEve_starts annBobAndEve_inTime rfl⟩

/-! ## What the readers see of the board -/

/-- The rows of the three lists, loaded from the tree, are the jobs of the board, the user's
own jobs among them, and the applications under the user's own jobs: each in one row.  A row
of the new jobs opens on a device exactly if the coordinates on the board can be loaded. -/
structure ListsShow (E : Enumeration) (me : String) (t : JobTree) (b : JobBoard) : Prop where
  newJobs : Set.BijOn (fun row => (Explore.displayed E t row).getD "")
    (Set.Iio (Explore.listed E t).count) {k | (b k).isSome}
  myPostedJobs : Set.BijOn (fun row => (PostedJobs.displayed E me t row).getD "")
    (Set.Iio (PostedJobs.listed E me t).count)
    {k | ∃ up, b k = some up ∧ up.data .jobPoster = some me}
  applicants : Set.BijOn (fun row => (ShowApplicants.displayed E me t row).getD ("", ""))
    (Set.Iio (ShowApplicants.listed E me t).count)
    {entry | ∃ up, b entry.1 = some up ∧ up.data .jobPoster = some me ∧
      (up.applications entry.2).isSome}
  opens : ∀ manager, ∀ row < (Explore.listed E t).count, ∀ k up,
    Explore.displayed E t row = some k → b k = some up →
      (JobListing.Opens E manager (Explore.listed E t) row ↔
        JobListing.LoadableCoordinates manager up.data)

section Readers

variable {E : Enumeration} {me : String} {t : JobTree}

/-- The rows of the list of new jobs are the jobs of the tree. -/
theorem newJobs_bijOn (E : Enumeration) (t : JobTree) :
    Set.BijOn (fun row => (Explore.displayed E t row).getD "")
      (Set.Iio (Explore.listed E t).count) {k | k ∈ t} := by
  have keys : {k | k ∈ (Explore.newEntries E t).map Sigma.fst} = {k | k ∈ t} := by
    ext k
    rw [Explore.newEntries, List.map_reverse]
    exact List.mem_reverse.trans JobTree.mem_keys
  rw [← keys, Explore.count_listed]
  exact Counted.rowKey_bijOn E (Explore.nodup_newEntries E t) ""

/-- The rows of the user's own list are the user's jobs. -/
theorem myPostedJobs_bijOn (loaded : (PostedJobs.ownJobs E me t).trap = none) :
    Set.BijOn (fun row => (PostedJobs.displayed E me t row).getD "")
      (Set.Iio (PostedJobs.listed E me t).count) {k | k ∈ t ∧ t.field k .jobPoster = some me} := by
  have keys : {k | k ∈ (PostedJobs.ownJobs E me t).out.map Sigma.fst} =
      {k | k ∈ t ∧ t.field k .jobPoster = some me} := by
    ext k
    constructor
    · intro member
      obtain ⟨⟨_, data⟩, own, rfl⟩ := List.mem_map.mp member
      obtain ⟨present, rfl, poster⟩ := (PostedJobs.mem_ownJobs loaded).mp own
      exact ⟨present, poster⟩
    · rintro ⟨present, poster⟩
      exact List.mem_map.mpr ⟨_, (PostedJobs.mem_ownJobs loaded).mpr ⟨present, rfl, poster⟩, rfl⟩
  rw [← keys, PostedJobs.count_listed]
  exact Counted.rowKey_bijOn E (PostedJobs.nodup_ownJobs loaded) ""

end Readers

/-- Where every record is whole and no job in the tree is being posted, the lists show the
board. -/
theorem lists_show {p : State} (whole : Whole p) (settled : ∀ k ∈ p.shared, ¬ BeingPosted p k)
    (E : Enumeration) (me : String) : Readable E me p.shared ∧ ListsShow E me p.shared (board p) := by
  have complete' : p.shared.Complete := fun k present => whole k present (settled k present)
  have up {k : String} (present : k ∈ p.shared) : board p k = some (notice p.shared k) :=
    board_up present (settled k present)
  have present {k : String} {n} (is : board p k = some n) : k ∈ p.shared ∧ n = notice p.shared k := by
    have there : k ∈ p.shared := (isSome_board.mp (by rw [is]; rfl)).1
    exact ⟨there, Option.some.inj (is.symm.trans (up there))⟩
  refine ⟨readable_complete E me complete', ?_, ?_, ?_, fun manager row below k n shown is => ?_⟩
  · have keys : {k | (board p k).isSome} = {k | k ∈ p.shared} :=
      Set.ext fun k => isSome_board.trans (and_iff_left_of_imp (settled k))
    rw [keys]
    exact newJobs_bijOn E p.shared
  · have keys : {k | ∃ n, board p k = some n ∧ n.data .jobPoster = some me} =
        {k | k ∈ p.shared ∧ p.shared.field k .jobPoster = some me} := by
      ext k
      constructor
      · rintro ⟨n, is, poster⟩
        obtain ⟨there, rfl⟩ := present is
        exact ⟨there, poster⟩
      · rintro ⟨there, poster⟩
        exact ⟨_, up there, poster⟩
    rw [keys]
    exact myPostedJobs_bijOn (PostedJobs.ownJobs_complete complete')
  · have keys : {entry : String × String | ∃ n, board p entry.1 = some n ∧
        n.data .jobPoster = some me ∧ (n.applications entry.2).isSome} =
        ShowApplicants.ownEntries me p.shared := by
      ext entry
      constructor
      · rintro ⟨n, is, poster, filed⟩
        obtain ⟨there, rfl⟩ := present is
        exact ⟨poster, Option.isSome_iff_exists.mp filed⟩
      · rintro ⟨poster, email, filed⟩
        exact ⟨_, up (JobTree.mem_of_field poster), poster, Option.isSome_iff_exists.mpr ⟨email, filed⟩⟩
    rw [keys]
    exact (ShowApplicants.rowsStandFor_listed E me complete').bijOn
  · obtain ⟨_, rfl⟩ := present is
    exact JobListing.row_opens_iff manager complete' below shown

/-- **What is read is the board.**  At any moment of such a run, if no job that stands in
the tree is being posted, the three lists of every user can be loaded and shown, and their
rows are the jobs that are up, the user's own among them, and the applications under those;
and a row of the new jobs opens on a device exactly if the coordinates that are up can be
loaded there. -/
theorem lists_show_board {E : Enumeration} {t : JobTree} (complete : t.Complete)
    {es : List (PoolEvent Task)} (starts : Along (step E) StartsAnything (.idle t) es)
    (inTime : Along (step E) InTime (.idle t) es) {p : State}
    (ran : run (step E) (.idle t) es = some p) (settled : ∀ k ∈ p.shared, ¬ BeingPosted p k)
    (me : String) : Readable E me p.shared ∧ ListsShow E me p.shared (board p) :=
  lists_show (keeping_whole complete starts inTime ran).2 settled E me

theorem lists_show_board_ann :
    ∃ p, run (step .inserted) (.idle .empty) annsPosting = some p ∧ "b" ∈ p.shared ∧
      Readable .inserted "ann@x" p.shared ∧ ListsShow .inserted "ann@x" p.shared (board p) := by
  refine ⟨_, rfl, by decide +kernel, lists_show_board JobTree.complete_empty annsPosting_starts
    annsPosting_inTime rfl ?_ "ann@x"⟩
  rintro k - ⟨w, writes, pending⟩
  cases List.mem_singleton.mp pending

end JobFinder.Clients
