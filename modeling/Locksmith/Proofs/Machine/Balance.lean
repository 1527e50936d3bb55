import Locksmith.Proofs.Machine.Correspondence
import Locksmith.Proofs.Machine.Denial

namespace Locksmith

variable {m : Type → Type} [Monad m] {α β : Type}

abbrev Messages := List (Dbref × Bytes)

def World.overheard (w : World m) : World (StateT Messages m) where
  isValid object := StateT.lift (w.isValid object)
  owner object := StateT.lift (w.owner object)
  carries carrier object := StateT.lift (w.carries carrier object)
  lock object name := StateT.lift (w.lock object name)
  canReadLock viewer object name := StateT.lift (w.canReadLock viewer object name)
  canReadAttribute viewer object name := StateT.lift (w.canReadAttribute viewer object name)
  attr object name := StateT.lift (w.attr object name)
  evalAttribute object name enactor := StateT.lift (w.evalAttribute object name enactor)
  hasFlagClass name subject viewer pattern :=
    StateT.lift (w.hasFlagClass name subject viewer pattern)
  canSeeConnection viewer subject := StateT.lift (w.canSeeConnection viewer subject)
  leastIdle subject := StateT.lift (w.leastIdle subject)
  canSeeChannel viewer channel := StateT.lift (w.canSeeChannel viewer channel)
  onChannel subject channel := StateT.lift (w.onChannel subject channel)
  notify object message := fun heard => do
    w.notify object message
    pure ((), heard ++ [(object, message)])
  log record := StateT.lift (w.log record)

def Machine.overheard (v : Machine m) : Machine (StateT Messages m) :=
  ⟨v.world.overheard, v.classes, v.maxDepth⟩

variable [LawfulMonad m]

namespace Correspondence

/-- The first computation is the second, and says nothing. -/
def silent : Correspondence (StateT Messages m) m where
  rel x y := ∀ heard, x.run heard = (fun a => (a, heard)) <$> y
  pure a heard := by rw [StateT.run_pure, map_pure]
  bind hx hf heard := by
    rw [StateT.run_bind, hx, bind_map_left, map_bind]
    exact bind_congr fun a => hf a heard

/-- The first computation is the second, but for what it says. -/
def unheard : Correspondence (StateT Messages m) m where
  rel x y := ∀ heard, Prod.fst <$> x.run heard = y
  pure a heard := by rw [StateT.run_pure, map_pure]
  bind hx hf heard := by
    rw [StateT.run_bind, map_bind, ← hx heard, bind_map_left]
    exact bind_congr fun out => hf out.1 out.2

theorem silent_lift (y : m α) : silent.rel (StateT.lift y) y := by
  intro heard
  rw [StateT.run_lift, map_eq_pure_bind]

theorem unheard_of_silent {x : StateT Messages m α} {y : m α} (h : silent.rel x y) :
    unheard.rel x y := by
  intro heard
  rw [h heard, ← comp_map]
  exact id_map y

theorem silent_overheard (w : World m) : silent.Answers w.overheard w where
  isValid _ := silent_lift _
  owner _ := silent_lift _
  carries _ _ := silent_lift _
  lock _ _ := silent_lift _
  canReadLock _ _ _ := silent_lift _
  canReadAttribute _ _ _ := silent_lift _
  attr _ _ := silent_lift _
  evalAttribute _ _ _ := silent_lift _
  hasFlagClass _ _ _ _ := silent_lift _
  canSeeConnection _ _ := silent_lift _
  leastIdle _ := silent_lift _
  canSeeChannel _ _ := silent_lift _
  onChannel _ _ := silent_lift _
  log _ := silent_lift _

theorem unheard_overheard (v : Machine m) : unheard.Machines v.overheard v := by
  refine ⟨?_, fun object message heard => ?_, rfl, rfl⟩
  · constructor
    all_goals
      intros
      exact unheard_of_silent (silent_lift _)
  · change Prod.fst <$> (v.world.notify object message
        >>= fun _ => Pure.pure ((), heard ++ [(object, message)])) = _
    rw [map_bind]
    simp only [map_pure]
    exact bind_pure _

end Correspondence

/-- Begun when `heard` has been said, `x` ends with an outcome, marks and messages that satisfy
`p`. -/
def Ends (heard : Messages) (p : α → List Mark → Messages → Prop)
    (x : Transcribed (StateT Messages m) α) : Prop :=
  Always (fun out => p out.1.1 out.1.2 out.2) (x.run.run heard)

namespace Ends

variable {heard : Messages} {p : α → List Mark → Messages → Prop}
  {q : β → List Mark → Messages → Prop} {x : Transcribed (StateT Messages m) α}
  {f : α → Transcribed (StateT Messages m) β}

theorem pure {a : α} (h : p a [] heard) :
    Ends heard p (Pure.pure a : Transcribed (StateT Messages m) α) :=
  Always.pure h

theorem bind (hx : Ends heard p x)
    (hf : ∀ a marks heard', p a marks heard' →
      Ends heard' (fun b marks' => q b (marks ++ marks')) (f a)) :
    Ends heard q (x >>= f) := by
  unfold Ends
  rw [WriterT.run_bind, StateT.run_bind]
  refine Always.bind hx ?_
  rintro ⟨⟨a, marks⟩, heard'⟩ h
  rw [StateT.run_map]
  exact .map (hf a marks heard' h)

theorem lift_bind {y : StateT Messages m α} {r : α → Messages → Prop}
    (hy : Always (fun out => r out.1 out.2) (y.run heard))
    (hf : ∀ a heard', r a heard' → Ends heard' q (f a)) : Ends heard q (liftM y >>= f) := by
  refine .bind (p := fun a marks heard' => marks = [] ∧ r a heard') ?_ ?_
  · change Always _ (((fun a => (a, [])) <$> y).run heard)
    rw [StateT.run_map]
    exact .map (hy.imp fun _ h => ⟨rfl, h⟩)
  · rintro a _ heard' ⟨rfl, h⟩
    exact hf a heard' h

theorem silent_bind {y : StateT Messages m α} {z : m α} (hy : Correspondence.silent.rel y z)
    (hf : ∀ a, Ends heard q (f a)) : Ends heard q (liftM y >>= f) := by
  refine .lift_bind (r := fun _ heard' => heard' = heard) ?_ ?_
  · rw [hy heard]
    exact .map (.of_forall (fun _ => rfl) z)
  · rintro a _ rfl
    exact hf a

theorem note_bind {marks : List Mark}
    (hx : Ends heard (fun a marks' => p a (marks ++ marks')) x) :
    Ends heard p (note marks >>= fun _ => x) := by
  refine .bind (p := fun _ marks' heard' => marks' = marks ∧ heard' = heard)
    (Always.pure ⟨rfl, rfl⟩) ?_
  rintro _ _ _ ⟨rfl, rfl⟩
  exact hx

theorem imp {q : α → List Mark → Messages → Prop} (hx : Ends heard p x)
    (h : ∀ a marks heard', p a marks heard' → q a marks heard') : Ends heard q x :=
  Always.imp hx fun _ => h _ _ _

end Ends

/-- What a part of a run may do: it ends as deep as it began, it goes only as deep as allowed,
and it tells the subject that this is too deep the first time that it would go deeper. -/
structure Course (maxDepth : Nat) (subject : Dbref) (st : EvalState) (heard : Messages)
    (marks : List Mark) (st' : EvalState) (heard' : Messages) : Prop where
  within : ∀ d, .reached d ∈ marks → st.depth ≤ d ∧ d ≤ max st.depth maxDepth
  depth : st'.depth = st.depth
  notified : st'.notified = (st.notified || decide (.denied .tooDeep ∈ marks))
  heard : heard' = heard ++
    if st.notified = false ∧ .denied .tooDeep ∈ marks then [(subject, recursionMessage)] else []

namespace Course

variable {maxDepth : Nat} {subject : Dbref} {st st' st'' : EvalState}
  {heard heard' heard'' : Messages} {marks marks' : List Mark}

/-- Nothing of note happens. -/
theorem idle (h : ∀ k ∈ marks, (∀ d, k ≠ .reached d) ∧ k ≠ .denied .tooDeep) :
    Course maxDepth subject st heard marks st heard := by
  have hdeep : .denied .tooDeep ∉ marks := fun hmem => (h _ hmem).2 rfl
  refine ⟨fun d hd => absurd rfl ((h _ hd).1 d), rfl, ?_, ?_⟩
  · rw [decide_eq_false hdeep, Bool.or_false]
  · rw [if_neg fun h => hdeep h.2, List.append_nil]

theorem reached : Course maxDepth subject st heard [.reached st.depth] st heard := by
  refine ⟨?_, rfl, ?_, ?_⟩
  · rintro d (_ | ⟨_, ⟨⟩⟩)
    exact ⟨le_refl _, le_max_left _ _⟩
  · simp
  · simp

theorem trans (h : Course maxDepth subject st heard marks st' heard')
    (h' : Course maxDepth subject st' heard' marks' st'' heard'') :
    Course maxDepth subject st heard (marks ++ marks') st'' heard'' := by
  refine ⟨?_, h'.depth.trans h.depth, ?_, ?_⟩
  · intro d hd
    rcases List.mem_append.1 hd with hd | hd
    · exact h.within d hd
    · rw [← h.depth]
      exact h'.within d hd
  · rw [h'.notified, h.notified]
    simp [Bool.or_assoc]
  · rw [h'.heard, h.heard, h.notified, List.append_assoc]
    congr 1
    cases st.notified with
    | true => simp
    | false => by_cases hm : .denied .tooDeep ∈ marks <;> simp [hm]

/-- A part of the run one level deeper. -/
theorem nest (hlt : st.depth < maxDepth)
    (h : Course maxDepth subject { st with depth := st.depth + 1 } heard marks st' heard') :
    Course maxDepth subject st heard (.reached (st.depth + 1) :: marks) (Machine.leave st')
      heard' := by
  refine ⟨?_, ?_, ?_, ?_⟩
  · intro d hd
    rcases List.mem_cons.1 hd with hd | hd
    · cases hd
      exact ⟨Nat.le_succ _, le_max_of_le_right hlt⟩
    · have := h.within d hd
      simp only at this
      omega
  · rw [Machine.leave, h.depth]
    rfl
  · rw [Machine.leave, h.notified]
    simp
  · rw [h.heard]
    simp

end Course

namespace Machine

variable {v : Machine m} {subject target object : Dbref} {code name text : Bytes}
  {st : EvalState} {heard : Messages}
  {noted : Dbref → LockCode → EvalState → Transcribed (StateT Messages m) (Bool × EvalState)}
  {texts : Int32 → Except Fault Bytes} {pc : Nat} {insn : Insn} {result : Bool}

/-- The run takes its course. -/
def Keeps (v : Machine m) (subject : Dbref) (st : EvalState) (heard : Messages)
    (x : Transcribed (StateT Messages m) (α × EvalState)) : Prop :=
  Ends heard (fun out marks heard' => Course v.maxDepth subject st heard marks out.2 heard') x

theorem noteAnswer_keeps (answer : Bool) : v.Keeps subject st heard (noteAnswer answer st) :=
  .note_bind (.pure (.idle (by simp)))

/-- What comes of going one level deeper, or of being refused. -/
def Enters (v : Machine m) (subject : Dbref) (st : EvalState) (heard : Messages) :
    Bool × EvalState → Messages → Prop
  | (true, st'), heard' =>
    st.depth < v.maxDepth ∧ st' = { st with depth := st.depth + 1 } ∧ heard' = heard
  | (false, st'), heard' => Course v.maxDepth subject st heard [.denied .tooDeep] st' heard'

theorem enter_overheard (v : Machine m) (subject : Dbref) (st : EvalState) (heard : Messages) :
    Always (fun out => v.Enters subject st heard out.1 out.2)
      ((v.overheard.enter subject st).run heard) := by
  unfold enter
  split
  · rename_i hlt
    exact .pure ⟨hlt, rfl, rfl⟩
  split
  · rename_i hst
    exact .pure ⟨nofun, rfl, by simp [hst], by simp [hst]⟩
  · rename_i hst
    rw [StateT.run_bind]
    refine .bind (p := fun out => out.2 = heard ++ [(subject, recursionMessage)]) ?_ ?_
    · exact .bind (.of_forall (fun _ => trivial) _) fun _ _ => .pure rfl
    · rintro ⟨_, _⟩ rfl
      exact .pure ⟨nofun, rfl, by simp, by simp [hst]⟩

theorem noteIndirect_keeps
    (hn : ∀ object code st heard, v.Keeps subject st heard (noted object code st)) :
    v.Keeps subject st heard
      (v.overheard.noteIndirect noted subject target object name st) := by
  have hw := Correspondence.silent_overheard v.world
  refine .silent_bind (hw.isValid object) fun valid => ?_
  split
  · exact noteAnswer_keeps false
  refine .silent_bind (hw.canReadLock target object name) fun readable => ?_
  split
  · exact noteAnswer_keeps false
  refine .lift_bind (r := v.Enters subject st heard) (v.enter_overheard subject st heard) ?_
  rintro ⟨entered, st'⟩ heard₁ h
  cases entered with
  | false => exact .note_bind (.pure h)
  | true =>
    obtain ⟨hlt, rfl, rfl⟩ := h
    refine .note_bind (.silent_bind (hw.lock object name) fun fetched => ?_)
    -- being entered is nothing of note here, what follows is one level deeper
    have entered {marks : List Mark} {st' : EvalState} {heard' : Messages}
        (h : Course v.maxDepth subject { st with depth := st.depth + 1 } heard₁ marks
          st' heard') :
        Course v.maxDepth subject st heard₁
          ([.entered target object name, .reached (st.depth + 1)] ++ marks)
          (leave st') heard' := by
      have hidle :
          Course v.maxDepth subject st heard₁ [.entered target object name] st heard₁ :=
        .idle (by simp)
      exact hidle.trans (h.nest hlt)
    cases fetched with
    | error e =>
      refine .silent_bind (hw.log _) fun _ => .note_bind (.pure ?_)
      have hidle : Course v.maxDepth subject { st with depth := st.depth + 1 } heard₁
          [.denied (.unfetched object name e)] { st with depth := st.depth + 1 } heard₁ :=
        .idle (by simp)
      exact entered hidle
    | ok code =>
      refine .bind (hn object code _ heard₁) fun out marks heard' h => .pure ?_
      rw [List.append_nil]
      exact entered h

theorem noteEval_keeps {pattern : Bytes} :
    v.Keeps subject st heard (v.overheard.noteEval subject target name pattern st) := by
  have hw := Correspondence.silent_overheard v.world
  refine .silent_bind (hw.canReadAttribute target target name) fun readable => ?_
  split
  · exact noteAnswer_keeps false
  refine .lift_bind (r := v.Enters subject st heard) (v.enter_overheard subject st heard) ?_
  rintro ⟨entered, st'⟩ heard₁ h
  cases entered with
  | false => exact .note_bind (.pure h)
  | true =>
    obtain ⟨hlt, rfl, rfl⟩ := h
    refine .note_bind (.silent_bind (hw.evalAttribute target name subject) fun value => ?_)
    cases value with
    | error e =>
      refine .silent_bind (hw.log _) fun _ => .note_bind (.pure ?_)
      exact .nest hlt (.idle (by simp))
    | ok value => exact .note_bind (.pure (.nest hlt (.idle (by simp))))

/-- The state after an action in state `st`. -/
def Action.state (st : EvalState) : Action → EvalState
  | .next _ _ st' => st'
  | .jump => st
  | .done _ st' => st'

theorem execute_state {nested : Dbref → LockCode → EvalState → m (Bool × EvalState)}
    (hi : insn.op ≠ .testIndirect) (he : insn.op ≠ .testEval) :
    Always (fun action : Action => action.state st = st)
      (v.execute nested texts subject target pc insn result text st) := by
  obtain ⟨op, arg⟩ := insn
  have tested (x : m Bool) :
      Always (fun action : Action => action.state st = st) (do return .next (← x) text st) :=
    .bind (.of_forall (fun _ => trivial) x) fun _ _ => .pure rfl
  unfold execute
  cases op with
  | testIndirect => exact absurd rfl hi
  | testEval => exact absurd rfl he
  | jumpTrue | jumpFalse =>
    cases result with
    | true => exact .pure rfl
    | false => exact .pure rfl
  | loadText =>
    dsimp only
    cases texts arg with
    | error f => exact .pure rfl
    | ok text' => exact .pure rfl
  | testConst => exact tested _
  | testCarry => exact tested _
  | testOwner => exact tested _
  | testAttr =>
    dsimp only
    cases texts arg with
    | error f => exact .pure rfl
    | ok pattern => exact tested _
  | testClass =>
    dsimp only
    cases texts arg with
    | error f => exact .pure rfl
    | ok pattern =>
      dsimp only
      cases v.classes.get? text with
      | none => exact .pure rfl
      | some kind => exact tested _
  | _ => exact .pure rfl

theorem Action.marks_idle (op : Opcode) (action : Action) :
    ∀ k ∈ action.marks op, (∀ d, k ≠ .reached d) ∧ k ≠ .denied .tooDeep := by
  cases action with
  | next result text st =>
    simp only [Action.marks]
    split_ifs
    · simp
    · simp
    · simp
  | jump => simp [Action.marks]
  | done verdict st => simp [Action.marks]

theorem noteStep_keeps
    (hn : ∀ object code st heard, v.Keeps subject st heard (noted object code st)) :
    Ends heard (fun action marks heard' =>
        Course v.maxDepth subject st heard marks (action.state st) heard')
      (v.overheard.noteStep noted texts subject target pc insn result text st) := by
  by_cases hi : insn.op = .testIndirect
  · unfold noteStep
    rw [hi]
    refine .bind (noteIndirect_keeps hn) fun out marks heard' h => .pure ?_
    rwa [List.append_nil]
  by_cases he : insn.op = .testEval
  · unfold noteStep
    rw [he]
    dsimp only
    cases texts insn.arg with
    | error f => exact .pure (.idle nofun)
    | ok pattern =>
      refine .bind noteEval_keeps fun out marks heard' h => .pure ?_
      rwa [List.append_nil]
  rw [noteStep_of_ne hi he]
  have hexec : Correspondence.silent.rel
      (v.overheard.execute (fun _ _ st => pure (false, st)) texts subject target pc insn
        result text st)
      (v.execute (fun _ _ st => pure (false, st)) texts subject target pc insn result
        text st) :=
    execute_rel_of_ne (Correspondence.silent_overheard v.world) rfl hi he
  refine .lift_bind (r := fun action heard' => action.state st = st ∧ heard' = heard) ?_ ?_
  · rw [hexec heard]
    exact .map ((execute_state hi he).imp fun _ h => ⟨h, rfl⟩)
  · rintro action _ ⟨hstate, rfl⟩
    refine .note_bind (.pure ?_)
    rw [hstate, List.append_nil]
    exact .idle (action.marks_idle insn.op)

theorem noteFrom_keeps
    (hn : ∀ object code st heard, v.Keeps subject st heard (noted object code st)) :
    v.Keeps subject st heard
      (v.overheard.noteFrom noted code subject target pc result text st) := by
  induction pc using Bytecode.forward_induction code generalizing result text st heard with
  | error pc f hf =>
    rw [noteFrom_of_error hf]
    exact .note_bind (.pure .reached)
  | ok pc insn hf ih =>
    rw [noteFrom_of_fetch hf]
    refine .note_bind (.bind (noteStep_keeps hn) fun action marks heard' h => ?_)
    have h := Course.reached.trans h
    simp only [← List.append_assoc]
    cases action with
    | next result' text' st' => exact (ih _ (le_refl _)).imp fun _ _ _ h' => h.trans h'
    | jump =>
      simp only [noteResume]
      cases hj : Bytecode.jump (pc + Bytecode.insnWidth) insn.arg with
      | error f => exact .pure (h.trans (.idle (List.forall_mem_nil _)))
      | ok pc' => exact (ih pc' (Bytecode.le_of_jump hj)).imp fun _ _ _ h' => h.trans h'
    | done verdict st' => exact .pure (h.trans (.idle (List.forall_mem_nil _)))

theorem noteCode_keeps
    (hn : ∀ object code st heard, v.Keeps subject st heard (noted object code st)) :
    v.Keeps subject st heard (v.overheard.noteCode noted code subject target st) := by
  refine .bind (noteFrom_keeps hn) ?_
  rintro ⟨verdict, st'⟩ marks heard' h
  cases verdict with
  | ok passed => exact .pure (h.trans (.idle nofun))
  | error f =>
    refine .lift_bind (r := fun out heard'' => out.2 = st' ∧ heard'' = heard') ?_ ?_
    · change Always _ ((StateT.lift (v.world.log _) >>= fun _ => pure (false, st')).run heard')
      rw [StateT.run_bind, Correspondence.silent_lift _ heard', bind_map_left]
      exact .bind (.of_forall (fun _ => trivial) _) fun _ _ => .pure ⟨rfl, rfl⟩
    · rintro ⟨passed, _⟩ _ ⟨rfl, rfl⟩
      exact .note_bind (.pure (h.trans (.idle (by simp))))

theorem noteLevels_keeps (levels : Nat) (target : Dbref) (code : LockCode) (st : EvalState)
    (heard : Messages) :
    v.Keeps subject st heard (v.overheard.noteLevels subject levels target code st) := by
  induction levels generalizing target code st heard with
  | zero =>
    cases code with
    | none => exact noteAnswer_keeps true
    | some code => exact noteAnswer_keeps false
  | succ levels ih =>
    cases code with
    | none => exact noteAnswer_keeps true
    | some code => exact noteCode_keeps ih

/-- Runs a lock and gives what was noted and what was said along with the outcome. -/
def watch (v : Machine m) (code : LockCode) (subject target : Dbref) (st : EvalState) :
    m (((Bool × EvalState) × List Mark) × Messages) :=
  (v.overheard.noteRun code subject target st).run.run []

/-- Watching does not change the run. -/
theorem fst_watch (v : Machine m) (code : LockCode) (subject target : Dbref) (st : EvalState) :
    (fun out => out.1.1) <$> v.watch code subject target st = v.run code subject target st := by
  have hnoted := v.overheard.noteRun_erases code subject target st
  have hheard := run_rel (Correspondence.unheard_overheard v) code subject target st []
  rw [← hheard, ← hnoted, StateT.run_map, ← comp_map]
  rfl

theorem watch_course (v : Machine m) (code : LockCode) (subject target : Dbref)
    (st : EvalState) :
    Always (fun out => Course v.maxDepth subject st [] out.1.2 out.1.1.2 out.2)
      (v.watch code subject target st) := by
  have h : v.Keeps subject st [] (v.overheard.noteRun code subject target st) := by
    refine .note_bind ((noteLevels_keeps _ target code st []).imp fun out marks heard' h => ?_)
    have hidle : Course v.maxDepth subject st [] [.started target] st [] := .idle (by simp)
    exact hidle.trans h
  exact h

/-- Locks are run instruction by instruction, and the locks that they ask for in the same way.
Nothing here bounds how many instructions or locks there are. -/
structure Stepwise (v : Machine m)
    (runs : LockCode → Dbref → Dbref → EvalState → m (Bool × EvalState))
    (verdicts : Bytes → Dbref → Dbref → Nat → Bool → Bytes → EvalState →
      m (Except Fault Bool × EvalState)) : Prop where
  unlocked : ∀ subject target st, runs none subject target st = pure (true, st)
  locked : ∀ code subject target st, runs (some code) subject target st =
    verdicts code subject target 0 false [] st >>= fun out =>
      match out with
      | (.ok passed, st) => pure (passed, st)
      | (.error f, st) => v.fault f subject target st
  bad : ∀ code subject target pc result text st f, Bytecode.fetch code pc = .error f →
    verdicts code subject target pc result text st = pure (.error f, st)
  step : ∀ code subject target pc result text st insn, Bytecode.fetch code pc = .ok insn →
    verdicts code subject target pc result text st =
      v.execute (fun object code st => runs code subject object st) (Bytecode.textAt code)
        subject target pc insn result text st >>= fun action =>
          match action with
          | .next result text st =>
            verdicts code subject target (pc + Bytecode.insnWidth) result text st
          | .jump =>
            (match Bytecode.jump (pc + Bytecode.insnWidth) insn.arg with
            | .error f => pure (.error f, st)
            | .ok pc' => verdicts code subject target pc' result text st)
          | .done verdict st => pure (verdict, st)

theorem stepwise_run (v : Machine m) :
    v.Stepwise v.run fun code subject =>
      v.verdictFrom (fun object code st => v.run code subject object st) code subject := by
  refine ⟨v.run_none, v.run_some, ?_, ?_⟩
  · intro code subject target pc result text st f hf
    exact v.verdictFrom_of_error hf
  · intro code subject target pc result text st insn hf
    rw [v.verdictFrom_of_fetch hf]
    refine bind_congr fun action => ?_
    cases action with
    | next => rfl
    | jump => rfl
    | done => rfl

variable {runs : LockCode → Dbref → Dbref → EvalState → m (Bool × EvalState)}
  {verdicts : Bytes → Dbref → Dbref → Nat → Bool → Bytes → EvalState →
    m (Except Fault Bool × EvalState)}

omit [LawfulMonad m] in
/-- Code is gone through from front to back. -/
theorem Stepwise.eq_verdictFrom (h : v.Stepwise runs verdicts) (code : Bytes)
    (subject target : Dbref) (pc : Nat) (result : Bool) (text : Bytes) (st : EvalState) :
    verdicts code subject target pc result text st =
      v.verdictFrom (fun object code st => runs code subject object st) code subject target pc
        result text st := by
  induction pc using Bytecode.forward_induction code generalizing result text st with
  | error pc f hf => rw [h.bad _ _ _ _ _ _ _ _ hf, v.verdictFrom_of_error hf]
  | ok pc insn hf ih =>
    rw [h.step _ _ _ _ _ _ _ _ hf, v.verdictFrom_of_fetch hf]
    refine bind_congr fun action => ?_
    cases action with
    | next result' text' st' => exact ih _ (le_refl _) result' text' st'
    | jump =>
      simp only [resume]
      cases hj : Bytecode.jump (pc + Bytecode.insnWidth) insn.arg with
      | error f => rfl
      | ok pc' => exact ih pc' (Bytecode.le_of_jump hj) result text st
    | done verdict st' => rfl

/-- Locks nest only as deep as allowed, so there is one way to run them. -/
theorem Stepwise.eq_run (h : v.Stepwise runs verdicts) (code : LockCode)
    (subject target : Dbref) (st : EvalState) :
    runs code subject target st = v.run code subject target st := by
  induction hk : v.maxDepth - st.depth using Nat.strongRecOn generalizing code target st with
  | ind k ih =>
    cases code with
    | none => rw [h.unlocked, v.run_none]
    | some code =>
      have hrestores :
          Restores (fun object code st => v.run code subject object st) (st.depth + 1) := by
        intro object code' st' hd
        exact v.runLevels_restores _ _ object code' st' hd
      have hagree : v.AgreeAt (fun object code st => v.run code subject object st)
          (fun object code st => runs code subject object st) (st.depth + 1) := by
        intro object code' st' hd hle
        exact (ih (v.maxDepth - st'.depth) (by omega) code' object st' rfl).symm
      rw [h.locked, h.eq_verdictFrom, ← v.verdictFrom_congr hrestores hagree, v.run_some]
      rfl

/-- Any code is run to an end, in any world. In the course of the run the depth lies between the
one at the start, which is that at the end too, and the one allowed; and a subject who has not
been told yet is told once if the machine refuses to go deeper, and not otherwise. -/
theorem run_balanced (v : Machine m) :
    (∀ runs verdicts, v.Stepwise runs verdicts ↔ runs = v.run ∧
      verdicts = fun code subject =>
        v.verdictFrom (fun object code st => v.run code subject object st) code subject) ∧
    ∀ (code : LockCode) (subject target : Dbref),
      (∀ st, (fun out => out.1.1) <$> v.watch code subject target st =
        v.run code subject target st ∧
        Always (fun out =>
            (∀ d, .reached d ∈ out.1.2 → st.depth ≤ d ∧ d ≤ max st.depth v.maxDepth) ∧
            out.1.1.2.depth = st.depth)
          (v.watch code subject target st)) ∧
      (fun out => out.1.1.1) <$> v.watch code subject target ⟨0, false⟩ =
        v.evaluate code subject target ∧
      Always (fun out => out.2 = if .denied .tooDeep ∈
        out.1.2 then [(subject, recursionMessage)] else [])
        (v.watch code subject target ⟨0, false⟩) := by
  refine ⟨fun runs verdicts => ⟨fun h => ?_, ?_⟩,
    fun code subject target => ⟨fun st => ?_, ?_, ?_⟩⟩
  · have hruns : runs = v.run := by
      funext code subject target st
      exact h.eq_run code subject target st
    refine ⟨hruns, ?_⟩
    funext code subject target pc result text st
    rw [h.eq_verdictFrom, hruns]
  · rintro ⟨rfl, rfl⟩
    exact v.stepwise_run
  · refine ⟨v.fst_watch code subject target st,
      (v.watch_course code subject target st).imp fun out h => ?_⟩
    exact ⟨h.within, h.depth⟩
  · have h := v.fst_watch code subject target ⟨0, false⟩
    unfold evaluate
    rw [← h, bind_map_left, map_eq_pure_bind]
  · refine (v.watch_course code subject target ⟨0, false⟩).imp fun out h => ?_
    rw [h.heard]
    simp

/-- A lock that asks for itself is refused at the second level. -/
theorem run_balanced_faulty :
    ∃ out, Machine.watch ⟨World.faulty, .standard, 1⟩ (some [12, 3, 0, 0, 0, 0, 0, 0, 0, 0]) 5 7
      ⟨0, false⟩ = out ∧
      .denied .tooDeep ∈ out.1.2 ∧ out.2 = [(5, recursionMessage)] ∧ out.1.1.2.depth = 0 ∧
      ∀ d, .reached d ∈ out.1.2 → d ≤ 1 := by
  obtain ⟨-, hall⟩ := run_balanced (m := Id) ⟨World.faulty, .standard, 1⟩
  obtain ⟨hrun, -, out, hout⟩ := hall (some [12, 3, 0, 0, 0, 0, 0, 0, 0, 0]) 5 7
  obtain ⟨-, out', hout'⟩ := hrun ⟨0, false⟩
  have hsame : out'.1 = out.1 := Eq.trans hout' hout.symm
  have hwithin := out'.2
  have hheard := out.2
  rw [hsame] at hwithin
  have hmarks : out.1.1.2 =
      [.started 7, .reached 0, .entered 7 3 [], .reached 1, .reached 1, .denied .tooDeep,
        .reached 1, .reached 0] := by
    rw [show out.1 = _ from hout]
    cbv
  have hdeep : .denied .tooDeep ∈ out.1.1.2 := by
    rw [hmarks]
    simp
  rw [if_pos hdeep] at hheard
  exact ⟨out.1, hout.symm, hdeep, hheard, hwithin.2, fun d hd => (hwithin.1 d hd).2⟩

end Machine
end Locksmith
