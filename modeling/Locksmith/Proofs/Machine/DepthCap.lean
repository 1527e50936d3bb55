import Locksmith.Proofs.Machine.Balance
import Locksmith.Proofs.Machine.Lockstep

namespace Locksmith

inductive Question where
  | isValid (object : Dbref)
  | owner (object : Dbref)
  | carries (holder item : Dbref)
  | lock (object : Dbref) (name : Bytes)
  | canReadLock (viewer object : Dbref) (name : Bytes)
  | canReadAttribute (viewer object : Dbref) (name : Bytes)
  | attr (object : Dbref) (name : Bytes)
  | evalAttribute (object : Dbref) (name : Bytes) (enactor : Dbref)
  | hasFlagClass (name : Bytes) (subject viewer : Dbref) (pattern : Bytes)
  | canSeeConnection (viewer subject : Dbref)
  | leastIdle (subject : Dbref)
  | canSeeChannel (viewer : Dbref) (channel : Bytes)
  | onChannel (subject : Dbref) (channel : Bytes)
  | notify (object : Dbref) (message : Bytes)
  | log (record : Log.Record)

variable {σ α β : Type}

def Question.ask (question : Question) (answer : StateM σ α) :
    StateM (σ × List Question) α := fun st =>
  ((answer st.1).1, (answer st.1).2, st.2 ++ [question])

def World.recorded (w : World (StateM σ)) : World (StateM (σ × List Question)) where
  isValid object := (Question.isValid object).ask (w.isValid object)
  owner object := (Question.owner object).ask (w.owner object)
  carries holder item := (Question.carries holder item).ask (w.carries holder item)
  lock object name := (Question.lock object name).ask (w.lock object name)
  canReadLock viewer object name :=
    (Question.canReadLock viewer object name).ask (w.canReadLock viewer object name)
  canReadAttribute viewer object name :=
    (Question.canReadAttribute viewer object name).ask (w.canReadAttribute viewer object name)
  attr object name := (Question.attr object name).ask (w.attr object name)
  evalAttribute object name enactor :=
    (Question.evalAttribute object name enactor).ask (w.evalAttribute object name enactor)
  hasFlagClass name subject viewer pattern :=
    (Question.hasFlagClass name subject viewer pattern).ask
    (w.hasFlagClass name subject viewer pattern)
  canSeeConnection viewer subject :=
    (Question.canSeeConnection viewer subject).ask (w.canSeeConnection viewer subject)
  leastIdle subject := (Question.leastIdle subject).ask (w.leastIdle subject)
  canSeeChannel viewer channel :=
    (Question.canSeeChannel viewer channel).ask (w.canSeeChannel viewer channel)
  onChannel subject channel :=
    (Question.onChannel subject channel).ask (w.onChannel subject channel)
  notify object message := (Question.notify object message).ask (w.notify object message)
  log record := (Question.log record).ask (w.log record)

namespace Machine

def recorded (v : Machine (StateM σ)) : Machine (StateM (σ × List Question)) :=
  ⟨v.world.recorded, v.classes, v.maxDepth⟩

def questions (v : Machine (StateM σ)) (code : LockCode) (subject target : Dbref) (s : σ) :
    List Question :=
  (v.recorded.evaluate code subject target (s, [])).2.2

/-- The machine that allows a nesting of `depth`. -/
def allowing (v : Machine (StateM σ)) (depth : Nat) : Machine (StateM σ) :=
  { v with maxDepth := depth }

end Machine

namespace Correspondence

variable {m m' : Type → Type} [Monad m] [Monad m'] [LawfulMonad m] [LawfulMonad m']

theorem map (c : Correspondence m m') {x : m α} {y : m' α} (h : c.rel x y) (f : α → β) :
    c.rel (f <$> x) (f <$> y) := by
  rw [map_eq_pure_bind, map_eq_pure_bind]
  exact c.bind h fun a => c.pure (f a)

/-- Computations with notes correspond if they do so along with their notes. -/
def transcribed (c : Correspondence m m') :
    Correspondence (Transcribed m) (Transcribed m') where
  rel x y := c.rel x.run y.run
  pure a := c.pure (a, [])
  bind hx hf := by
    rw [WriterT.run_bind, WriterT.run_bind]
    exact c.bind hx fun out => c.map (hf out.1) _

theorem transcribed_lift (c : Correspondence m m') {x : m α} {y : m' α} (h : c.rel x y) :
    c.transcribed.rel (liftM x) (liftM y) :=
  c.map h fun a => (a, [])

theorem transcribed_note (c : Correspondence m m') (marks : List Mark) :
    c.transcribed.rel (note marks : Transcribed m Unit) (note marks : Transcribed m' Unit) :=
  c.pure ((), marks)

theorem transcribed_noting (c : Correspondence m m') {x : m α} {y : m' α} (h : c.rel x y)
    (marks : α → List Mark) :
    c.transcribed.rel (noting marks x) (noting marks y) := by
  apply c.transcribed.bind (c.transcribed_lift h)
  intro a
  exact c.transcribed.bind (c.transcribed_note _) fun _ => c.transcribed.pure a

/-- Computations that are the same. -/
def same : Correspondence m m where
  rel x y := x = y
  pure _ := rfl
  bind hx hf := by rw [hx, funext hf]

omit [LawfulMonad m] in
theorem same_answers (w : World m) : same.Answers w w := by
  constructor
  all_goals
    intros
    rfl

/-- The first computation is the second, and also records questions. -/
def unrecorded : Correspondence (StateM (σ × List Question)) (StateM σ) where
  rel x y := ∀ s asked, y s = ((x (s, asked)).1, (x (s, asked)).2.1)
  pure _ _ _ := rfl
  bind {_ _ x y f g} hx hf s asked := by
    change g (y s).1 (y s).2 = _
    rw [hx s asked]
    exact hf (x (s, asked)).1 (x (s, asked)).2.1 (x (s, asked)).2.2

theorem unrecorded_recorded (v : Machine (StateM σ)) : unrecorded.Machines v.recorded v := by
  refine ⟨?_, fun _ _ _ _ => rfl, rfl, rfl⟩
  constructor
  all_goals
    intros
    intro s asked
    rfl

end Correspondence

namespace Machine

section Notes

variable {m m' : Type → Type} [Monad m] [Monad m'] [LawfulMonad m] [LawfulMonad m']
  {c : Correspondence m m'} {v : Machine m} {v' : Machine m'} {subject target object : Dbref}
  {code name pattern text : Bytes}
  {texts : Int32 → Except Fault Bytes} {pc : Nat} {insn : Insn} {result : Bool} {st : EvalState}
  {noted : Dbref → LockCode → EvalState → Transcribed m (Bool × EvalState)}
  {noted' : Dbref → LockCode → EvalState → Transcribed m' (Bool × EvalState)}

theorem noteAnswer_rel (answer : Bool) (st : EvalState) :
    c.transcribed.rel (noteAnswer answer st) (noteAnswer answer st) :=
  c.transcribed.bind (c.transcribed_note _) fun _ => c.transcribed.pure _

theorem noteDenial_rel (cause : Denial) (st : EvalState) :
    c.transcribed.rel (noteDenial cause st) (noteDenial cause st) :=
  c.transcribed.bind (c.transcribed_note _) fun _ => c.transcribed.pure _

variable (h : c.Machines v v')
include h

theorem noteIndirect_rel
    (hn : ∀ object code st, c.transcribed.rel (noted object code st) (noted' object code st)) :
    c.transcribed.rel (v.noteIndirect noted subject target object name st)
      (v'.noteIndirect noted' subject target object name st) := by
  apply c.transcribed.bind (c.transcribed_lift (h.answers.isValid object))
  intro valid
  apply c.transcribed.ite (noteAnswer_rel false st)
  apply c.transcribed.bind (c.transcribed_lift (h.answers.canReadLock target object name))
  intro readable
  apply c.transcribed.ite (noteAnswer_rel false st)
  apply c.transcribed.bind (c.transcribed_lift (enter_rel h))
  intro out
  apply c.transcribed.ite (noteDenial_rel .tooDeep out.2)
  apply c.transcribed.bind (c.transcribed_note _)
  intro _
  apply c.transcribed.bind (c.transcribed_lift (h.answers.lock object name))
  intro fetched
  cases fetched with
  | error e =>
    exact c.transcribed.bind (c.transcribed_lift (h.answers.log _)) fun _ => noteDenial_rel _ _
  | ok code => exact c.transcribed.bind (hn object code _) fun _ => c.transcribed.pure _

theorem noteEval_rel :
    c.transcribed.rel (v.noteEval subject target name pattern st)
      (v'.noteEval subject target name pattern st) := by
  apply c.transcribed.bind (c.transcribed_lift (h.answers.canReadAttribute target target name))
  intro readable
  apply c.transcribed.ite (noteAnswer_rel false st)
  apply c.transcribed.bind (c.transcribed_lift (enter_rel h))
  intro out
  apply c.transcribed.ite (noteDenial_rel .tooDeep out.2)
  apply c.transcribed.bind (c.transcribed_note _)
  intro _
  apply c.transcribed.bind (c.transcribed_lift (h.answers.evalAttribute target name subject))
  intro value
  cases value with
  | error e =>
    exact c.transcribed.bind (c.transcribed_lift (h.answers.log _)) fun _ => noteAnswer_rel _ _
  | ok value => exact noteAnswer_rel _ _

theorem noteStep_rel
    (hn : ∀ object code st, c.transcribed.rel (noted object code st) (noted' object code st)) :
    c.transcribed.rel (v.noteStep noted texts subject target pc insn result text st)
      (v'.noteStep noted' texts subject target pc insn result text st) := by
  by_cases hi : insn.op = .testIndirect
  · unfold noteStep
    rw [hi]
    exact c.transcribed.bind (noteIndirect_rel h hn) fun _ => c.transcribed.pure _
  by_cases he : insn.op = .testEval
  · unfold noteStep
    rw [he]
    dsimp only
    cases texts insn.arg with
    | error f => exact c.transcribed.pure _
    | ok pattern => exact c.transcribed.bind (noteEval_rel h) fun _ => c.transcribed.pure _
  · rw [noteStep_of_ne hi he, noteStep_of_ne hi he]
    exact c.transcribed_noting (execute_rel_of_ne h.answers h.classes hi he) _

theorem noteFrom_rel
    (hn : ∀ object code st, c.transcribed.rel (noted object code st) (noted' object code st)) :
    c.transcribed.rel (v.noteFrom noted code subject target pc result text st)
      (v'.noteFrom noted' code subject target pc result text st) := by
  induction pc using Bytecode.forward_induction code generalizing result text st with
  | error pc f hf =>
    rw [noteFrom_of_error hf, noteFrom_of_error hf]
    exact c.transcribed.bind (c.transcribed_note _) fun _ => c.transcribed.pure _
  | ok pc insn hf ih =>
    rw [noteFrom_of_fetch hf, noteFrom_of_fetch hf]
    apply c.transcribed.bind (c.transcribed_note _)
    intro _
    apply c.transcribed.bind (noteStep_rel h hn)
    intro action
    cases action with
    | next result' text' st' => exact ih _ (le_refl _)
    | jump =>
      simp only [noteResume]
      cases hj : Bytecode.jump (pc + Bytecode.insnWidth) insn.arg with
      | error f => exact c.transcribed.pure _
      | ok pc' => exact ih pc' (Bytecode.le_of_jump hj)
    | done verdict st' => exact c.transcribed.pure _

theorem noteCode_rel
    (hn : ∀ object code st, c.transcribed.rel (noted object code st) (noted' object code st)) :
    c.transcribed.rel (v.noteCode noted code subject target st)
      (v'.noteCode noted' code subject target st) := by
  apply c.transcribed.bind (noteFrom_rel h hn)
  rintro ⟨verdict, st'⟩
  cases verdict with
  | ok passed => exact c.transcribed.pure _
  | error f => exact c.transcribed_noting (c.bind (h.answers.log _) fun _ => c.pure _) _

theorem noteLevels_rel (levels : Nat) (target : Dbref) (code : LockCode) (st : EvalState) :
    c.transcribed.rel (v.noteLevels subject levels target code st)
      (v'.noteLevels subject levels target code st) := by
  induction levels generalizing target code st with
  | zero =>
    cases code with
    | none => exact noteAnswer_rel true st
    | some code => exact noteAnswer_rel false st
  | succ levels ih =>
    cases code with
    | none => exact noteAnswer_rel true st
    | some code => exact noteCode_rel h ih

/-- What relates the answers of two worlds relates the transcripts of a lock in them. -/
theorem transcribe_rel (code : LockCode) (subject target : Dbref) :
    c.rel (v.transcribe code subject target) (v'.transcribe code subject target) := by
  have hrun :
      c.transcribed.rel (v.noteRun code subject target ⟨0, false⟩)
        (v'.noteRun code subject target ⟨0, false⟩) := by
    apply c.transcribed.bind (c.transcribed_note _)
    intro _
    rw [h.maxDepth]
    exact noteLevels_rel h _ target code _
  exact c.bind hrun fun _ => c.pure _

end Notes

end Machine

def Mark.IsRefusal (k : Mark) : Prop := k = .denied .tooDeep

namespace Lockstep

variable {bad : Mark → Prop} {x y : Transcribed (StateM σ) α}
  {f g : α → Transcribed (StateM σ) β}

theorem bind_of {p : α → Prop} (hp : ∀ s, p (x.run s).1.1) (hx : Lockstep bad x y)
    (hf : ∀ a, p a → Lockstep bad (f a) (g a)) : Lockstep bad (x >>= f) (y >>= g) := by
  intro s hclean
  rw [run_bind_apply, List.forall_mem_append] at hclean
  rw [run_bind_apply, run_bind_apply, hx s hclean.1, hf _ (hp s) _ hclean.2]

theorem of_eq (h : x = y) : Lockstep bad x y := h ▸ .refl x

end Lockstep

theorem Always.apply {p : α → Prop} {x : StateM σ α} (h : Always p x) (s : σ) : p (x s).1 := by
  obtain ⟨y, rfl⟩ := h
  exact (y s).1.2

theorem Erases.apply {x : Transcribed (StateM σ) α} {y : StateM σ α} (h : Erases x y) (s : σ) :
    (x.run s).1.1 = (y s).1 := by
  rw [← h]
  rfl

namespace Machine

section Raise

variable {v : Machine (StateM σ)} {depth : Nat} {subject target object : Dbref}
  {code name text : Bytes} {texts : Int32 → Except Fault Bytes} {pc : Nat} {insn : Insn}
  {result : Bool} {st : EvalState}
  {noted noted' : Dbref → LockCode → EvalState → Transcribed (StateM σ) (Bool × EvalState)}
  {nested : Dbref → LockCode → EvalState → StateM σ (Bool × EvalState)}

/-- Up to a refusal, nested locks that lie one level below `d` run in lockstep, if that depth is
allowed. -/
def NestedRaised (v : Machine (StateM σ))
    (noted noted' : Dbref → LockCode → EvalState → Transcribed (StateM σ) (Bool × EvalState))
    (d : Nat) : Prop :=
  ∀ object code st, st.depth = d + 1 → st.depth ≤ v.maxDepth →
    Lockstep Mark.IsRefusal (noted object code st) (noted' object code st)

theorem enter_of_lt (hlt : st.depth < v.maxDepth) :
    v.enter subject st = pure (true, { st with depth := st.depth + 1 }) :=
  if_pos hlt

theorem enter_refused (hnot : ¬st.depth < v.maxDepth) (s : σ) :
    (v.enter subject st s).1.1 = false := by
  unfold enter
  rw [if_neg hnot]
  split
  · rfl
  · rfl

/-- A key that goes one level deeper does so on both machines, or the first of them is refused.
-/
theorem enter_lockstep (hle : v.maxDepth ≤ depth)
    {f g : Bool × EvalState → Transcribed (StateM σ) (Bool × EvalState)}
    (hentered : st.depth < v.maxDepth →
      Lockstep Mark.IsRefusal (f (true, { st with depth := st.depth + 1 }))
      (g (true, { st with depth := st.depth + 1 })))
    (hrefused : ∀ st', f (false, st') = noteDenial .tooDeep st') :
    Lockstep Mark.IsRefusal (liftM (v.enter subject st) >>= f)
      (liftM ((v.allowing depth).enter subject st) >>= g) := by
  by_cases hlt : st.depth < v.maxDepth
  · have hlt' : st.depth < (v.allowing depth).maxDepth := Nat.lt_of_lt_of_le hlt hle
    rw [enter_of_lt hlt, enter_of_lt hlt']
    apply Lockstep.bind_of (p := (· = (true, { st with depth := st.depth + 1 })))
      (fun _ => rfl) (.refl _)
    rintro _ rfl
    exact hentered hlt
  · intro s hclean
    have hout : (v.enter subject st s).1 = (false, (v.enter subject st s).1.2) :=
      Prod.ext (enter_refused hlt s) rfl
    have hrun :
        f (v.enter subject st s).1 = noteDenial .tooDeep (v.enter subject st s).1.2 := by
      rw [hout]
      exact hrefused _
    rw [run_bind_apply, List.forall_mem_append] at hclean
    have hmarks := hclean.2
    change ∀ k ∈ ((f (v.enter subject st s).1).run _).1.2, _ at hmarks
    rw [hrun] at hmarks
    exact absurd rfl (hmarks (.denied .tooDeep) List.mem_cons_self)

theorem noteIndirect_raised (hle : v.maxDepth ≤ depth)
    (hn : v.NestedRaised noted noted' st.depth) :
    Lockstep Mark.IsRefusal (v.noteIndirect noted subject target object name st)
      ((v.allowing depth).noteIndirect noted' subject target object name st) := by
  apply Lockstep.bind (.refl _)
  intro valid
  split
  · exact .refl _
  apply Lockstep.bind (.refl _)
  intro readable
  split
  · exact .refl _
  apply enter_lockstep hle
  · intro hlt
    apply Lockstep.bind (.refl _)
    intro _
    apply Lockstep.bind (.refl _)
    intro fetched
    cases fetched with
    | error e => exact .refl _
    | ok code => exact .bind (hn object code _ rfl hlt) fun _ => .refl _
  · intro st'
    rfl

theorem noteEval_raised (hle : v.maxDepth ≤ depth) {pattern : Bytes} :
    Lockstep Mark.IsRefusal (v.noteEval subject target name pattern st)
      ((v.allowing depth).noteEval subject target name pattern st) := by
  apply Lockstep.bind (.refl _)
  intro readable
  split
  · exact .refl _
  apply enter_lockstep hle
  · intro _
    exact .refl _
  · intro st'
    rfl

theorem noteStep_raised (hle : v.maxDepth ≤ depth) (hn : v.NestedRaised noted noted' st.depth) :
    Lockstep Mark.IsRefusal (v.noteStep noted texts subject target pc insn result text st)
      ((v.allowing depth).noteStep noted' texts subject target pc insn result text st) := by
  by_cases hi : insn.op = .testIndirect
  · unfold noteStep
    rw [hi]
    exact .bind (noteIndirect_raised hle hn) fun _ => .refl _
  by_cases he : insn.op = .testEval
  · unfold noteStep
    rw [he]
    dsimp only
    cases texts insn.arg with
    | error f => exact .refl _
    | ok pattern => exact .bind (noteEval_raised hle) fun _ => .refl _
  · rw [noteStep_of_ne hi he, noteStep_of_ne hi he]
    -- the nesting allowed plays no part in the other instructions
    have hexec : Correspondence.same.rel
        (v.execute (fun _ _ st => pure (false, st)) texts subject target pc insn result text st)
        ((v.allowing depth).execute (fun _ _ st => pure (false, st)) texts subject target pc
          insn result text st) :=
      execute_rel_of_ne (Correspondence.same_answers v.world) rfl hi he
    exact .of_eq (congrArg (noting _) hexec)

theorem noteFrom_raised (hle : v.maxDepth ≤ depth) (herases : NestedErases noted nested)
    (hrestores : Restores nested (st.depth + 1)) (hn : v.NestedRaised noted noted' st.depth) :
    Lockstep Mark.IsRefusal (v.noteFrom noted code subject target pc result text st)
      ((v.allowing depth).noteFrom noted' code subject target pc result text st) := by
  induction pc using Bytecode.forward_induction code generalizing result text st with
  | error pc f hf =>
    rw [noteFrom_of_error hf, noteFrom_of_error hf]
    exact .refl _
  | ok pc insn hf ih =>
    rw [noteFrom_of_fetch hf, noteFrom_of_fetch hf]
    apply Lockstep.bind (.refl _)
    intro _
    have hdepth (s : σ) : Action.AtDepth st.depth
        ((v.noteStep noted (Bytecode.textAt code) subject target pc insn result text st).run
          s).1.1 := by
      rw [(noteStep_erases herases).apply s]
      exact (v.execute_depth hrestores).apply s
    apply Lockstep.bind_of hdepth (noteStep_raised hle hn)
    intro action hat
    cases action with
    | next result' text' st' =>
      have hat : st'.depth = st.depth := hat
      exact ih _ (le_refl _) (by rwa [hat]) (by rwa [hat])
    | jump =>
      simp only [noteResume]
      cases hj : Bytecode.jump (pc + Bytecode.insnWidth) insn.arg with
      | error f => exact .refl _
      | ok pc' => exact ih pc' (Bytecode.le_of_jump hj) hrestores hn
    | done verdict st' => exact .refl _

theorem noteCode_raised (hle : v.maxDepth ≤ depth) (herases : NestedErases noted nested)
    (hrestores : Restores nested (st.depth + 1)) (hn : v.NestedRaised noted noted' st.depth) :
    Lockstep Mark.IsRefusal (v.noteCode noted code subject target st)
      ((v.allowing depth).noteCode noted' code subject target st) := by
  apply Lockstep.bind (noteFrom_raised hle herases hrestores hn)
  rintro ⟨verdict, st'⟩
  cases verdict with
  | ok passed => exact .refl _
  | error f => exact .refl _

/-- Each machine has as many levels as it allows from the depth of the run on. -/
theorem noteLevels_raised (hle : v.maxDepth ≤ depth) (levels : Nat) (code : LockCode)
    (hlevels : levels = v.maxDepth - st.depth + 1) (hdepth : st.depth ≤ v.maxDepth) :
    Lockstep Mark.IsRefusal (v.noteLevels subject levels target code st)
      ((v.allowing depth).noteLevels subject (depth - st.depth + 1) target code st) := by
  induction levels generalizing target code st with
  | zero => cases hlevels
  | succ levels ih =>
    cases code with
    | none => exact .refl _
    | some code =>
      apply noteCode_raised hle (noteLevels_erases levels) (v.runLevels_restores levels _)
      intro object code' st' hst hmax
      have hroom : depth - st.depth = depth - st'.depth + 1 := by omega
      rw [hroom]
      exact ih code' (by omega) hmax

/-- Up to a refusal, a machine that allows more nesting does the same. -/
theorem transcribe_raised (hle : v.maxDepth ≤ depth) {code : LockCode} {s : σ}
    (hfree : .denied .tooDeep ∉ (v.transcribe code subject target s).1.2) :
    (v.allowing depth).transcribe code subject target s =
      v.transcribe code subject target s := by
  have hrun : Lockstep Mark.IsRefusal (v.noteRun code subject target ⟨0, false⟩)
      ((v.allowing depth).noteRun code subject target ⟨0, false⟩) :=
    .bind (.refl _) fun _ => noteLevels_raised hle _ code rfl (Nat.zero_le _)
  have hclean : ∀ k ∈ (v.transcribe code subject target s).1.2, ¬k.IsRefusal := by
    rintro k hk rfl
    exact hfree hk
  exact congrArg (fun out => ((out.1.1.1, out.1.2), out.2)) (hrun s hclean)

end Raise

/-- What is recorded does not change an evaluation. -/
theorem transcribe_recorded (v : Machine (StateM σ)) (code : LockCode)
    (subject target : Dbref) (s : σ) :
    v.transcribe code subject target s = ((v.recorded.transcribe code subject target (s, [])).1,
      (v.recorded.transcribe code subject target (s, [])).2.1) :=
  transcribe_rel (Correspondence.unrecorded_recorded v) code subject target s []

theorem evaluate_eq_transcribe (v : Machine (StateM σ)) (code : LockCode)
    (subject target : Dbref) (s : σ) :
    v.evaluate code subject target s =
      ((v.transcribe code subject target s).1.1, (v.transcribe code subject target s).2) := by
  rw [← fst_transcribe]
  rfl

/-- An evaluation that is never refused further nesting comes out the same on a machine that
allows more: the result, what becomes of the world, and the questions asked of it in their
order. -/
theorem evaluate_raised (v : Machine (StateM σ)) (depth : Nat) (hle : v.maxDepth ≤ depth)
    (code : LockCode) (subject target : Dbref) (s : σ)
    (hfree : .denied .tooDeep ∉ (v.transcribe code subject target s).1.2) :
    (v.allowing depth).evaluate code subject target s = v.evaluate code subject target s ∧
      (v.allowing depth).questions code subject target s =
        v.questions code subject target s := by
  constructor
  · rw [evaluate_eq_transcribe, evaluate_eq_transcribe, transcribe_raised hle hfree]
  · rw [transcribe_recorded] at hfree
    have hsame : (v.allowing depth).recorded.transcribe code subject target (s, []) =
        v.recorded.transcribe code subject target (s, []) :=
      transcribe_raised (v := v.recorded) hle hfree
    rw [questions, questions, evaluate_eq_transcribe, evaluate_eq_transcribe, hsame]

end Machine

/-- A world where `#1` has the lock `@#2`, and others have the lock `#TRUE`. It counts the locks
it is asked for. -/
def World.linked : World (StateM Nat) where
  isValid _ := pure true
  owner _ := pure .nothing
  carries _ _ := pure false
  lock object _ := fun count =>
    (.ok (some (if object = 1 then [12, 2, 0, 0, 0, 0, 0, 0, 0, 0]
      else [4, 1, 0, 0, 0, 0, 0, 0, 0, 0])), count + 1)
  canReadLock _ _ _ := pure true
  canReadAttribute _ _ _ := pure false
  attr _ _ := pure none
  evalAttribute _ _ _ := pure (.ok [])
  hasFlagClass _ _ _ _ := pure false
  canSeeConnection _ _ := pure false
  leastIdle _ := pure none
  canSeeChannel _ _ := pure false
  onChannel _ _ := pure false
  notify _ _ := pure ()
  log _ := pure ()

/-- `@#1` nests two locks, so that a machine that allows nine decides it as one that allows two
does. -/
theorem Machine.evaluate_raised_linked :
    Machine.evaluate ⟨World.linked, .standard, 9⟩ (some [12, 1, 0, 0, 0, 0, 0, 0, 0, 0]) 5 7 0 =
      (true, 2) ∧
    Machine.questions ⟨World.linked, .standard, 9⟩
      (some [12, 1, 0, 0, 0, 0, 0, 0, 0, 0]) 5 7 0 =
      [.isValid 1, .canReadLock 7 1 [], .lock 1 [], .isValid 2, .canReadLock 1 2 [],
        .lock 2 []] := by
  have hrun : (Machine.recorded ⟨World.linked, .standard, 2⟩).transcribe
      (some [12, 1, 0, 0, 0, 0, 0, 0, 0, 0]) 5 7 (0, []) =
      ((true, [.started 7, .reached 0, .entered 7 1 [], .reached 1, .reached 1, .entered 1 2 [],
        .reached 2, .reached 2, .answered true, .reached 2, .reached 1, .reached 0]),
      2, [.isValid 1, .canReadLock 7 1 [], .lock 1 [], .isValid 2, .canReadLock 1 2 [],
        .lock 2 []]) := by
    cbv
  have hfree : .denied .tooDeep ∉ (Machine.transcribe ⟨World.linked, .standard, 2⟩
      (some [12, 1, 0, 0, 0, 0, 0, 0, 0, 0]) 5 7 0).1.2 := by
    rw [Machine.transcribe_recorded, hrun]
    simp
  obtain ⟨heval, hasked⟩ := Machine.evaluate_raised ⟨World.linked, .standard, 2⟩ 9 (by decide)
    (some [12, 1, 0, 0, 0, 0, 0, 0, 0, 0]) 5 7 0 hfree
  constructor
  · refine heval.trans ?_
    rw [Machine.evaluate_eq_transcribe, Machine.transcribe_recorded, hrun]
  · refine hasked.trans ?_
    rw [Machine.questions, Machine.evaluate_eq_transcribe, hrun]

end Locksmith
