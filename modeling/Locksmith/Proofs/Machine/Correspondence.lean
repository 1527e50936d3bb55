import Mathlib
import Locksmith.Proofs.Machine.Depth

namespace Locksmith

variable {m m' : Type → Type} [Monad m] [Monad m']

/-- A relation between computations that is kept when they are put together. -/
structure Correspondence (m m' : Type → Type) [Monad m] [Monad m'] where
  rel : ∀ {α : Type}, m α → m' α → Prop
  pure : ∀ {α : Type} (a : α), rel (pure a) (pure a)
  bind : ∀ {α β : Type} {x : m α} {y : m' α} {f : α → m β} {g : α → m' β},
    rel x y → (∀ a, rel (f a) (g a)) → rel (x >>= f) (y >>= g)

/-- The worlds answer alike. Nothing is said of the messages they send. -/
structure Correspondence.Answers (c : Correspondence m m') (w : World m)
    (w' : World m') : Prop where
  isValid : ∀ object, c.rel (w.isValid object) (w'.isValid object)
  owner : ∀ object, c.rel (w.owner object) (w'.owner object)
  carries : ∀ carrier object, c.rel (w.carries carrier object) (w'.carries carrier object)
  lock : ∀ object name, c.rel (w.lock object name) (w'.lock object name)
  canReadLock : ∀ viewer object name,
    c.rel (w.canReadLock viewer object name) (w'.canReadLock viewer object name)
  canReadAttribute : ∀ viewer object name,
    c.rel (w.canReadAttribute viewer object name) (w'.canReadAttribute viewer object name)
  attr : ∀ object name, c.rel (w.attr object name) (w'.attr object name)
  evalAttribute : ∀ object name enactor,
    c.rel (w.evalAttribute object name enactor) (w'.evalAttribute object name enactor)
  hasFlagClass : ∀ name subject viewer pattern,
    c.rel (w.hasFlagClass name subject viewer pattern)
      (w'.hasFlagClass name subject viewer pattern)
  canSeeConnection : ∀ viewer subject,
    c.rel (w.canSeeConnection viewer subject) (w'.canSeeConnection viewer subject)
  leastIdle : ∀ subject, c.rel (w.leastIdle subject) (w'.leastIdle subject)
  canSeeChannel : ∀ viewer channel,
    c.rel (w.canSeeChannel viewer channel) (w'.canSeeChannel viewer channel)
  onChannel : ∀ subject channel,
    c.rel (w.onChannel subject channel) (w'.onChannel subject channel)
  log : ∀ record, c.rel (w.log record) (w'.log record)

theorem Correspondence.ite (c : Correspondence m m') {α : Type} {p : Prop} [Decidable p]
    {x x₁ : m α} {y y₁ : m' α} (h : c.rel x y) (h₁ : c.rel x₁ y₁) :
    c.rel (if p then x else x₁) (if p then y else y₁) := by
  split
  · exact h
  · exact h₁

structure Correspondence.Machines (c : Correspondence m m') (v : Machine m)
    (v' : Machine m') : Prop where
  answers : c.Answers v.world v'.world
  notify : ∀ object message,
    c.rel (v.world.notify object message) (v'.world.notify object message)
  classes : v'.classes = v.classes
  maxDepth : v'.maxDepth = v.maxDepth

namespace Machine

variable {c : Correspondence m m'} {v : Machine m} {v' : Machine m'}
  {subject target object : Dbref} {code name pattern text : Bytes}
  {texts : Int32 → Except Fault Bytes} {pc : Nat} {insn : Insn} {result : Bool}
  {st : EvalState} {nested : Dbref → LockCode → EvalState → m (Bool × EvalState)}
  {nested' : Dbref → LockCode → EvalState → m' (Bool × EvalState)}

section Tests

variable (h : c.Answers v.world v'.world)
include h

theorem testConst_rel : c.rel (v.testConst subject object) (v'.testConst subject object) :=
  c.bind (h.isValid object) fun _ =>
    c.ite (c.ite (c.pure _) (h.carries subject object)) (c.pure _)

theorem testCarry_rel : c.rel (v.testCarry subject object) (v'.testCarry subject object) :=
  c.bind (h.isValid object) fun _ => c.ite (h.carries subject object) (c.pure _)

theorem testOwner_rel : c.rel (v.testOwner subject object) (v'.testOwner subject object) := by
  refine c.bind (h.isValid object) fun _ => c.ite ?_ (c.pure _)
  exact c.bind (h.owner object) fun _ => c.bind (h.owner subject) fun _ => c.pure _

theorem testAttr_rel :
    c.rel (v.testAttr subject target name pattern)
      (v'.testAttr subject target name pattern) := by
  refine c.bind (h.canReadAttribute target subject name) fun _ => c.ite (c.pure _) ?_
  refine c.bind (h.attr subject name) fun value => ?_
  cases value with
  | none => exact c.pure _
  | some value => exact c.pure _

theorem isListed_rel (fields : List Bytes) :
    c.rel (v.isListed subject target fields) (v'.isListed subject target fields) := by
  induction fields with
  | nil => exact c.pure _
  | cons field rest ih =>
    unfold isListed
    cases ObjId.parse field with
    | error e => exact ih
    | ok id =>
      refine c.ite ih (c.ite (c.pure _) ?_)
      exact c.bind (h.hasFlagClass _ subject target field) fun _ => c.ite (c.pure _) ih

theorem testClass_rel (kind : ClassKind) :
    c.rel (v.testClass kind name pattern subject target)
      (v'.testClass kind name pattern subject target) := by
  cases kind with
  | flag | power | type | objId => exact h.hasFlagClass name subject target pattern
  | ip | hostname =>
    refine c.bind (h.canSeeConnection target subject) fun _ => c.ite (c.pure _) ?_
    refine c.bind (h.leastIdle subject) fun idle => ?_
    cases idle with
    | none => exact c.pure _
    | some idle => exact c.pure _
  | channel =>
    exact c.bind (h.canSeeChannel target pattern) fun _ =>
      c.ite (h.onChannel subject pattern) (c.pure _)
  | dbrefList =>
    refine c.bind (h.canReadAttribute target target pattern) fun _ => c.ite (c.pure _) ?_
    refine c.bind (h.attr target pattern) fun list => ?_
    cases list with
    | none => exact c.pure _
    | some list => exact isListed_rel h _
  | unassigned n => exact c.pure _

theorem execute_rel_of_ne (hc : v'.classes = v.classes) (hi : insn.op ≠ .testIndirect)
    (he : insn.op ≠ .testEval) :
    c.rel (v.execute nested texts subject target pc insn result text st)
      (v'.execute nested' texts subject target pc insn result text st) := by
  obtain ⟨op, arg⟩ := insn
  have tested {x : m Bool} {y : m' Bool} (hxy : c.rel x y) :
      c.rel (do return Action.next (← x) text st) (do return Action.next (← y) text st) :=
    c.bind hxy fun _ => c.pure _
  unfold execute
  cases op with
  | testIndirect => exact absurd rfl hi
  | testEval => exact absurd rfl he
  | loadText =>
    dsimp only
    cases texts arg with
    | error f => exact c.pure _
    | ok text => exact c.pure _
  | testConst => exact tested (testConst_rel h)
  | testCarry => exact tested (testCarry_rel h)
  | testOwner => exact tested (testOwner_rel h)
  | testAttr =>
    dsimp only
    cases texts arg with
    | error f => exact c.pure _
    | ok pattern => exact tested (testAttr_rel h)
  | testClass =>
    dsimp only
    rw [hc]
    cases texts arg with
    | error f => exact c.pure _
    | ok pattern =>
      dsimp only
      cases v.classes.get? text with
      | none => exact c.pure _
      | some kind => exact tested (testClass_rel h kind)
  | _ => exact c.pure _

end Tests

variable (h : c.Machines v v')
include h

theorem enter_rel : c.rel (v.enter subject st) (v'.enter subject st) := by
  unfold enter
  rw [h.maxDepth]
  exact c.ite (c.pure _) (c.ite (c.pure _) (c.bind (h.notify subject _) fun _ => c.pure _))

theorem testIndirect_rel
    (hn : ∀ object code st, c.rel (nested object code st) (nested' object code st)) :
    c.rel (v.testIndirect nested subject target object name st)
      (v'.testIndirect nested' subject target object name st) := by
  refine c.bind (h.answers.isValid object) fun _ => c.ite (c.pure _) ?_
  refine c.bind (h.answers.canReadLock target object name) fun _ => c.ite (c.pure _) ?_
  refine c.bind (enter_rel h) fun _ => c.ite (c.pure _) ?_
  refine c.bind (h.answers.lock object name) fun fetched => ?_
  cases fetched with
  | error e => exact c.bind (h.answers.log _) fun _ => c.pure _
  | ok code => exact c.bind (hn object code _) fun _ => c.pure _

theorem testEval_rel :
    c.rel (v.testEval subject target name pattern st)
      (v'.testEval subject target name pattern st) := by
  refine c.bind (h.answers.canReadAttribute target target name) fun _ => c.ite (c.pure _) ?_
  refine c.bind (enter_rel h) fun _ => c.ite (c.pure _) ?_
  refine c.bind (h.answers.evalAttribute target name subject) fun value => ?_
  cases value with
  | error e => exact c.bind (h.answers.log _) fun _ => c.pure _
  | ok value => exact c.pure _

theorem execute_rel
    (hn : ∀ object code st, c.rel (nested object code st) (nested' object code st)) :
    c.rel (v.execute nested texts subject target pc insn result text st)
      (v'.execute nested' texts subject target pc insn result text st) := by
  by_cases hi : insn.op = .testIndirect
  · unfold execute
    rw [hi]
    exact c.bind (testIndirect_rel h hn) fun _ => c.pure _
  by_cases he : insn.op = .testEval
  · unfold execute
    rw [he]
    dsimp only
    cases texts insn.arg with
    | error f => exact c.pure _
    | ok pattern => exact c.bind (testEval_rel h) fun _ => c.pure _
  · exact execute_rel_of_ne h.answers h.classes hi he

theorem verdictFrom_rel
    (hn : ∀ object code st, c.rel (nested object code st) (nested' object code st)) :
    c.rel (v.verdictFrom nested code subject target pc result text st)
      (v'.verdictFrom nested' code subject target pc result text st) := by
  induction pc using Bytecode.forward_induction code generalizing result text st with
  | error pc f hf =>
    rw [v.verdictFrom_of_error hf, v'.verdictFrom_of_error hf]
    exact c.pure _
  | ok pc insn hf ih =>
    rw [v.verdictFrom_of_fetch hf, v'.verdictFrom_of_fetch hf]
    refine c.bind (execute_rel h hn) fun action => ?_
    cases action with
    | next result' text' st' => exact ih _ (le_refl _)
    | jump =>
      simp only [resume]
      cases hj : Bytecode.jump (pc + Bytecode.insnWidth) insn.arg with
      | error f => exact c.pure _
      | ok pc' => exact ih pc' (Bytecode.le_of_jump hj)
    | done verdict st' => exact c.pure _

theorem runCode_rel
    (hn : ∀ object code st, c.rel (nested object code st) (nested' object code st)) :
    c.rel (v.runCode nested code subject target st)
      (v'.runCode nested' code subject target st) := by
  refine c.bind (verdictFrom_rel h hn) ?_
  rintro ⟨verdict, st'⟩
  cases verdict with
  | ok passed => exact c.pure _
  | error f => exact c.bind (h.answers.log _) fun _ => c.pure _

theorem runLevels_rel (levels : Nat) (target : Dbref) (code : LockCode) (st : EvalState) :
    c.rel (v.runLevels subject levels target code st)
      (v'.runLevels subject levels target code st) := by
  induction levels generalizing target code st with
  | zero =>
    cases code with
    | none => exact c.pure _
    | some code => exact c.pure _
  | succ levels ih =>
    cases code with
    | none => exact c.pure _
    | some code => exact runCode_rel h ih

theorem run_rel (code : LockCode) (subject target : Dbref) (st : EvalState) :
    c.rel (v.run code subject target st) (v'.run code subject target st) := by
  unfold run
  rw [h.maxDepth]
  exact runLevels_rel h _ target code st

end Machine
end Locksmith
