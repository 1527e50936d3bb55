import Mathlib
import Locksmith.Proofs.Machine.Depth

namespace Locksmith

/-- Why a key or a lock is refused without being decided. -/
inductive Denial where
  | fault (f : Fault)
  | unfetched (object : Dbref) (name error : Bytes)
  /-- The machine allows no further nesting. -/
  | tooDeep
deriving DecidableEq, Repr

inductive Mark where
  /-- The evaluation of a lock on an object starts, with a clear result. -/
  | started (target : Dbref)
  /-- From a lock on the first object the second one is entered, with a clear result, to run a
  lock on it. -/
  | entered (viewer object : Dbref) (name : Bytes)
  /-- The machine looks for an instruction, or has just gone one level deeper. -/
  | reached (depth : Nat)
  /-- A key sets the result. -/
  | answered (result : Bool)
  | negated
  | denied (cause : Denial)
deriving DecidableEq, Repr

def Mark.targets : Mark → List Dbref
  | .started target => [target]
  | .entered viewer object _ => [viewer, object]
  | _ => []

abbrev Transcribed (m : Type → Type) := WriterT (List Mark) m

variable {m : Type → Type} [Monad m] {α β : Type}

def note (marks : List Mark) : Transcribed m Unit := tell marks

/-- Does `y` and notes what its outcome gives. -/
def noting (marks : α → List Mark) (y : m α) : Transcribed m α := do
  let a ← y
  note (marks a)
  return a

/-- Without its notes, `x` is `y`. -/
def Erases (x : Transcribed m α) (y : m α) : Prop := Prod.fst <$> x.run = y

namespace Erases

variable [LawfulMonad m] {x : Transcribed m α} {y : m α} {f : α → Transcribed m β} {g : α → m β}

theorem pure (a : α) : Erases (Pure.pure a : Transcribed m α) (Pure.pure a) :=
  map_pure _ _

theorem lift (y : m α) : Erases (liftM y : Transcribed m α) y := by
  change Prod.fst <$> ((fun a => (a, ∅)) <$> y) = y
  rw [← comp_map]
  exact id_map y

theorem bind (hx : Erases x y) (hf : ∀ a, Erases (f a) (g a)) : Erases (x >>= f) (y >>= g) := by
  unfold Erases
  rw [WriterT.run_bind, ← hx, map_bind, bind_map_left]
  refine bind_congr fun out => ?_
  rw [← comp_map]
  exact hf out.1

theorem note_bind (marks : List Mark) (hx : Erases x y) :
    Erases (note marks >>= fun _ => x) y := by
  rw [← pure_bind () fun _ => y]
  exact bind (map_pure _ _) fun _ => hx

theorem noting (marks : α → List Mark) (y : m α) : Erases (Locksmith.noting marks y) y := by
  have h : Erases (Locksmith.noting marks y) (y >>= Pure.pure) :=
    bind (lift y) fun a => note_bind _ (pure a)
  rwa [bind_pure] at h

end Erases

namespace Machine

variable (v : Machine m)

def noteAnswer (result : Bool) (st : EvalState) : Transcribed m (Bool × EvalState) := do
  note [.answered result]
  pure (result, st)

def noteDenial (cause : Denial) (st : EvalState) : Transcribed m (Bool × EvalState) := do
  note [.denied cause]
  pure (false, st)

/-- `Machine.testIndirect` with notes. -/
def noteIndirect (nested : Dbref → LockCode → EvalState → Transcribed m (Bool × EvalState))
    (subject target object : Dbref) (name : Bytes) (st : EvalState) :
    Transcribed m (Bool × EvalState) := do
  if !(← v.world.isValid object) then noteAnswer false st
  else if !(← v.world.canReadLock target object name) then noteAnswer false st
  else
    let (entered, st) ← v.enter subject st
    if !entered then noteDenial .tooDeep st
    else
      note [.entered target object name, .reached st.depth]
      match ← v.world.lock object name with
      | .error e =>
        v.world.log ⟨.error, "fetching indirect lock",
          [("object", .object object), ("lock", .text name), ("error", .text e)]⟩
        noteDenial (.unfetched object name e) (leave st)
      | .ok code =>
        let (passed, st) ← nested object code st
        pure (passed, leave st)

/-- `Machine.testEval` with notes. -/
def noteEval (subject target : Dbref) (name pattern : Bytes) (st : EvalState) :
    Transcribed m (Bool × EvalState) := do
  if !(← v.world.canReadAttribute target target name) then noteAnswer false st
  else
    let (entered, st) ← v.enter subject st
    if !entered then noteDenial .tooDeep st
    else
      note [.reached st.depth]
      match ← v.world.evalAttribute target name subject with
      | .error e =>
        v.world.log ⟨.debug, "eval lock attribute failed",
          [("object", .object target), ("attribute", .text name), ("error", .text e)]⟩
        noteAnswer false (leave st)
      | .ok value => noteAnswer (Wildcard.isMatch pattern value) (leave st)

/-- What an instruction other than an indirect or an evaluated key does to the result. -/
def Action.marks (op : Opcode) : Action → List Mark
  | .next result _ _ =>
    if op = .negate then [.negated] else if op.isTest then [.answered result] else []
  | .jump => []
  | .done _ _ => []

/-- `Machine.execute` with notes. -/
def noteStep (nested : Dbref → LockCode → EvalState → Transcribed m (Bool × EvalState))
    (texts : Int32 → Except Fault Bytes) (subject target : Dbref) (pc : Nat) (insn : Insn)
    (result : Bool) (text : Bytes) (st : EvalState) : Transcribed m Action :=
  match insn.op with
  | .testIndirect => do
    let (result, st) ← v.noteIndirect nested subject target (operandObject insn.arg) text st
    return .next result text st
  | .testEval =>
    match texts insn.arg with
    | .error f => pure (.done (.error f) st)
    | .ok pattern => do
      let (result, st) ← v.noteEval subject target text pattern st
      return .next result text st
  | op =>
    -- nothing else runs nested locks
    noting (Action.marks op) <|
      v.execute (fun _ _ st => pure (false, st)) texts subject target pc insn result text st

/-- `Machine.verdictFrom` with notes. -/
def noteFrom (nested : Dbref → LockCode → EvalState → Transcribed m (Bool × EvalState))
    (code : Bytes) (subject target : Dbref) (pc : Nat) (result : Bool) (text : Bytes)
    (st : EvalState) : Transcribed m (Except Fault Bool × EvalState) := do
  note [.reached st.depth]
  match h : Bytecode.fetch code pc with
  | .error f => pure (.error f, st)
  | .ok insn =>
    have := Bytecode.fetch_length h
    match ← v.noteStep nested (Bytecode.textAt code) subject target pc insn result text st with
    | .next result text st =>
      noteFrom nested code subject target (pc + Bytecode.insnWidth) result text st
    | .jump =>
      match hj : Bytecode.jump (pc + Bytecode.insnWidth) insn.arg with
      | .error f => pure (.error f, st)
      | .ok pc' =>
        have : pc + Bytecode.insnWidth ≤ pc' := Bytecode.le_of_jump hj
        noteFrom nested code subject target pc' result text st
    | .done verdict st => pure (verdict, st)
termination_by code.length - pc
decreasing_by
  all_goals
    simp only [Bytecode.insnWidth] at *
    omega

/-- `Machine.runCode` with notes. -/
def noteCode (nested : Dbref → LockCode → EvalState → Transcribed m (Bool × EvalState))
    (code : Bytes) (subject target : Dbref) (st : EvalState) :
    Transcribed m (Bool × EvalState) := do
  match ← v.noteFrom nested code subject target 0 false [] st with
  | (.ok passed, st) => pure (passed, st)
  | (.error f, st) => noting (fun _ => [.denied (.fault f)]) (v.fault f subject target st)

/-- `Machine.runLevels` with notes. -/
def noteLevels (subject : Dbref) : (levels : Nat) → (target : Dbref) → LockCode → EvalState →
    Transcribed m (Bool × EvalState)
  | _, _, none, st => noteAnswer true st
  | 0, _, some _, st => noteAnswer false st
  | levels + 1, target, some code, st =>
    v.noteCode (noteLevels subject levels) code subject target st

/-- `Machine.run` with notes. -/
def noteRun (code : LockCode) (subject target : Dbref) (st : EvalState) :
    Transcribed m (Bool × EvalState) := do
  note [.started target]
  v.noteLevels subject (v.maxDepth - st.depth + 1) target code st

def transcribe (code : LockCode) (subject target : Dbref) : m (Bool × List Mark) := do
  let ((passed, _), marks) ← (v.noteRun code subject target ⟨0, false⟩).run
  pure (passed, marks)

variable {v} [LawfulMonad m] {nested : Dbref → LockCode → EvalState → m (Bool × EvalState)}
  {noted : Dbref → LockCode → EvalState → Transcribed m (Bool × EvalState)}
  {texts : Int32 → Except Fault Bytes} {subject target object : Dbref} {code name text : Bytes}
  {st : EvalState} {pc : Nat} {insn : Insn} {result : Bool}

theorem noteAnswer_erases (result : Bool) (st : EvalState) :
    Erases (noteAnswer result st : Transcribed m _) (pure (result, st)) :=
  .note_bind _ (.pure _)

theorem noteDenial_erases (cause : Denial) (st : EvalState) :
    Erases (noteDenial cause st : Transcribed m _) (pure (false, st)) :=
  .note_bind _ (.pure _)

/-- The nested locks of a run with notes are those of the run without. -/
def NestedErases (noted : Dbref → LockCode → EvalState → Transcribed m (Bool × EvalState))
    (nested : Dbref → LockCode → EvalState → m (Bool × EvalState)) : Prop :=
  ∀ object code st, Erases (noted object code st) (nested object code st)

theorem noteIndirect_erases (hn : NestedErases noted nested) :
    Erases (v.noteIndirect noted subject target object name st)
      (v.testIndirect nested subject target object name st) := by
  refine .bind (.lift _) fun valid => ?_
  split
  · exact noteAnswer_erases _ _
  refine .bind (.lift _) fun readable => ?_
  split
  · exact noteAnswer_erases _ _
  refine .bind (.lift _) ?_
  rintro ⟨entered, st'⟩
  cases entered with
  | false => exact noteDenial_erases _ _
  | true =>
    refine .note_bind _ (.bind (.lift _) fun fetched => ?_)
    cases fetched with
    | error e => exact .bind (.lift _) fun _ => noteDenial_erases _ _
    | ok code => exact .bind (hn object code st') fun _ => .pure _

theorem noteEval_erases {pattern : Bytes} :
    Erases (v.noteEval subject target name pattern st)
      (v.testEval subject target name pattern st) := by
  refine .bind (.lift _) fun readable => ?_
  split
  · exact noteAnswer_erases _ _
  refine .bind (.lift _) ?_
  rintro ⟨entered, st'⟩
  cases entered with
  | false => exact noteDenial_erases _ _
  | true =>
    refine .note_bind _ (.bind (.lift _) fun value => ?_)
    cases value with
    | error e => exact .bind (.lift _) fun _ => noteAnswer_erases _ _
    | ok value => exact noteAnswer_erases _ _

omit [LawfulMonad m] in
theorem execute_of_ne {nested' : Dbref → LockCode → EvalState → m (Bool × EvalState)}
    (h : insn.op ≠ .testIndirect) :
    v.execute nested texts subject target pc insn result text st =
      v.execute nested' texts subject target pc insn result text st := by
  obtain ⟨op, arg⟩ := insn
  cases op with
  | testIndirect => exact absurd rfl h
  | _ => rfl

omit [LawfulMonad m] in
theorem noteStep_of_ne (hi : insn.op ≠ .testIndirect) (he : insn.op ≠ .testEval) :
    v.noteStep noted texts subject target pc insn result text st = noting (Action.marks insn.op)
      (v.execute (fun _ _ st => pure (false, st)) texts subject target pc insn result
        text st) := by
  obtain ⟨op, arg⟩ := insn
  cases op with
  | testIndirect => exact absurd rfl hi
  | testEval => exact absurd rfl he
  | _ => rfl

theorem noteStep_erases (hn : NestedErases noted nested) :
    Erases (v.noteStep noted texts subject target pc insn result text st)
      (v.execute nested texts subject target pc insn result text st) := by
  by_cases hi : insn.op = .testIndirect
  · unfold noteStep execute
    rw [hi]
    exact .bind (noteIndirect_erases hn) fun _ => .pure _
  by_cases he : insn.op = .testEval
  · unfold noteStep execute
    rw [he]
    dsimp only
    cases texts insn.arg with
    | error f => exact .pure _
    | ok pattern => exact .bind noteEval_erases fun _ => .pure _
  rw [noteStep_of_ne hi he, execute_of_ne hi]
  exact .noting _ _

def noteResume (v : Machine m)
    (noted : Dbref → LockCode → EvalState → Transcribed m (Bool × EvalState)) (code : Bytes)
    (subject target : Dbref) (pc : Nat) (insn : Insn) (result : Bool) (text : Bytes)
    (st : EvalState) : Action → Transcribed m (Except Fault Bool × EvalState)
  | .next result text st =>
    v.noteFrom noted code subject target (pc + Bytecode.insnWidth) result text st
  | .jump =>
    match Bytecode.jump (pc + Bytecode.insnWidth) insn.arg with
    | .error f => pure (.error f, st)
    | .ok pc' => v.noteFrom noted code subject target pc' result text st
  | .done verdict st => pure (verdict, st)

omit [LawfulMonad m] in
theorem noteFrom_of_error {f : Fault} (h : Bytecode.fetch code pc = .error f) :
    v.noteFrom noted code subject target pc result text st =
      note [.reached st.depth] >>= fun _ => pure (.error f, st) := by
  rw [noteFrom]
  refine bind_congr fun _ => ?_
  split
  · rename_i f' h'
    cases h.symm.trans h'
    rfl
  · rename_i insn h'
    cases h.symm.trans h'

omit [LawfulMonad m] in
theorem noteFrom_of_fetch (h : Bytecode.fetch code pc = .ok insn) :
    v.noteFrom noted code subject target pc result text st =
      note [.reached st.depth] >>= fun _ =>
        v.noteStep noted (Bytecode.textAt code) subject target pc insn result text st >>=
          v.noteResume noted code subject target pc insn result text st := by
  rw [noteFrom]
  refine bind_congr fun _ => ?_
  split
  · rename_i f h'
    cases h.symm.trans h'
  · rename_i insn' h'
    cases h.symm.trans h'
    refine bind_congr fun action => ?_
    cases action with
    | next => rfl
    | done => rfl
    | jump => simp only [noteResume]; split <;> simp_all

theorem noteFrom_erases (hn : NestedErases noted nested) :
    Erases (v.noteFrom noted code subject target pc result text st)
      (v.verdictFrom nested code subject target pc result text st) := by
  induction pc using Bytecode.forward_induction code generalizing result text st with
  | error pc f hf =>
    rw [noteFrom_of_error hf, v.verdictFrom_of_error hf]
    exact .note_bind _ (.pure _)
  | ok pc insn hf ih =>
    rw [noteFrom_of_fetch hf, v.verdictFrom_of_fetch hf]
    refine .note_bind _ (.bind (noteStep_erases hn) fun action => ?_)
    cases action with
    | next result' text' st' => exact ih _ (le_refl _)
    | jump =>
      simp only [noteResume, resume]
      cases hj : Bytecode.jump (pc + Bytecode.insnWidth) insn.arg with
      | error f => exact .pure _
      | ok pc' => exact ih pc' (Bytecode.le_of_jump hj)
    | done verdict st' => exact .pure _

theorem noteCode_erases (hn : NestedErases noted nested) :
    Erases (v.noteCode noted code subject target st)
      (v.runCode nested code subject target st) := by
  refine .bind (noteFrom_erases hn) ?_
  rintro ⟨verdict, st'⟩
  cases verdict with
  | ok passed => exact .pure _
  | error f => exact .noting _ _

theorem noteLevels_erases (levels : Nat) :
    NestedErases (v.noteLevels subject levels) (v.runLevels subject levels) := by
  induction levels with
  | zero =>
    rintro object (_ | code) st
    · exact noteAnswer_erases _ _
    · exact noteAnswer_erases _ _
  | succ levels ih =>
    rintro object (_ | code) st
    · exact noteAnswer_erases _ _
    · exact noteCode_erases ih

theorem noteRun_erases (v : Machine m) (code : LockCode) (subject target : Dbref)
    (st : EvalState) :
    Erases (v.noteRun code subject target st) (v.run code subject target st) :=
  .note_bind _ (noteLevels_erases _ target code st)

theorem fst_transcribe (v : Machine m) (code : LockCode) (subject target : Dbref) :
    Prod.fst <$> v.transcribe code subject target = v.evaluate code subject target := by
  have h := v.noteRun_erases code subject target ⟨0, false⟩
  unfold transcribe evaluate
  rw [← h, map_bind, bind_map_left]
  simp only [map_pure]

end Machine
end Locksmith
