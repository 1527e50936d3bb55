import Mathlib
import Locksmith.Proofs.Machine.Transcript
import Locksmith.Proofs.Machine.Compilation

namespace Locksmith

def Mark.write (result : Bool) : Mark → Bool
  | .started _ => false
  | .entered _ _ _ => false
  | .reached _ => result
  | .answered result' => result'
  | .negated => !result
  | .denied _ => false

def replay (result : Bool) (marks : List Mark) : Bool := marks.foldl Mark.write result

theorem replay_append (result : Bool) (marks marks' : List Mark) :
    replay result (marks ++ marks') = replay (replay result marks) marks' :=
  List.foldl_append

variable {m : Type → Type} [Monad m] [LawfulMonad m] {α β : Type}

/-- Begun with a result register, `x` ends with an outcome and a result register that satisfy
`p`. -/
def Leaves (p : α → Bool → Prop) (result : Bool) (x : Transcribed m α) : Prop :=
  Always (fun out => p out.1 (replay result out.2)) x.run

namespace Leaves

variable {p : α → Bool → Prop} {q : β → Bool → Prop} {result : Bool} {x : Transcribed m α}
  {f : α → Transcribed m β}

theorem pure {a : α} (h : p a result) : Leaves p result (Pure.pure a : Transcribed m α) :=
  Always.pure h

theorem bind (hx : Leaves p result x)
    (hf : ∀ a result', p a result' → Leaves q result' (f a)) : Leaves q result (x >>= f) := by
  unfold Leaves
  rw [WriterT.run_bind]
  refine Always.bind hx ?_
  rintro ⟨a, marks⟩ h
  refine .map ((hf a _ h).imp fun out h' => ?_)
  rwa [replay_append]

theorem lift {y : m α} (hy : Always (p · result) y) :
    Leaves p result (liftM y : Transcribed m α) :=
  Always.map hy

theorem lift_bind {y : m α} (hf : ∀ a, Leaves q result (f a)) :
    Leaves q result (liftM y >>= f) := by
  refine .bind (p := fun _ result' => result' = result) (lift (.of_forall (fun _ => rfl) y)) ?_
  rintro a _ rfl
  exact hf a

theorem note_bind {marks : List Mark} (hx : Leaves p (replay result marks) x) :
    Leaves p result (note marks >>= fun _ => x) := by
  refine .bind (p := fun _ result' => result' = replay result marks) (Always.pure rfl) ?_
  rintro _ _ rfl
  exact hx

theorem noting {y : m α} {f : α → List Mark}
    (hy : Always (fun a => p a (replay result (f a))) y) :
    Leaves p result (Locksmith.noting f y) := by
  refine .bind (p := fun a result' => result' = result ∧ p a (replay result (f a)))
    (lift (hy.imp fun _ h => ⟨rfl, h⟩)) ?_
  rintro a _ ⟨rfl, ha⟩
  exact note_bind (pure ha)

end Leaves

namespace Machine

variable {v : Machine m}
  {noted : Dbref → LockCode → EvalState → Transcribed m (Bool × EvalState)}
  {nested : Dbref → LockCode → EvalState → m (Bool × EvalState)}
  {texts : Int32 → Except Fault Bytes} {subject target object : Dbref} {code name text : Bytes}
  {st : EvalState} {pc : Nat} {insn : Insn} {result : Bool}

/-- Begun with a result register, a run ends with its result there. -/
def Settles (result : Bool) (x : Transcribed m (Bool × EvalState)) : Prop :=
  Leaves (fun out result' => result' = out.1) result x

theorem noteAnswer_settles (answer : Bool) (st : EvalState) :
    Settles result (noteAnswer answer st : Transcribed m _) :=
  .note_bind (.pure rfl)

theorem noteDenial_settles (cause : Denial) (st : EvalState) :
    Settles result (noteDenial cause st : Transcribed m _) :=
  .note_bind (.pure rfl)

theorem noteIndirect_settles (hn : ∀ object code st, Settles false (noted object code st)) :
    Settles result (v.noteIndirect noted subject target object name st) := by
  refine .lift_bind fun valid => ?_
  split
  · exact noteAnswer_settles _ _
  refine .lift_bind fun readable => ?_
  split
  · exact noteAnswer_settles _ _
  refine .lift_bind ?_
  rintro ⟨entered, st'⟩
  cases entered with
  | false => exact noteDenial_settles _ _
  | true =>
    refine .note_bind (.lift_bind fun fetched => ?_)
    cases fetched with
    | error e => exact .lift_bind fun _ => noteDenial_settles _ _
    | ok code => exact .bind (hn object code st') fun out result' h => .pure h

theorem noteEval_settles {pattern : Bytes} :
    Settles result (v.noteEval subject target name pattern st) := by
  refine .lift_bind fun readable => ?_
  split
  · exact noteAnswer_settles _ _
  refine .lift_bind ?_
  rintro ⟨entered, st'⟩
  cases entered with
  | false => exact noteDenial_settles _ _
  | true =>
    refine .note_bind (.lift_bind fun value => ?_)
    cases value with
    | error e => exact .lift_bind fun _ => noteAnswer_settles _ _
    | ok value => exact noteAnswer_settles _ _

/-- The register `result'` is what an action leaves of the register `result`. -/
def Action.Leaves (result result' : Bool) : Action → Prop
  | .next result'' _ _ => result' = result''
  | .jump => result' = result
  | .done (.ok result'') _ => result' = result''
  | .done (.error _) _ => True

theorem execute_leaves (hi : insn.op ≠ .testIndirect) (he : insn.op ≠ .testEval) :
    Always (fun action => action.Leaves result (replay result (action.marks insn.op)))
      (v.execute nested texts subject target pc insn result text st) := by
  obtain ⟨op, arg⟩ := insn
  have tested (hop : op.isTest = true) (hne : op ≠ .negate) (x : m Bool) :
      Always (fun action : Action => action.Leaves result (replay result (action.marks op)))
        (do return .next (← x) text st) := by
    refine .bind (.of_forall (fun _ => trivial) x) fun result' _ => .pure ?_
    simp only [Action.marks, if_neg hne, if_pos hop]
    rfl
  unfold execute
  cases op with
  | testIndirect => exact absurd rfl hi
  | testEval => exact absurd rfl he
  | ret => exact .pure rfl
  | jumpTrue =>
    cases result with
    | true => exact .pure rfl
    | false => exact .pure rfl
  | jumpFalse =>
    cases result with
    | true => exact .pure rfl
    | false => exact .pure rfl
  | loadText =>
    dsimp only
    cases texts arg with
    | error f => exact .pure trivial
    | ok text' => exact .pure rfl
  | loadResult => exact .pure rfl
  | negate => exact .pure rfl
  | paren => exact .pure rfl
  | label => exact .pure trivial
  | testConst => exact tested rfl (by decide) _
  | testIs => exact .pure rfl
  | testCarry => exact tested rfl (by decide) _
  | testOwner => exact tested rfl (by decide) _
  | testAttr =>
    dsimp only
    cases texts arg with
    | error f => exact .pure trivial
    | ok pattern => exact tested rfl (by decide) _
  | testClass =>
    dsimp only
    cases texts arg with
    | error f => exact .pure trivial
    | ok pattern =>
      dsimp only
      cases v.classes.get? text with
      | none => exact .pure trivial
      | some kind => exact tested rfl (by decide) _
  | unassigned n => exact .pure trivial

theorem noteStep_leaves (hn : ∀ object code st, Settles false (noted object code st)) :
    Leaves (fun action result' => action.Leaves result result') result
      (v.noteStep noted texts subject target pc insn result text st) := by
  by_cases hi : insn.op = .testIndirect
  · unfold noteStep
    rw [hi]
    exact .bind (noteIndirect_settles hn) fun out result' h => .pure h
  by_cases he : insn.op = .testEval
  · unfold noteStep
    rw [he]
    dsimp only
    cases texts insn.arg with
    | error f => exact .pure trivial
    | ok pattern => exact .bind noteEval_settles fun out result' h => .pure h
  rw [noteStep_of_ne hi he]
  exact .noting (execute_leaves hi he)

theorem noteFrom_leaves (hn : ∀ object code st, Settles false (noted object code st)) :
    Leaves (fun out result' => ∀ passed, out.1 = .ok passed → result' = passed) result
      (v.noteFrom noted code subject target pc result text st) := by
  induction pc using Bytecode.forward_induction code generalizing result text st with
  | error pc f hf =>
    rw [noteFrom_of_error hf]
    refine .note_bind (.pure ?_)
    intro passed hp
    cases hp
  | ok pc insn hf ih =>
    rw [noteFrom_of_fetch hf]
    refine .note_bind (.bind (noteStep_leaves hn) fun action result' ha => ?_)
    cases action with
    | next result'' text' st' =>
      cases ha
      exact ih _ (le_refl _)
    | jump =>
      cases ha
      simp only [noteResume]
      cases hj : Bytecode.jump (pc + Bytecode.insnWidth) insn.arg with
      | error f =>
        refine .pure ?_
        intro passed hp
        cases hp
      | ok pc' => exact ih pc' (Bytecode.le_of_jump hj)
    | done verdict st' =>
      refine .pure fun passed hp => ?_
      cases hp
      exact ha

theorem noteCode_settles (hn : ∀ object code st, Settles false (noted object code st)) :
    Settles false (v.noteCode noted code subject target st) := by
  refine .bind (noteFrom_leaves hn) ?_
  rintro ⟨verdict, st'⟩ result' h
  cases verdict with
  | ok passed => exact .pure (h passed rfl)
  | error f =>
    refine .noting (.bind (.of_forall (fun _ => trivial) _) fun _ _ => .pure ?_)
    rfl

theorem noteLevels_settles (levels : Nat) (target : Dbref) (code : LockCode) (st : EvalState) :
    Settles false (v.noteLevels subject levels target code st) := by
  induction levels generalizing target code st with
  | zero =>
    cases code with
    | none => exact noteAnswer_settles _ _
    | some code => exact noteAnswer_settles _ _
  | succ levels ih =>
    cases code with
    | none => exact noteAnswer_settles _ _
    | some code => exact noteCode_settles ih

theorem transcribe_replays (v : Machine m) (code : LockCode) (subject target : Dbref) :
    Always (fun out => out.1 = replay false out.2) (v.transcribe code subject target) :=
  have h : Settles false (v.noteRun code subject target ⟨0, false⟩) :=
    .note_bind (noteLevels_settles _ _ _ _)
  .bind h fun _ h => .pure h.symm

end Machine

theorem replay_eq_false {marks : List Mark}
    (h : ∀ k ∈ marks, k ≠ .negated ∧ k ≠ .answered true) : replay false marks = false := by
  induction marks with
  | nil => rfl
  | cons k marks ih =>
    obtain ⟨hk, hrest⟩ := List.forall_mem_cons.1 h
    have hw : k.write false = false := by
      cases k with
      | answered result => cases result with
        | false => rfl
        | true => exact absurd rfl hk.2
      | negated => exact absurd rfl hk.1
      | _ => rfl
    change replay (k.write false) marks = false
    rw [hw]
    exact ih hrest

/-- An evaluation that meets a denial, at any level, returns what its later marks make of a
clear register. It returns false, in particular, unless something is negated or passed after the
denial. -/
theorem Machine.evaluate_after_denial (v : Machine m) (code : LockCode)
    (subject target : Dbref) :
    Prod.fst <$> v.transcribe code subject target = v.evaluate code subject target ∧
    Always (fun out => ∀ before cause after, out.2 = before ++ .denied cause :: after →
        out.1 = replay false after ∧
        ((∀ k ∈ after, k ≠ .negated ∧ k ≠ .answered true) → out.1 = false))
      (v.transcribe code subject target) := by
  refine ⟨fst_transcribe v code subject target, ?_⟩
  refine (transcribe_replays v code subject target).imp ?_
  intro out hp before cause after hm
  have hafter : out.1 = replay false after := by
    rw [hp, hm, replay_append]
    rfl
  exact ⟨hafter, fun h => hafter.trans (replay_eq_false h)⟩

/-- A world where `#1` has a lock that cannot be read, `#2` a lock with bad code and `#3` a lock
that asks for itself. -/
def World.faulty : World Id :=
  { World.nowhere with
    isValid := fun _ => true
    canReadLock := fun _ _ _ => true
    lock := fun object _ =>
      if object = 1 then .error [] else if object = 2 then .ok (some [])
      else .ok (some [12, 3, 0, 0, 0, 0, 0, 0, 0, 0]) }

/-- The code of `!(@#1|@#2|@#3)`, without its jumps. -/
def LockCode.faulty : LockCode :=
  some [12, 1, 0, 0, 0, 12, 2, 0, 0, 0, 12, 3, 0, 0, 0, 5, 0, 0, 0, 0, 0, 0, 0, 0, 0]

theorem Machine.transcribe_faulty :
    Machine.transcribe ⟨World.faulty, .standard, 1⟩ LockCode.faulty 5 7 =
      (true,
        [.started 7, .reached 0, .entered 7 1 [], .reached 1, .denied (.unfetched 1 [] []),
          .reached 0, .entered 7 2 [], .reached 1, .reached 1,
          .denied (.fault ⟨0, .outOfRange⟩), .reached 0,
          .entered 7 3 [], .reached 1, .reached 1] ++
        .denied .tooDeep :: [.reached 1, .reached 0, .negated, .reached 0]) := by
  cbv

/-- All three denials are met, the last one is negated, and the lock opens. -/
theorem Machine.evaluate_after_denial_faulty :
    (∃ before, (Machine.transcribe ⟨World.faulty, .standard, 1⟩ LockCode.faulty 5 7).2 =
      before ++ .denied .tooDeep :: [.reached 1, .reached 0, .negated, .reached 0]) ∧
    Machine.evaluate ⟨World.faulty, .standard, 1⟩ LockCode.faulty 5 7 = true := by
  obtain ⟨hfst, out, hout⟩ :=
    Machine.evaluate_after_denial ⟨World.faulty, .standard, 1⟩ LockCode.faulty 5 7
  rw [transcribe_faulty] at hfst hout ⊢
  refine ⟨⟨_, rfl⟩, ?_⟩
  rw [← hfst]
  have hmarks := congrArg Prod.snd hout
  have hpassed := (Subtype.property out _ _ _ hmarks).1
  exact (congrArg Prod.fst hout).symm.trans hpassed

/-- An evaluation that meets a denial need not return false. -/
theorem Machine.denial_not_final :
    ¬ ∀ (v : Machine Id) (code : LockCode) (subject target : Dbref),
      (∃ cause, .denied cause ∈ (v.transcribe code subject target).2) →
        v.evaluate code subject target = false := by
  intro h
  have hmet : ∃ cause, .denied cause ∈
      (Machine.transcribe ⟨World.faulty, .standard, 1⟩ LockCode.faulty 5 7).2 := by
    rw [transcribe_faulty]
    exact ⟨.tooDeep, by simp⟩
  have hfalse := h _ _ _ _ hmet
  rw [← fst_transcribe, transcribe_faulty] at hfalse
  cases hfalse

end Locksmith
