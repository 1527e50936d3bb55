import Mathlib
import Locksmith.Proofs.Machine.Transcript

namespace Locksmith

variable {σ α β : Type}

/-- As long as `x` notes nothing bad, `y` does the same. -/
def Lockstep (bad : Mark → Prop) (x y : Transcribed (StateM σ) α) : Prop :=
  ∀ s, (∀ k ∈ (x.run s).1.2, ¬ bad k) → y.run s = x.run s

theorem run_bind_apply (x : Transcribed (StateM σ) α)
    (f : α → Transcribed (StateM σ) β) (s : σ) :
    (x >>= f).run s =
      ((((f (x.run s).1.1).run (x.run s).2).1.1,
        (x.run s).1.2 ++ ((f (x.run s).1.1).run (x.run s).2).1.2),
      ((f (x.run s).1.1).run (x.run s).2).2) := rfl

namespace Lockstep

variable {bad : Mark → Prop} {x y : Transcribed (StateM σ) α}
  {f g : α → Transcribed (StateM σ) β}

theorem refl (x : Transcribed (StateM σ) α) : Lockstep bad x x := fun _ _ => rfl

theorem bind (hx : Lockstep bad x y) (hf : ∀ a, Lockstep bad (f a) (g a)) :
    Lockstep bad (x >>= f) (y >>= g) := by
  intro s hclean
  rw [run_bind_apply, List.forall_mem_append] at hclean
  rw [run_bind_apply, run_bind_apply, hx s hclean.1, hf _ _ hclean.2]

theorem lift_bind {y : StateM σ α} {p : α → Prop} (hy : ∀ s, p (y s).1)
    (hf : ∀ a, p a → Lockstep bad (f a) (g a)) :
    Lockstep bad (liftM y >>= f) (liftM y >>= g) := by
  intro s hclean
  have hp : p ((liftM y : Transcribed (StateM σ) α).run s).1.1 := hy s
  rw [run_bind_apply, List.forall_mem_append] at hclean
  rw [run_bind_apply, run_bind_apply, hf _ hp _ hclean.2]

theorem note_bad {marks : List Mark} {k : Mark} {f : Unit → Transcribed (StateM σ) α}
    (hk : k ∈ marks) (hbad : bad k) : Lockstep bad (note marks >>= f) y := by
  intro s hclean
  rw [run_bind_apply] at hclean
  exact absurd hbad (hclean k (List.mem_append_left _ hk))

end Lockstep

namespace Machine

variable {bad : Mark → Prop} {safe : Dbref → Prop} {v v' : Machine (StateM σ)}
  {noted noted' : Dbref → LockCode → EvalState → Transcribed (StateM σ) (Bool × EvalState)}
  {texts : Int32 → Except Fault Bytes} {subject target object : Dbref} {code name text : Bytes}
  {st : EvalState} {pc : Nat} {insn : Insn} {result : Bool}

def NestedAlike (bad : Mark → Prop)
    (noted noted' : Dbref → LockCode → EvalState → Transcribed (StateM σ) (Bool × EvalState)) :
    Prop :=
  ∀ object code st, Lockstep bad (noted object code st) (noted' object code st)

/-- Instructions run in lockstep on two machines if nested locks do. -/
def StepsAlike (bad : Mark → Prop) (v v' : Machine (StateM σ)) : Prop :=
  ∀ noted noted' texts subject target pc insn result text st, NestedAlike bad noted noted' →
    Lockstep bad (v.noteStep noted texts subject target pc insn result text st)
      (v'.noteStep noted' texts subject target pc insn result text st)

def NestedAlikeOn (bad : Mark → Prop) (safe : Dbref → Prop)
    (noted noted' : Dbref → LockCode → EvalState → Transcribed (StateM σ) (Bool × EvalState)) :
    Prop :=
  ∀ object code st, safe object → Lockstep bad (noted object code st) (noted' object code st)

/-- Instructions of locks on safe objects run in lockstep if nested locks do. -/
def StepsAlikeOn (bad : Mark → Prop) (safe : Dbref → Prop) (v v' : Machine (StateM σ)) : Prop :=
  ∀ noted noted' texts subject target pc insn result text st, safe target →
    NestedAlikeOn bad safe noted noted' →
    Lockstep bad (v.noteStep noted texts subject target pc insn result text st)
      (v'.noteStep noted' texts subject target pc insn result text st)

theorem StepsAlike.on (hv : StepsAlike bad v v') : StepsAlikeOn bad (fun _ => True) v v' := by
  intro noted noted' texts subject target pc insn result text st _ hn
  exact hv _ _ _ _ _ _ _ _ _ _ fun object code st => hn object code st trivial

theorem noteFrom_lockstep (hv : StepsAlikeOn bad safe v v') (hsafe : safe target)
    (hn : NestedAlikeOn bad safe noted noted') :
    Lockstep bad (v.noteFrom noted code subject target pc result text st)
      (v'.noteFrom noted' code subject target pc result text st) := by
  induction pc using Bytecode.forward_induction code generalizing result text st with
  | error pc f hf =>
    rw [noteFrom_of_error hf, noteFrom_of_error hf]
    exact .refl _
  | ok pc insn hf ih =>
    rw [noteFrom_of_fetch hf, noteFrom_of_fetch hf]
    refine .bind (.refl _) fun _ => .bind (hv _ _ _ _ _ _ _ _ _ _ hsafe hn) fun action => ?_
    cases action with
    | next result' text' st' => exact ih _ (le_refl _)
    | jump =>
      simp only [noteResume]
      cases hj : Bytecode.jump (pc + Bytecode.insnWidth) insn.arg with
      | error f => exact .refl _
      | ok pc' => exact ih pc' (Bytecode.le_of_jump hj)
    | done verdict st' => exact .refl _

theorem noteCode_lockstep (hv : StepsAlikeOn bad safe v v') (hlog : v'.world.log = v.world.log)
    (hsafe : safe target) (hn : NestedAlikeOn bad safe noted noted') :
    Lockstep bad (v.noteCode noted code subject target st)
      (v'.noteCode noted' code subject target st) := by
  refine .bind (noteFrom_lockstep hv hsafe hn) ?_
  rintro ⟨verdict, st'⟩
  cases verdict with
  | ok passed => exact .refl _
  | error f =>
    simp only [fault, hlog]
    exact .refl _

theorem noteLevels_lockstep (hv : StepsAlikeOn bad safe v v')
    (hlog : v'.world.log = v.world.log) (levels : Nat) :
    NestedAlikeOn bad safe (v.noteLevels subject levels) (v'.noteLevels subject levels) := by
  induction levels with
  | zero =>
    rintro object (_ | code) st _
    · exact .refl _
    · exact .refl _
  | succ levels ih =>
    rintro object (_ | code) st hsafe
    · exact .refl _
    · exact noteCode_lockstep hv hlog hsafe ih

theorem noteRun_lockstep (hv : StepsAlikeOn bad safe v v') (hlog : v'.world.log = v.world.log)
    (hmax : v'.maxDepth = v.maxDepth) (code : LockCode) (subject : Dbref)
    (hsafe : ¬bad (.started target) → safe target) (st : EvalState) :
    Lockstep bad (v.noteRun code subject target st) (v'.noteRun code subject target st) := by
  unfold noteRun
  rw [hmax]
  by_cases hbad : bad (.started target)
  · exact .note_bad List.mem_cons_self hbad
  · exact .bind (.refl _) fun _ => noteLevels_lockstep hv hlog _ target code _ (hsafe hbad)

theorem evaluate_eq_of_lockstepOn (hv : StepsAlikeOn bad safe v v')
    (hlog : v'.world.log = v.world.log) (hmax : v'.maxDepth = v.maxDepth)
    (hsafe : ¬bad (.started target) → safe target) {code : LockCode} {s : σ}
    (hclean : ∀ k ∈ (v.transcribe code subject target s).1.2, ¬ bad k) :
    v'.evaluate code subject target s = v.evaluate code subject target s := by
  have h := noteRun_lockstep hv hlog hmax code subject hsafe ⟨0, false⟩ s hclean
  rw [← fst_transcribe, ← fst_transcribe]
  exact congrArg (fun out => (out.1.1.1, out.2)) h

theorem evaluate_eq_of_lockstep (hv : StepsAlike bad v v') (hlog : v'.world.log = v.world.log)
    (hmax : v'.maxDepth = v.maxDepth) {code : LockCode} {s : σ}
    (hclean : ∀ k ∈ (v.transcribe code subject target s).1.2, ¬ bad k) :
    v'.evaluate code subject target s = v.evaluate code subject target s :=
  evaluate_eq_of_lockstepOn hv.on hlog hmax (fun _ => trivial) hclean

/-- The machine with other locks in its world. -/
def relock (v : Machine (StateM σ)) (lock : Dbref → Bytes → StateM σ (Except Bytes LockCode)) :
    Machine (StateM σ) :=
  { v with world := { v.world with lock } }

theorem isListed_relock (lock : Dbref → Bytes → StateM σ (Except Bytes LockCode))
    (subject target : Dbref) (fields : List Bytes) :
    (v.relock lock).isListed subject target fields = v.isListed subject target fields := by
  induction fields with
  | nil => rfl
  | cons field rest ih =>
    simp only [isListed, ih]
    rfl

theorem testClass_relock (lock : Dbref → Bytes → StateM σ (Except Bytes LockCode))
    (kind : ClassKind) (name pattern : Bytes) (subject target : Dbref) :
    (v.relock lock).testClass kind name pattern subject target =
      v.testClass kind name pattern subject target := by
  cases kind with
  | dbrefList =>
    simp only [testClass, isListed_relock]
    rfl
  | _ => rfl

theorem noteIndirect_lockstep {lock : Dbref → Bytes → StateM σ (Except Bytes LockCode)}
    (hn : NestedAlike bad noted noted')
    (h : (∀ s, (v.world.canReadLock target object name s).1 = false) ∨
      bad (.entered target object name) ∨ lock object name = v.world.lock object name) :
    Lockstep bad (v.noteIndirect noted subject target object name st)
      ((v.relock lock).noteIndirect noted' subject target object name st) := by
  refine .bind (.refl _) fun valid => ?_
  split
  · exact .refl _
  rcases h with hread | h
  · refine .lift_bind (p := (· = false)) hread ?_
    rintro _ rfl
    exact .refl _
  refine .bind (.refl _) fun readable => ?_
  split
  · exact .refl _
  refine .bind (.refl _) ?_
  rintro ⟨entered, st'⟩
  cases entered with
  | false => exact .refl _
  | true =>
    by_cases hbad : bad (.entered target object name)
    · exact .note_bad List.mem_cons_self hbad
    simp only [relock, h.resolve_left hbad]
    refine .bind (.refl _) fun _ => .bind (.refl _) fun fetched => ?_
    cases fetched with
    | error e => exact .refl _
    | ok code => exact .bind (hn object code st') fun _ => .refl _

/-- Other locks in the same world make no difference if each is hidden or unchanged, or bad to
enter. -/
theorem stepsAlike_of_lock {lock : Dbref → Bytes → StateM σ (Except Bytes LockCode)}
    (h : ∀ target object name,
      (∀ s, (v.world.canReadLock target object name s).1 = false) ∨
      bad (.entered target object name) ∨ lock object name = v.world.lock object name) :
    StepsAlike bad v (v.relock lock) := by
  intro noted noted' texts subject target pc insn result text st hn
  obtain ⟨op, arg⟩ := insn
  cases op with
  | testIndirect =>
    exact .bind (noteIndirect_lockstep hn (h target (operandObject arg) text)) fun _ => .refl _
  | testClass =>
    simp only [noteStep, execute, testClass_relock]
    exact .refl _
  | _ => exact .refl _

def reattribute (v : Machine (StateM σ)) (attr : Dbref → Bytes → StateM σ (Option Bytes))
    (evalAttribute : Dbref → Bytes → Dbref → StateM σ (Except Bytes Bytes)) :
    Machine (StateM σ) :=
  { v with world := { v.world with attr, evalAttribute } }

section Reattribute

variable {attr : Dbref → Bytes → StateM σ (Option Bytes)}
  {evalAttribute : Dbref → Bytes → Dbref → StateM σ (Except Bytes Bytes)}

theorem isListed_reattribute (subject target : Dbref) (fields : List Bytes) :
    (v.reattribute attr evalAttribute).isListed subject target fields =
      v.isListed subject target fields := by
  induction fields with
  | nil => rfl
  | cons field rest ih =>
    simp only [isListed, ih]
    rfl

theorem bind_eq_of_fst {x : StateM σ α} {f g : α → StateM σ β}
    (h : ∀ s, f (x s).1 = g (x s).1) : x >>= f = x >>= g := by
  funext s
  exact congrFun (h s) (x s).2

/-- An attribute is hidden from an object, or it is the same. -/
def Concealed (v : Machine (StateM σ)) (attr : Dbref → Bytes → StateM σ (Option Bytes))
    (evalAttribute : Dbref → Bytes → Dbref → StateM σ (Except Bytes Bytes))
    (target object : Dbref) (name : Bytes) : Prop :=
  (∀ s, (v.world.canReadAttribute target object name s).1 = false) ∨
    attr object name = v.world.attr object name ∧
    evalAttribute object name = v.world.evalAttribute object name

theorem testAttr_reattribute (h : v.Concealed attr evalAttribute target subject name)
    (pattern : Bytes) :
    (v.reattribute attr evalAttribute).testAttr subject target name pattern =
      v.testAttr subject target name pattern := by
  rcases h with hread | ⟨hattr, -⟩
  · apply bind_eq_of_fst
    intro s
    simp only [reattribute, hread, Bool.not_false, ↓reduceIte]
  · simp only [testAttr, reattribute, hattr]

theorem testClass_reattribute (kind : ClassKind) (name pattern : Bytes)
    (h : v.Concealed attr evalAttribute target target pattern) :
    (v.reattribute attr evalAttribute).testClass kind name pattern subject target =
      v.testClass kind name pattern subject target := by
  cases kind with
  | dbrefList =>
    rcases h with hread | ⟨hattr, -⟩
    · apply bind_eq_of_fst
      intro s
      simp only [reattribute, hread, Bool.not_false, ↓reduceIte]
    · simp only [testClass, isListed_reattribute]
      simp only [reattribute, hattr]
  | _ => rfl

theorem noteEval_lockstep (h : v.Concealed attr evalAttribute target target name)
    (pattern : Bytes) :
    Lockstep bad (v.noteEval subject target name pattern st)
      ((v.reattribute attr evalAttribute).noteEval subject target name pattern st) := by
  rcases h with hread | ⟨-, heval⟩
  · refine .lift_bind (p := (· = false)) hread ?_
    rintro _ rfl
    exact .refl _
  · simp only [noteEval, reattribute, heval]
    exact .refl _

theorem noteIndirect_reattribute (hn : NestedAlikeOn bad safe noted noted')
    (henter : ¬bad (.entered target object name) → safe object) :
    Lockstep bad (v.noteIndirect noted subject target object name st)
      ((v.reattribute attr evalAttribute).noteIndirect noted' subject target object
        name st) := by
  refine .bind (.refl _) fun valid => ?_
  split
  · exact .refl _
  refine .bind (.refl _) fun readable => ?_
  split
  · exact .refl _
  refine .bind (.refl _) ?_
  rintro ⟨entered, st'⟩
  cases entered with
  | false => exact .refl _
  | true =>
    by_cases hbad : bad (.entered target object name)
    · exact .note_bad List.mem_cons_self hbad
    refine .bind (.refl _) fun _ => .bind (.refl _) fun fetched => ?_
    cases fetched with
    | error e => exact .refl _
    | ok code => exact .bind (hn object code st' (henter hbad)) fun _ => .refl _

/-- Other attributes in the same world make no difference to locks on objects that they are
hidden from, if it is bad to enter others. -/
theorem stepsAlikeOn_of_attributes
    (h : ∀ target object name, safe target → v.Concealed attr evalAttribute target object name)
    (henter : ∀ target object name, ¬bad (.entered target object name) → safe object) :
    StepsAlikeOn bad safe v (v.reattribute attr evalAttribute) := by
  intro noted noted' texts subject target pc insn result text st hsafe hn
  obtain ⟨op, arg⟩ := insn
  cases op with
  | testIndirect => exact .bind (noteIndirect_reattribute hn (henter _ _ _)) fun _ => .refl _
  | testEval =>
    simp only [noteStep]
    cases texts arg with
    | error f => exact .refl _
    | ok pattern => exact .bind (noteEval_lockstep (h _ _ _ hsafe) pattern) fun _ => .refl _
  | testAttr =>
    simp only [noteStep, execute, testAttr_reattribute (h _ _ _ hsafe)]
    exact .refl _
  | testClass =>
    simp only [noteStep, execute, testClass_reattribute _ _ _ (h _ _ _ hsafe)]
    exact .refl _
  | _ => exact .refl _

end Reattribute

end Machine
end Locksmith
