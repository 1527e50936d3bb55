import Mathlib
import Locksmith.Machine.Eval

namespace Locksmith

variable {m : Type → Type} [Monad m] [LawfulMonad m] {α β : Type}

/-- Every outcome of a computation satisfies `p`. -/
def Always (p : α → Prop) (x : m α) : Prop := ∃ y : m {a // p a}, Subtype.val <$> y = x

namespace Always

variable {p q : α → Prop} {r : β → Prop} {x : m α} {f g : α → m β}

theorem pure {a : α} (h : p a) : Always p (Pure.pure a : m α) :=
  ⟨Pure.pure ⟨a, h⟩, map_pure _ _⟩

theorem of_forall (h : ∀ a, p a) (x : m α) : Always p x :=
  ⟨(fun a => ⟨a, h a⟩) <$> x, by rw [← comp_map]; exact id_map x⟩

theorem bind (hx : Always p x) (hf : ∀ a, p a → Always r (f a)) : Always r (x >>= f) := by
  obtain ⟨y, rfl⟩ := hx
  refine ⟨y >>= fun a => Classical.choose (hf a.1 a.2), ?_⟩
  rw [map_bind, bind_map_left]
  exact bind_congr fun a => Classical.choose_spec (hf a.1 a.2)

theorem imp (hx : Always p x) (h : ∀ a, p a → q a) : Always q x := by
  rw [← bind_pure x]
  exact hx.bind fun a ha => Always.pure (h a ha)

theorem map {f : α → β} (hx : Always (fun a => r (f a)) x) : Always r (f <$> x) := by
  rw [map_eq_pure_bind]
  exact hx.bind fun _ ha => Always.pure ha

/-- Two continuations that agree on every outcome may be exchanged. -/
theorem bind_eq (hx : Always p x) (h : ∀ a, p a → f a = g a) : x >>= f = x >>= g := by
  obtain ⟨y, rfl⟩ := hx
  rw [bind_map_left, bind_map_left]
  exact bind_congr fun a => h a.1 a.2

end Always

/-- Runs go forward: what holds at an offset if it holds at all later ones holds everywhere. -/
theorem Bytecode.forward_induction (code : Bytes) {p : Nat → Prop}
    (error : ∀ pc f, fetch code pc = .error f → p pc)
    (ok : ∀ pc insn, fetch code pc = .ok insn → (∀ pc', pc + insnWidth ≤ pc' → p pc') → p pc)
    (pc : Nat) : p pc := by
  induction hk : code.length - pc using Nat.strongRecOn generalizing pc with
  | ind k ih =>
    cases hf : fetch code pc with
    | error f => exact error pc f hf
    | ok insn =>
      refine ok pc insn hf fun pc' hpc => ?_
      have hl := fetch_length hf
      rw [insnWidth] at hl hpc
      exact ih (code.length - pc') (by omega) pc' rfl

namespace Machine

variable (v : Machine m) {nested nested' : Dbref → LockCode → EvalState → m (Bool × EvalState)}
  {texts : Int32 → Except Fault Bytes} {subject target object : Dbref} {code name text : Bytes}
  {st : EvalState} {pc : Nat} {insn : Insn} {result : Bool}

def resume (nested : Dbref → LockCode → EvalState → m (Bool × EvalState)) (code : Bytes)
    (subject target : Dbref) (pc : Nat) (insn : Insn) (result : Bool) (text : Bytes)
    (st : EvalState) : Action → m (Except Fault Bool × EvalState)
  | .next result text st =>
    v.verdictFrom nested code subject target (pc + Bytecode.insnWidth) result text st
  | .jump =>
    match Bytecode.jump (pc + Bytecode.insnWidth) insn.arg with
    | .error f => pure (.error f, st)
    | .ok pc' => v.verdictFrom nested code subject target pc' result text st
  | .done verdict st => pure (verdict, st)

omit [LawfulMonad m] in
theorem verdictFrom_of_error {f : Fault} (h : Bytecode.fetch code pc = .error f) :
    v.verdictFrom nested code subject target pc result text st = pure (.error f, st) := by
  rw [verdictFrom]
  split
  · rename_i f' h'
    cases h.symm.trans h'
    rfl
  · rename_i insn h'
    cases h.symm.trans h'

omit [LawfulMonad m] in
theorem verdictFrom_of_fetch (h : Bytecode.fetch code pc = .ok insn) :
    v.verdictFrom nested code subject target pc result text st =
      v.execute nested (Bytecode.textAt code) subject target pc insn result text st >>=
        v.resume nested code subject target pc insn result text st := by
  rw [verdictFrom]
  split
  · rename_i f h'
    cases h.symm.trans h'
  · rename_i insn' h'
    cases h.symm.trans h'
    refine bind_congr fun action => ?_
    cases action with
    | next => rfl
    | done => rfl
    | jump => simp only [resume]; split <;> simp_all

theorem enter_always (subject : Dbref) (st : EvalState) :
    Always (fun r => if r.1 then r.2.depth = st.depth + 1 ∧ r.2.depth ≤ v.maxDepth
      else r.2.depth = st.depth) (v.enter subject st) := by
  unfold enter
  split
  · rename_i h
    exact .pure ⟨rfl, h⟩
  · split
    · exact .pure rfl
    · exact .bind (.of_forall (fun _ => trivial) _) fun _ _ => .pure rfl

/-- Nested runs leave the depth `d` as they found it. -/
def Restores (nested : Dbref → LockCode → EvalState → m (Bool × EvalState)) (d : Nat) : Prop :=
  ∀ object code st, st.depth = d → Always (fun r => r.2.depth = d) (nested object code st)

theorem testIndirect_depth (hn : Restores nested (st.depth + 1)) :
    Always (fun r => r.2.depth = st.depth)
      (v.testIndirect nested subject target object name st) := by
  unfold testIndirect
  refine .bind (.of_forall (fun _ => trivial) _) fun valid _ => ?_
  split
  · exact .pure rfl
  refine .bind (.of_forall (fun _ => trivial) _) fun readable _ => ?_
  split
  · exact .pure rfl
  refine .bind (v.enter_always subject st) ?_
  rintro ⟨entered, st'⟩ he
  cases entered with
  | false => exact .pure he
  | true =>
    have hd : st'.depth = st.depth + 1 := he.1
    refine .bind (.of_forall (fun _ => trivial) _) fun fetched _ => ?_
    cases fetched with
    | error e =>
      refine .bind (.of_forall (fun _ => trivial) _) fun _ _ => .pure ?_
      simp only [leave, hd, Nat.add_sub_cancel]
    | ok code =>
      refine .bind (hn object code st' hd) fun r hr => .pure ?_
      simp only [leave, hr, Nat.add_sub_cancel]

theorem testEval_depth {pattern : Bytes} :
    Always (fun r => r.2.depth = st.depth) (v.testEval subject target name pattern st) := by
  unfold testEval
  refine .bind (.of_forall (fun _ => trivial) _) fun readable _ => ?_
  split
  · exact .pure rfl
  refine .bind (v.enter_always subject st) ?_
  rintro ⟨entered, st'⟩ he
  cases entered with
  | false => exact .pure he
  | true =>
    have hd : st'.depth = st.depth + 1 := he.1
    refine .bind (.of_forall (fun _ => trivial) _) fun value _ => ?_
    cases value with
    | error e =>
      refine .bind (.of_forall (fun _ => trivial) _) fun _ _ => .pure ?_
      simp only [leave, hd, Nat.add_sub_cancel]
    | ok value =>
      refine .pure ?_
      simp only [leave, hd, Nat.add_sub_cancel]

/-- The action leaves the run at depth `d`. -/
def Action.AtDepth (d : Nat) : Action → Prop
  | .next _ _ st => st.depth = d
  | .jump => True
  | .done _ st => st.depth = d

theorem execute_depth (hn : Restores nested (st.depth + 1)) :
    Always (Action.AtDepth st.depth)
      (v.execute nested texts subject target pc insn result text st) := by
  have tested (x : m Bool) :
      Always (Action.AtDepth st.depth) (do return .next (← x) text st) :=
    .bind (.of_forall (fun _ => trivial) x) fun _ _ => .pure rfl
  unfold execute
  cases insn.op with
  | ret => exact .pure rfl
  | jumpTrue =>
    cases result with
    | true => exact .pure trivial
    | false => exact .pure rfl
  | jumpFalse =>
    cases result with
    | true => exact .pure rfl
    | false => exact .pure trivial
  | loadText =>
    cases texts insn.arg with
    | error f => exact .pure rfl
    | ok text' => exact .pure rfl
  | loadResult => exact .pure rfl
  | negate => exact .pure rfl
  | paren => exact .pure rfl
  | label => exact .pure rfl
  | testConst => exact tested _
  | testIs => exact .pure rfl
  | testCarry => exact tested _
  | testOwner => exact tested _
  | testIndirect => exact .bind (v.testIndirect_depth hn) fun r hr => .pure hr
  | testAttr =>
    cases texts insn.arg with
    | error f => exact .pure rfl
    | ok pattern => exact tested _
  | testEval =>
    cases texts insn.arg with
    | error f => exact .pure rfl
    | ok pattern => exact .bind v.testEval_depth fun r hr => .pure hr
  | testClass =>
    cases texts insn.arg with
    | error f => exact .pure rfl
    | ok pattern =>
      cases v.classes.get? text with
      | none => exact .pure rfl
      | some kind => exact tested _
  | unassigned n => exact .pure rfl

theorem verdictFrom_depth (hn : Restores nested (st.depth + 1)) :
    Always (fun r => r.2.depth = st.depth)
      (v.verdictFrom nested code subject target pc result text st) := by
  induction pc using Bytecode.forward_induction code generalizing result text st with
  | error pc f hf =>
    rw [v.verdictFrom_of_error hf]
    exact .pure rfl
  | ok pc insn hf ih =>
    rw [v.verdictFrom_of_fetch hf]
    refine .bind (v.execute_depth hn) fun action ha => ?_
    cases action with
    | next result' text' st' =>
      have hd : st'.depth = st.depth := ha
      exact (ih _ (le_refl _) (by rwa [hd])).imp fun r hr => hr.trans hd
    | jump =>
      simp only [resume]
      split
      · exact .pure rfl
      · rename_i pc' hj
        exact ih pc' (Bytecode.le_of_jump hj) hn
    | done verdict st' => exact .pure ha

theorem runCode_depth (hn : Restores nested (st.depth + 1)) :
    Always (fun r => r.2.depth = st.depth) (v.runCode nested code subject target st) := by
  refine .bind (v.verdictFrom_depth hn) ?_
  rintro ⟨verdict, st'⟩ hd
  cases verdict with
  | ok passed => exact .pure hd
  | error f => exact .bind (.of_forall (fun _ => trivial) _) fun _ _ => .pure hd

theorem runLevels_restores (levels d : Nat) : Restores (v.runLevels subject levels) d := by
  induction levels generalizing d with
  | zero =>
    rintro object (_ | code) st rfl
    · exact .pure rfl
    · exact .pure rfl
  | succ levels ih =>
    rintro object (_ | code) st rfl
    · exact .pure rfl
    · exact v.runCode_depth (ih (st.depth + 1))

/-- Two ways to run nested locks agree at depth `d`, if that depth is allowed. -/
def AgreeAt (nested nested' : Dbref → LockCode → EvalState → m (Bool × EvalState))
    (d : Nat) : Prop :=
  ∀ object code st, st.depth = d → d ≤ v.maxDepth →
    nested object code st = nested' object code st

theorem testIndirect_congr (ha : v.AgreeAt nested nested' (st.depth + 1)) :
    v.testIndirect nested subject target object name st =
      v.testIndirect nested' subject target object name st := by
  unfold testIndirect
  refine bind_congr fun valid => ?_
  split
  · rfl
  refine bind_congr fun readable => ?_
  split
  · rfl
  refine (v.enter_always subject st).bind_eq ?_
  rintro ⟨entered, st'⟩ he
  cases entered with
  | false => rfl
  | true =>
    obtain ⟨hd, hm⟩ : st'.depth = st.depth + 1 ∧ st'.depth ≤ v.maxDepth := he
    refine bind_congr fun fetched => ?_
    cases fetched with
    | error e => rfl
    | ok code =>
      simp only
      rw [ha object code st' hd (hd ▸ hm)]

theorem execute_congr (ha : v.AgreeAt nested nested' (st.depth + 1)) :
    v.execute nested texts subject target pc insn result text st =
      v.execute nested' texts subject target pc insn result text st := by
  unfold execute
  simp only [v.testIndirect_congr ha]

theorem verdictFrom_congr (hn : Restores nested (st.depth + 1))
    (ha : v.AgreeAt nested nested' (st.depth + 1)) :
    v.verdictFrom nested code subject target pc result text st =
      v.verdictFrom nested' code subject target pc result text st := by
  induction pc using Bytecode.forward_induction code generalizing result text st with
  | error pc f hf => rw [v.verdictFrom_of_error hf, v.verdictFrom_of_error hf]
  | ok pc insn hf ih =>
    rw [v.verdictFrom_of_fetch hf, v.verdictFrom_of_fetch hf, ← v.execute_congr ha]
    refine (v.execute_depth hn).bind_eq fun action hd => ?_
    cases action with
    | next result' text' st' =>
      have hd : st'.depth = st.depth := hd
      exact ih _ (le_refl _) (by rwa [hd]) (by rwa [hd])
    | jump =>
      simp only [resume]
      split
      · rfl
      · rename_i pc' hj
        exact ih pc' (Bytecode.le_of_jump hj) hn ha
    | done verdict st' => rfl

/-- The verdict of a lock's own code, with the locks inside it run as locks. -/
def verdict (code : Bytes) (subject target : Dbref) (st : EvalState) :
    m (Except Fault Bool × EvalState) :=
  v.verdictFrom (fun object code st => v.run code subject object st) code subject target
    0 false [] st

theorem run_some (code : Bytes) (subject target : Dbref) (st : EvalState) :
    v.run (some code) subject target st =
      v.runCode (fun object code st => v.run code subject object st) code subject
        target st := by
  have ha : v.AgreeAt (v.runLevels subject (v.maxDepth - st.depth))
      (fun object code st => v.run code subject object st) (st.depth + 1) := by
    intro object code st' hd hm
    have hl : v.maxDepth - st.depth = v.maxDepth - st'.depth + 1 := by omega
    rw [hl]
    rfl
  calc v.run (some code) subject target st
      = v.runCode (v.runLevels subject (v.maxDepth - st.depth)) code subject target st := rfl
    _ = _ := by
      unfold runCode
      rw [v.verdictFrom_congr (v.runLevels_restores _ _) ha]

omit [LawfulMonad m] in
theorem run_none (subject target : Dbref) (st : EvalState) :
    v.run none subject target st = pure (true, st) := by
  unfold run runLevels
  rfl

end Machine
end Locksmith
