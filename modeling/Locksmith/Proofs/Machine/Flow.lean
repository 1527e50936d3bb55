import Locksmith.Proofs.Machine.Depth
import Locksmith.Proofs.Machine.Layout

namespace Locksmith
namespace Assembly

def placed (code : List Insn) : List Int32 := (code.filter (·.op == .label)).map (·.arg)

def skipped (l : Int32) (code : List Insn) : List Insn := code.takeWhile (!·.places l)

def after (l : Int32) (code : List Insn) : List Insn := (code.dropWhile (!·.places l)).tail

theorem length_after (l : Int32) (code : List Insn) : (after l code).length ≤ code.length := by
  have h := (List.dropWhile_sublist (l := code) (!·.places l)).length_le
  rw [after, List.length_tail]
  omega

theorem placed_append (xs ys : List Insn) : placed (xs ++ ys) = placed xs ++ placed ys := by
  rw [placed, List.filter_append, List.map_append]
  rfl

theorem placed_cons_label (l : Int32) (code : List Insn) :
    placed (⟨.label, l⟩ :: code) = l :: placed code := rfl

theorem placed_cons {i : Insn} (h : i.op ≠ .label) (code : List Insn) :
    placed (i :: code) = placed code := by
  rw [placed, List.filter_cons_of_neg (by simpa using h)]
  rfl

theorem places_iff {i : Insn} {l : Int32} : i.places l = true ↔ i = ⟨.label, l⟩ := by
  obtain ⟨op, arg⟩ := i
  simp [Insn.places]

theorem mem_placed {l : Int32} {code : List Insn} : l ∈ placed code ↔ ⟨.label, l⟩ ∈ code := by
  simp only [placed, List.mem_map, List.mem_filter, beq_iff_eq]
  constructor
  · rintro ⟨⟨op, arg⟩, ⟨hi, rfl⟩, rfl⟩
    exact hi
  · intro h
    exact ⟨_, ⟨h, rfl⟩, rfl⟩

theorem not_places {l : Int32} {code : List Insn} (h : l ∉ placed code) :
    ∀ i ∈ code, i.places l = false := by
  intro i hi
  cases hp : i.places l with
  | false => rfl
  | true => exact absurd (mem_placed.2 (places_iff.1 hp ▸ hi)) h

theorem skipped_append {l : Int32} {mid rest : List Insn} (h : l ∉ placed mid) :
    skipped l (mid ++ ⟨.label, l⟩ :: rest) = mid := by
  rw [skipped, List.takeWhile_append_of_pos (by simpa using not_places h)]
  simp [Insn.places]

theorem after_append {l : Int32} {mid rest : List Insn} (h : l ∉ placed mid) :
    after l (mid ++ ⟨.label, l⟩ :: rest) = rest := by
  rw [after, List.dropWhile_append_of_pos (by simpa using not_places h)]
  simp [Insn.places]

def Forward : List Insn → Prop
  | [] => True
  | i :: rest => (i.op.isJump = true → i.arg ∈ placed rest) ∧ Forward rest

/-- Every jump has its label ahead of it, and that label stands nowhere else. -/
structure Linked (code : List Insn) : Prop where
  forward : Forward code
  once : ∀ i ∈ code, i.op.isJump = true → (placed code).count i.arg = 1

theorem Forward.of_append {xs ys : List Insn} (h : Forward (xs ++ ys)) : Forward ys := by
  induction xs with
  | nil => exact h
  | cons i xs ih => exact ih h.2

theorem exists_split {l : Int32} {code : List Insn} (h : l ∈ placed code) :
    ∃ mid rest, code = mid ++ ⟨.label, l⟩ :: rest ∧ l ∉ placed mid := by
  induction code with
  | nil => cases h
  | cons i code ih =>
    by_cases hi : i = ⟨.label, l⟩
    · exact ⟨[], code, by rw [hi]; rfl, List.not_mem_nil⟩
    · have hl : l ∈ placed code := by
        rcases List.mem_cons.1 (mem_placed.1 h) with he | hm
        · exact absurd he.symm hi
        · exact mem_placed.2 hm
      obtain ⟨mid, rest, rfl, hm⟩ := ih hl
      refine ⟨i :: mid, rest, rfl, fun hc => ?_⟩
      rcases List.mem_cons.1 (mem_placed.1 hc) with he | hc
      · exact hi he.symm
      · exact hm (mem_placed.2 hc)

/-- Around a jump of a linked program. -/
theorem Linked.split {code : List Insn} (h : Linked code) (before rest : List Insn) {i : Insn}
    (hcode : code = before ++ i :: rest) (hi : i.op.isJump = true) :
    ∃ mid tail, rest = mid ++ ⟨.label, i.arg⟩ :: tail ∧
      i.arg ∉ placed before ∧ i.arg ∉ placed mid ∧ i.arg ∉ placed tail := by
  subst hcode
  obtain ⟨mid, tail, rfl, hm⟩ := exists_split (h.forward.of_append.1 hi)
  have hc := h.once i (by simp) hi
  have hl : i.op ≠ .label := by
    intro he
    rw [he] at hi
    cases hi
  rw [placed_append, placed_cons hl, placed_append, placed_cons_label, List.count_append,
    List.count_append, List.count_cons_self] at hc
  refine ⟨mid, tail, rfl, ?_, hm, ?_⟩
  · exact List.count_eq_zero.1 (by omega)
  · exact List.count_eq_zero.1 (by omega)

end Assembly

namespace Machine

variable {m : Type → Type} [Monad m] (v : Machine m)

/-- Runs the instructions of a program. The offset `pc` is the one that its first has in code.
-/
def flow (nested : Dbref → LockCode → EvalState → m (Bool × EvalState))
    (texts : Int32 → Except Fault Bytes) (subject target : Dbref) (code : List Insn) (pc : Nat)
    (result : Bool) (text : Bytes) (st : EvalState) : m (Except Fault Bool × EvalState) :=
  match code with
  | [] => pure (.error ⟨pc, .outOfRange⟩, st)
  | i :: rest =>
    if i.op = .label then flow nested texts subject target rest pc result text st
    else do
      have := Assembly.length_after i.arg rest
      match ← v.execute nested texts subject target pc i result text st with
      | .next result text st =>
        flow nested texts subject target rest (pc + Bytecode.insnWidth) result text st
      | .jump =>
        flow nested texts subject target (Assembly.after i.arg rest)
          (pc + Bytecode.insnWidth +
            Assembly.insnCount (Assembly.skipped i.arg rest) * Bytecode.insnWidth)
            result text st
      | .done verdict st => pure (verdict, st)
termination_by code.length

variable {nested : Dbref → LockCode → EvalState → m (Bool × EvalState)}
  {texts : Int32 → Except Fault Bytes} {subject target : Dbref} {rest : List Insn} {pc : Nat}
  {i : Insn} {result : Bool} {text : Bytes} {st : EvalState}

def proceed (nested : Dbref → LockCode → EvalState → m (Bool × EvalState))
    (texts : Int32 → Except Fault Bytes) (subject target : Dbref) (i : Insn) (rest : List Insn)
    (pc : Nat) (result : Bool) (text : Bytes) (st : EvalState) :
    Action → m (Except Fault Bool × EvalState)
  | .next result text st =>
    v.flow nested texts subject target rest (pc + Bytecode.insnWidth) result text st
  | .jump =>
    v.flow nested texts subject target (Assembly.after i.arg rest)
      (pc + Bytecode.insnWidth +
        Assembly.insnCount (Assembly.skipped i.arg rest) * Bytecode.insnWidth) result text st
  | .done verdict st => pure (verdict, st)

theorem flow_label (h : i.op = .label) :
    v.flow nested texts subject target (i :: rest) pc result text st =
      v.flow nested texts subject target rest pc result text st := by
  rw [flow, if_pos h]

theorem flow_cons (h : i.op ≠ .label) :
    v.flow nested texts subject target (i :: rest) pc result text st =
      v.execute nested texts subject target pc i result text st >>=
        v.proceed nested texts subject target i rest pc result text st := by
  rw [flow, if_neg h]
  refine bind_congr fun action => ?_
  cases action with
  | next => rfl
  | jump => rfl
  | done => rfl

variable [LawfulMonad m]

/-- A jump is taken if the result is the one of its name. -/
theorem flow_jump (h : i.op.isJump = true) :
    v.flow nested texts subject target (i :: rest) pc result text st =
      if result = (i.op == .jumpTrue) then
        v.flow nested texts subject target (Assembly.after i.arg rest)
          (pc + Bytecode.insnWidth +
            Assembly.insnCount (Assembly.skipped i.arg rest) * Bytecode.insnWidth)
            result text st
      else v.flow nested texts subject target rest (pc + Bytecode.insnWidth) result
        text st := by
  obtain ⟨op, arg⟩ := i
  cases op with
  | jumpTrue =>
    rw [flow_cons v (i := ⟨.jumpTrue, arg⟩) nofun, execute, pure_bind]
    cases result <;> rfl
  | jumpFalse =>
    rw [flow_cons v (i := ⟨.jumpFalse, arg⟩) nofun, execute, pure_bind]
    cases result <;> rfl
  | _ => cases h

theorem flow_paren (h : i.op = .paren) :
    v.flow nested texts subject target (i :: rest) pc result text st =
      v.flow nested texts subject target rest (pc + Bytecode.insnWidth) result text st := by
  obtain ⟨op, arg⟩ := i
  cases h
  rw [flow_cons v (i := ⟨.paren, arg⟩) nofun, execute, pure_bind]
  rfl

/-- Only a jump leads to a jump. -/
def Action.StemsFrom (op : Opcode) (a : Action) : Prop := a = .jump → op.isJump = true

theorem Action.StemsFrom.next {op : Opcode} {result : Bool} {text : Bytes} {st : EvalState} :
    StemsFrom op (.next result text st) := by
  intro h
  cases h

theorem Action.StemsFrom.done {op : Opcode} {verdict : Except Fault Bool} {st : EvalState} :
    StemsFrom op (.done verdict st) := by
  intro h
  cases h

theorem execute_stemsFrom :
    Always (Action.StemsFrom i.op)
      (v.execute nested texts subject target pc i result text st) := by
  have tested (op : Opcode) (x : m Bool) :
      Always (Action.StemsFrom op) (do return .next (← x) text st) :=
    .bind (.of_forall (fun _ => trivial) x) fun _ _ => .pure .next
  have paired (op : Opcode) (x : m (Bool × EvalState)) {k : Bool × EvalState → m Action}
      (hk : ∀ result st, k (result, st) = pure (.next result text st)) :
      Always (Action.StemsFrom op) (x >>= k) := by
    apply Always.bind (.of_forall (fun _ => trivial) x)
    rintro ⟨result, st⟩ -
    rw [hk]
    exact .pure .next
  unfold execute
  cases i.op with
  | jumpTrue => exact .pure fun _ => rfl
  | jumpFalse => exact .pure fun _ => rfl
  | loadText =>
    cases texts i.arg with
    | error f => exact .pure .done
    | ok text' => exact .pure .next
  | testConst => exact tested _ _
  | testCarry => exact tested _ _
  | testOwner => exact tested _ _
  | testIndirect => exact paired _ _ fun _ _ => rfl
  | testAttr =>
    cases texts i.arg with
    | error f => exact .pure .done
    | ok pattern => exact tested _ _
  | testEval =>
    cases texts i.arg with
    | error f => exact .pure .done
    | ok pattern => exact paired _ _ fun _ _ => rfl
  | testClass =>
    cases texts i.arg with
    | error f => exact .pure .done
    | ok pattern =>
      cases v.classes.get? text with
      | none => exact .pure .done
      | some kind => exact tested _ _
  | ret | label => exact .pure .done
  | unassigned n => exact .pure .done
  | loadResult | negate | paren | testIs => exact .pure .next

omit [LawfulMonad m] in
theorem execute_resolve (a : Assembly) :
    v.execute nested texts subject target pc (a.resolve i) result text st =
      v.execute nested (fun k => texts (a.textOffset k)) subject target pc i result
        text st := by
  obtain ⟨op, arg⟩ := i
  cases op <;> rfl

end Machine

namespace Assembly

variable {m : Type → Type} [Monad m] [LawfulMonad m] (v : Machine m)
  {nested : Dbref → LockCode → EvalState → m (Bool × EvalState)} {subject target : Dbref}

def EndsInRet (code : List Insn) : Prop := ∃ init arg, code = init ++ [⟨.ret, arg⟩]

theorem EndsInRet.ne_nil {code : List Insn} (h : EndsInRet code) : code ≠ [] := by
  obtain ⟨init, arg, rfl⟩ := h
  simp

theorem EndsInRet.of_append {xs ys : List Insn} (hy : ys ≠ []) (h : EndsInRet (xs ++ ys)) :
    EndsInRet ys := by
  obtain ⟨init, arg, he⟩ := h
  rcases List.eq_nil_or_concat ys with rfl | ⟨init', i, rfl⟩
  · exact absurd rfl hy
  · rw [List.concat_eq_append, ← List.append_assoc] at he
    obtain ⟨-, hi⟩ := List.append_inj' he rfl
    exact ⟨init', arg, by rw [List.concat_eq_append, hi]⟩

theorem EndsInRet.tail {i : Insn} {rest : List Insn} (h : EndsInRet (i :: rest))
    (hi : i.op ≠ .ret) : EndsInRet rest := by
  refine EndsInRet.of_append ?_ (show EndsInRet ([i] ++ rest) from h)
  rintro rfl
  obtain ⟨init, arg, he⟩ := h
  rcases init with _ | ⟨j, init⟩
  · cases he
    exact hi rfl
  · simp at he

theorem arg_resolve_jump (a : Assembly) {i : Insn} (h : i.op.isJump = true) :
    (a.resolve i).arg = labelOffset a.code i.arg := by
  obtain ⟨op, arg⟩ := i
  cases op with
  | jumpTrue => rfl
  | jumpFalse => rfl
  | _ => cases h

theorem jump_ofNat {pc n : Nat} (hn : n * Bytecode.insnWidth < 2 ^ 31)
    (hpc : pc ≤ n * Bytecode.insnWidth) :
    Bytecode.jump pc (Int32.ofNat (n * Bytecode.insnWidth)) = .ok (n * Bytecode.insnWidth) := by
  unfold Bytecode.jump
  rw [Bytecode.toInt_ofNat hn, if_neg, Int.toNat_natCast]
  rw [not_or]
  constructor
  · omega
  · rw [Decidable.not_not, ← Int.natCast_emod, Nat.mul_mod_left]
    rfl

/-- Code does what the program does that it was emitted from. -/
theorem verdictFrom_bytes (a : Assembly) (hlink : Linked a.code)
    (hsize : a.bytes.length < 2 ^ 31) {before code : List Insn}
    (hcode : a.code = before ++ code) (hret : EndsInRet code)
    (result : Bool) (text : Bytes) (st : EvalState) :
    v.verdictFrom nested a.bytes subject target (insnCount before * Bytecode.insnWidth)
        result text st =
      v.flow nested (fun k => Bytecode.textAt a.bytes (a.textOffset k)) subject target code
        (insnCount before * Bytecode.insnWidth) result text st := by
  induction hn : code.length using Nat.strongRecOn generalizing before code result text st with
  | ind n ih =>
    rcases code with _ | ⟨i, rest⟩
    · exact absurd rfl hret.ne_nil
    by_cases hl : i.op = .label
    · have hb : insnCount before = insnCount (before ++ [i]) := by
        rw [insnCount_append, insnCount_cons_label hl]
        rfl
      rw [v.flow_label hl, hb]
      refine ih rest.length (by subst hn; simp) (by simp [hcode]) (hret.tail ?_) _ _ _ rfl
      rw [hl]
      nofun
    have hfetch := fetch_bytes hcode hl
    by_cases hx : i.op.isExecutable = true
    · rw [if_pos hx] at hfetch
      rw [v.verdictFrom_of_fetch hfetch, v.execute_resolve a, v.flow_cons hl]
      by_cases hr : i.op = .ret
      · obtain ⟨op, arg⟩ := i
        cases hr
        simp only [Machine.execute, pure_bind]
        rfl
      have hnext : insnCount before * Bytecode.insnWidth + Bytecode.insnWidth =
          insnCount (before ++ [i]) * Bytecode.insnWidth := by
        rw [insnCount_append, insnCount_cons hl, Nat.add_mul]
        exact congrArg _ (Nat.one_mul _).symm
      refine v.execute_stemsFrom.bind_eq fun action hstem => ?_
      cases action with
      | done verdict st' => rfl
      | next result' text' st' =>
        simp only [Machine.resume, Machine.proceed]
        rw [hnext]
        exact ih rest.length (by subst hn; simp) (by simp [hcode]) (hret.tail hr) _ _ _ rfl
      | jump =>
        have hj := hstem rfl
        obtain ⟨mid, tail, rfl, -, hmid, htail⟩ := hlink.split before rest hcode hj
        have hoffset : (a.resolve i).arg =
            Int32.ofNat (insnCount (before ++ i :: mid) * Bytecode.insnWidth) := by
          rw [arg_resolve_jump a hj]
          exact labelOffset_eq (by simp [hcode]) (places_iff.2 rfl) (not_places htail)
        have hcount :
            insnCount (before ++ i :: mid) = insnCount (before ++ [i]) + insnCount mid := by
          rw [← insnCount_append, List.append_assoc]
          rfl
        have hbound : insnCount (before ++ i :: mid) * Bytecode.insnWidth < 2 ^ 31 := by
          have hall : insnCount a.code = insnCount (before ++ i :: mid) +
              insnCount (⟨.label, i.arg⟩ :: tail) := by
            rw [← insnCount_append, hcode, List.append_assoc]
            rfl
          have := a.length_bytes
          rw [hall, Nat.add_mul] at this
          omega
        simp only [Machine.resume, Machine.proceed]
        rw [hoffset, jump_ofNat hbound (by rw [hnext, hcount, Nat.add_mul]; omega),
          after_append hmid, skipped_append hmid, hnext, ← Nat.add_mul, ← hcount]
        have hmark : insnCount (before ++ i :: mid) =
            insnCount (before ++ i :: mid ++ [⟨.label, i.arg⟩]) := by
          rw [insnCount_append (before ++ i :: mid), insnCount_cons_label rfl]
          rfl
        simp only
        rw [hmark]
        refine ih tail.length ?_ (by simp [hcode]) ?_ _ _ _ rfl
        · subst hn
          simp only [List.length_cons, List.length_append]
          omega
        · rw [← List.cons_append] at hret
          have hends : EndsInRet (⟨.label, i.arg⟩ :: tail) := EndsInRet.of_append (by simp) hret
          exact hends.tail (by simp)
    · rw [if_neg hx] at hfetch
      rw [v.verdictFrom_of_error hfetch, v.flow_cons hl]
      obtain ⟨op, arg⟩ := i
      cases op with
      | label => exact absurd rfl hl
      | unassigned k =>
        simp only [Machine.execute, pure_bind]
        rfl
      | _ => exact absurd rfl hx

end Assembly
end Locksmith
