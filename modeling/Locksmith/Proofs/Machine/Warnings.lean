import Locksmith.Proofs.Machine.Leaves

namespace Locksmith

open Bytecode (encodeInsn insnWidth textAt)

structure Lint.Answers where
  isValid : Dbref → Bool
  canReadLock : Dbref → Dbref → Bytes → Bool
  canReadAttribute : Dbref → Dbref → Bytes → Bool

/-- The world gives these answers whenever it is asked. -/
structure World.Gives {m : Type → Type} [Monad m] (w : World m)
    (known : Lint.Answers) : Prop where
  isValid : ∀ d, w.isValid d = pure (known.isValid d)
  canReadLock : ∀ viewer d name,
    w.canReadLock viewer d name = pure (known.canReadLock viewer d name)
  canReadAttribute : ∀ viewer d name,
    w.canReadAttribute viewer d name = pure (known.canReadAttribute viewer d name)

def World.answers (w : World Id) : Lint.Answers :=
  ⟨w.isValid, w.canReadLock, w.canReadAttribute⟩

theorem World.gives_answers (w : World Id) : w.Gives w.answers :=
  ⟨fun _ => rfl, fun _ _ _ => rfl, fun _ _ _ => rfl⟩

namespace Key

/-- What is wrong with the leaves of a key on a target: a missing object, or an attribute or
lock that the target cannot read. -/
def flaws (known : Lint.Answers) (target : Dbref) : Key → List Warning.Cause
  | .and _ left right | .or _ left right => left.flaws known target ++ right.flaws known target
  | .not _ operand => operand.flaws known target
  | .const _ d | .is _ d | .carry _ d | .owner _ d =>
    if known.isValid d then [] else [.invalidObject d]
  | .eval _ name _ =>
    if known.canReadAttribute target target name then [] else [.unreadableAttribute name]
  | .indirect _ d lock =>
    if !known.isValid d then [.invalidIndirect d]
    else if known.canReadLock target d lock then []
    else [.unreadableLock lock d]
  | .attr .. | .flagClass .. | .bool .. => []

/-- The names that are asked for: of evaluated attributes and of locks on other objects. -/
def askedNames : Key → List Bytes
  | .and _ left right | .or _ left right => left.askedNames ++ right.askedNames
  | .not _ operand => operand.askedNames
  | .eval _ name _ => [name]
  | .indirect _ _ lock => [lock]
  | _ => []

variable {known : Lint.Answers} {target : Dbref}

theorem flaws_leaves (key : Key) :
    key.leaves.flatMap (flaws known target) = key.flaws known target := by
  induction key with
  | and pos left right ihl ihr => rw [leaves, List.flatMap_append, ihl, ihr, flaws]
  | or pos left right ihl ihr => rw [leaves, List.flatMap_append, ihl, ihr, flaws]
  | not pos operand ih => exact ih
  | _ => exact List.append_nil _

theorem flaws_curtail {key : Key} (h : ∀ s ∈ key.askedNames, 0 ∉ s) :
    key.curtail.flaws known target = key.flaws known target := by
  induction key with
  | and pos left right ihl ihr =>
    obtain ⟨hl, hr⟩ := List.forall_mem_append.1 h
    rw [curtail, flaws, flaws, ihl hl, ihr hr]
  | or pos left right ihl ihr =>
    obtain ⟨hl, hr⟩ := List.forall_mem_append.1 h
    rw [curtail, flaws, flaws, ihl hl, ihr hr]
  | not pos operand ih => exact ih h
  | eval pos name pattern =>
    rw [curtail, flaws, flaws, Bytes.upToZero_eq_self.2 (h name (List.mem_singleton_self name))]
  | indirect pos d lock =>
    rw [curtail, flaws, flaws, Bytes.upToZero_eq_self.2 (h lock (List.mem_singleton_self lock))]
  | _ => rfl

end Key

namespace Lint

def register (texts : Int32 → Except Fault Bytes) (text : Bytes) (i : Insn) : Bytes :=
  if i.op = .loadText then (texts i.arg).toOption.getD text else text

/-- Instructions with the text register that each finds if none of them is passed over. -/
def withText (texts : Int32 → Except Fault Bytes) (text : Bytes) :
    List Insn → List (Bytes × Insn)
  | [] => []
  | i :: rest => (text, i) :: withText texts (register texts text i) rest

def Answers.causes (known : Answers) (target : Dbref) (p : Bytes × Insn) : List Warning.Cause :=
  let object := Machine.operandObject p.2.arg
  match p.2.op with
  | .testConst | .testIs | .testCarry | .testOwner =>
    if known.isValid object then [] else [.invalidObject object]
  | .testEval =>
    if known.canReadAttribute target target p.1 then [] else [.unreadableAttribute p.1]
  | .testIndirect =>
    if !known.isValid object then [.invalidIndirect object]
    else if known.canReadLock target object p.1 then []
    else [.unreadableLock p.1 object]
  | _ => []

def Answers.muted (known : Answers) (target : Dbref) (p : Bytes × Insn) : Insn :=
  if (known.causes target p).isEmpty then p.2 else ⟨.loadResult, 0⟩

/-- Code in which every test that is warned of sets the result to false instead. -/
def mute (known : Answers) (target : Dbref) (code : Bytes) : Bytes :=
  match Bytecode.instructions code with
  | .error _ => code
  | .ok insns =>
    ((withText (textAt code) [] insns).map (known.muted target)).flatMap encodeInsn ++
      code.drop (insns.length * insnWidth)

variable {texts : Int32 → Except Fault Bytes} {known : Answers} {target : Dbref} {text : Bytes}

theorem withText_append (xs ys : List Insn) :
    withText texts text (xs ++ ys) =
      withText texts text xs ++ withText texts (xs.foldl (register texts) text) ys := by
  induction xs generalizing text with
  | nil => rfl
  | cons i xs ih => exact congrArg ((text, i) :: ·) ih

theorem map_withText (texts : Int32 → Except Fault Bytes) (text : Bytes) (insns : List Insn) :
    (withText texts text insns).map (·.2) = insns := by
  induction insns generalizing text with
  | nil => rfl
  | cons i rest ih => exact congrArg (i :: ·) (ih _)

theorem length_withText (insns : List Insn) :
    (withText texts text insns).length = insns.length := by
  conv_rhs => rw [← map_withText texts text insns, List.length_map]

theorem causes_of_not_leaf {i : Insn} (h : i.ofLeaf = false) :
    known.causes target (text, i) = [] := by
  obtain ⟨op, arg⟩ := i
  cases op with
  | ret | jumpTrue | jumpFalse | negate | paren | label | unassigned => rfl
  | _ => cases h

theorem causes_of_not_readsText {i : Insn} (h : i.op.readsText = false) (t : Bytes) :
    known.causes target (t, i) = known.causes target (text, i) := by
  obtain ⟨op, arg⟩ := i
  cases op with
  | testIndirect | testEval => cases h
  | _ => rfl

theorem register_of_not_leaf {i : Insn} (h : i.ofLeaf = false) :
    register texts text i = text := by
  rw [register, if_neg]
  intro hop
  rw [Insn.ofLeaf, hop] at h
  cases h

/-- Only the leaves of a key are warned of. -/
theorem causes_filter (insns : List Insn) :
    (withText texts text (insns.filter (·.ofLeaf))).flatMap (known.causes target) =
      (withText texts text insns).flatMap (known.causes target) := by
  induction insns generalizing text with
  | nil => rfl
  | cons i rest ih =>
    cases hi : i.ofLeaf with
    | true =>
      rw [List.filter_cons_of_pos hi, withText, withText, List.flatMap_cons,
        List.flatMap_cons, ih]
    | false =>
      rw [List.filter_cons_of_neg (by simp [hi]), withText, List.flatMap_cons,
        causes_of_not_leaf hi, register_of_not_leaf hi, List.nil_append, ih]

theorem causes_stands {leaf : Key} {piece : List Insn} (h : leaf.Stands texts piece) :
    (withText texts text piece).flatMap (known.causes target) = leaf.flaws known target := by
  cases h with
  | indirect pos arg hlock =>
    simp [withText, register, Answers.causes, Key.flaws, hlock, Except.toOption]
  | attr pos hname hpattern => rfl
  | eval pos hname hpattern =>
    simp [withText, register, Answers.causes, Key.flaws, hname, Except.toOption]
  | flagClass pos hname hpattern => rfl
  | _ => exact List.append_nil _

theorem causes_pieces {leaves : List Key} {pieces : List (List Insn)}
    (h : List.Forall₂ (Key.Stands texts) leaves pieces) :
    (withText texts text pieces.flatten).flatMap (known.causes target) =
      leaves.flatMap (Key.flaws known target) := by
  induction h generalizing text with
  | nil => rfl
  | cons hleaf _ ih =>
    rw [List.flatten_cons, withText_append, List.flatMap_append, causes_stands hleaf, ih,
      List.flatMap_cons]

variable {m : Type → Type} [Monad m] [LawfulMonad m] {w : World m}

theorem checkInsn_eq (hw : w.Gives known) (i : Insn) :
    checkInsn w target text i = pure (known.causes target (text, i)) := by
  obtain ⟨op, arg⟩ := i
  have hobject :
      (do if ← w.isValid ⟨arg.toInt64⟩ then pure [] else pure [.invalidObject ⟨arg.toInt64⟩] :
      m (List Warning.Cause)) = pure (known.causes target (text, ⟨.testConst, arg⟩)) := by
    rw [hw.isValid, pure_bind]
    exact (apply_ite pure _ _ _).symm
  cases op with
  | testConst | testIs | testCarry | testOwner => exact hobject
  | testEval =>
    simp only [checkInsn, hw.canReadAttribute, pure_bind]
    exact (apply_ite pure _ _ _).symm
  | testIndirect =>
    simp only [checkInsn, hw.isValid, hw.canReadLock, pure_bind, Answers.causes,
      Machine.operandObject]
    by_cases hd : known.isValid ⟨arg.toInt64⟩ = true
    · by_cases hread : known.canReadLock target ⟨arg.toInt64⟩ text = true <;> simp [hd, hread]
    · simp [hd]
  | _ => rfl

/-- Where the instructions of code can be read, they are checked one after another. -/
theorem checkFrom_eq (hw : w.Gives known) {l : List Insn} {after : Bytes}
    (before init : List Insn) {last : Insn} (hl : l = before ++ (init ++ [last]))
    (hlast : last.op = .ret)
    (hinit : ∀ i ∈ init, i.op.isExecutable = true ∧ i.op ≠ .ret)
    (htexts : ∀ i ∈ init, i.op = .loadText →
      ∃ s, textAt (l.flatMap encodeInsn ++ after) i.arg = .ok s)
    (text : Bytes) :
    checkFrom w (l.flatMap encodeInsn ++ after) target (before.length * insnWidth) text =
      pure ((withText (textAt (l.flatMap encodeInsn ++ after)) text (init ++ [last])).flatMap
        (known.causes target)) := by
  induction init generalizing before text with
  | nil =>
    have hfetch := Bytecode.fetch_flatMap l after before last [] hl
    obtain ⟨op, arg⟩ := last
    cases hlast
    rw [checkFrom_of_fetch w hfetch]
    rfl
  | cons i init ih =>
    obtain ⟨hexec, hret⟩ := hinit i (List.mem_cons_self ..)
    have hfetch := Bytecode.fetch_flatMap l after before i (init ++ [last]) hl
    rw [if_pos hexec] at hfetch
    have hnext (text : Bytes) := ih (before ++ [i]) (by rw [hl, List.append_assoc]; rfl)
      (fun j hj => hinit j (List.mem_cons_of_mem i hj))
      (fun j hj => htexts j (List.mem_cons_of_mem i hj)) text
    rw [List.length_append, List.length_singleton, Nat.succ_mul] at hnext
    have hstep :
        checkFrom w (l.flatMap encodeInsn ++ after) target (before.length * insnWidth) text =
        checkFrom w (l.flatMap encodeInsn ++ after) target
          (before.length * insnWidth + insnWidth)
          (register (textAt (l.flatMap encodeInsn ++ after)) text i) >>= fun later =>
            pure (known.causes target (text, i) ++ later) := by
      rw [checkFrom_of_fetch w hfetch, checkInsn_eq hw]
      obtain ⟨op, arg⟩ := i
      cases op with
      | ret => exact absurd rfl hret
      | loadText =>
        obtain ⟨s, hs⟩ := htexts ⟨.loadText, arg⟩ (List.mem_cons_self ..) rfl
        simp only [register, hs, if_true]
        exact (bind_pure _).symm
      | _ => exact pure_bind _ _
    rw [hstep, hnext, pure_bind]
    rfl

end Lint

namespace Bytecode

variable {code : Bytes} {insns : List Insn} {pool : List Bytes} {i : Insn}

theorem isExecutable_of_fetch {pc : Nat} (h : fetch code pc = .ok i) :
    i.op.isExecutable = true := by
  unfold fetch at h
  split at h
  · cases h
  · split at h
    · dsimp only at h
      split at h
      · cases h
        assumption
      · cases h
    · cases h

theorem isExecutable_of_instructionsFrom {pc : Nat} (h : instructionsFrom code pc = .ok insns) :
    ∀ i ∈ insns, i.op.isExecutable = true := by
  induction pc using forward_induction code generalizing insns with
  | error pc f hf =>
    rw [instructionsFrom_of_error hf] at h
    cases h
  | ok pc insn hf ih =>
    rw [instructionsFrom_of_fetch hf] at h
    have hexec := isExecutable_of_fetch hf
    split at h
    · cases h
      exact List.forall_mem_singleton.2 hexec
    · cases hrest : instructionsFrom code (pc + insnWidth) with
      | error f =>
        rw [hrest] at h
        cases h
      | ok rest =>
        rw [hrest] at h
        cases h
        exact List.forall_mem_cons.2 ⟨hexec, ih _ (Nat.le_refl _) hrest⟩

theorem fetch_of_getElem? {l : List Insn} {k : Nat} (after : Bytes) (hk : l[k]? = some i)
    (hi : i.op.isExecutable = true) :
    fetch (l.flatMap encodeInsn ++ after) (k * insnWidth) = .ok i := by
  obtain ⟨hlt, rfl⟩ := List.getElem?_eq_some_iff.1 hk
  have hsplit : l = l.take k ++ l[k] :: l.drop (k + 1) := by
    rw [List.getElem_cons_drop, List.take_append_drop]
  have hfetch := fetch_flatMap l after (l.take k) l[k] (l.drop (k + 1)) hsplit
  rwa [List.length_take_of_le (Nat.le_of_lt hlt), if_pos hi] at hfetch

namespace WellFormed

theorem executable (h : WellFormed code insns pool) : ∀ i ∈ insns, i.op.isExecutable = true :=
  isExecutable_of_instructionsFrom h.read

theorem fetch (h : WellFormed code insns pool) {k : Nat} (hk : insns[k]? = some i) :
    Bytecode.fetch code (k * insnWidth) = .ok i := by
  rw [h.layout]
  exact fetch_of_getElem? _ hk (h.executable i (List.mem_of_getElem? hk))

theorem lt_of_ne_ret (h : WellFormed code insns pool) {k : Nat} (hk : insns[k]? = some i)
    (hi : i.op ≠ .ret) : k + 1 < insns.length := by
  obtain ⟨init, arg, rfl, -⟩ := h.ret
  obtain ⟨hlt, rfl⟩ := List.getElem?_eq_some_iff.1 hk
  rw [List.length_append, List.length_singleton] at hlt ⊢
  by_contra hend
  obtain rfl : k = init.length := by omega
  simp at hi

/-- A jump leads ahead to an instruction that does not read the text register. -/
theorem exists_target (h : WellFormed code insns pool) {k : Nat} (hk : insns[k]? = some i)
    (hi : i.op.isJump = true) :
    ∃ t, jump (k * insnWidth + insnWidth) i.arg = .ok (t * insnWidth) ∧ k < t ∧
      t < insns.length ∧
      ∀ j, insns[t]? = some j → j.op.readsText = false := by
  obtain ⟨t, harg, hlt, hle⟩ := h.jumps k i hk hi
  refine ⟨t, ?_, hlt, by omega, fun j hj => ?_⟩
  · rw [jump, harg, if_neg, Int.toNat_natCast, Nat.mul_comm]
    rw [insnWidth]
    omega
  · cases hread : j.op.readsText with
    | false => rfl
    | true => exact absurd harg ((h.loads t j hj hread).2 i (List.mem_of_getElem? hk) hi)

theorem exists_text (h : WellFormed code insns pool) (hsize : code.length < 2 ^ 31)
    (hi : i ∈ insns) (htext : i.op.operand = .text) :
    insns.length * insnWidth ≤ i.arg.toInt.toNat ∧ ∃ s, textAt code i.arg = .ok s := by
  obtain ⟨k, hk, harg⟩ := h.texts i hi htext
  have hsplit : pool = pool.take k ++ pool[k] :: pool.drop (k + 1) := by
    rw [List.getElem_cons_drop, List.take_append_drop]
  have hcode : code = (insns.flatMap encodeInsn ++ (pool.take k).flatMap (· ++ [0])) ++
      (pool[k] ++ 0 :: (pool.drop (k + 1)).flatMap (· ++ [0])) := by
    conv_lhs => rw [h.layout, hsplit]
    simp only [List.flatMap_append, List.flatMap_cons, List.append_assoc, List.cons_append,
      List.nil_append]
  have hlength : (insns.flatMap encodeInsn ++ (pool.take k).flatMap (· ++ [0])).length =
      insnWidth * insns.length + ((pool.take k).map (·.length + 1)).sum := by
    rw [List.length_append, length_flatMap_encodeInsn, Assembly.length_flatMap_texts,
      Nat.mul_comm]
  have hshort :
      (insns.flatMap encodeInsn ++ (pool.take k).flatMap (· ++ [0])).length < 2 ^ 31 := by
    rw [hcode, List.length_append] at hsize
    omega
  rw [← hlength] at harg
  refine ⟨?_, pool[k].upToZero, ?_⟩
  · rw [harg, Int.toNat_natCast, hlength]
    exact Nat.le_add_right_of_le (Nat.le_of_eq (Nat.mul_comm _ _))
  · rw [← toInt_ofNat hshort, Int32.toInt_inj] at harg
    rw [harg, hcode]
    exact textAt_append_upToZero _ _ _ hshort

end WellFormed
end Bytecode

namespace Lint

variable {texts : Int32 → Except Fault Bytes} {known : Answers} {target : Dbref} {text : Bytes}
  {code : Bytes} {insns : List Insn} {pool : List Bytes}

theorem getElem?_of_withText {l : List Insn} {k : Nat} {p : Bytes × Insn}
    (h : (withText texts text l)[k]? = some p) : l[k]? = some p.2 := by
  rw [← map_withText texts text l, List.getElem?_map, h]
  rfl

theorem register_withText {l : List Insn} {k : Nat} {p q : Bytes × Insn}
    (hp : (withText texts text l)[k]? = some p)
    (hq : (withText texts text l)[k + 1]? = some q) : q.1 = register texts p.1 p.2 := by
  induction l generalizing text k with
  | nil => cases hp
  | cons i rest ih =>
    cases k with
    | zero =>
      cases hp
      cases rest with
      | nil => cases hq
      | cons j rest =>
        cases hq
        rfl
    | succ k => exact ih hp hq

/-- Where the instruction at a place reads the text register, the register is the one that the
check finds. -/
def Tracks (code : Bytes) (insns : List Insn) (k : Nat) (text : Bytes) : Prop :=
  ∀ p, (withText (textAt code) [] insns)[k]? = some p → p.2.op.readsText = true → text = p.1

theorem Tracks.start (insns : List Insn) : Tracks code insns 0 [] := by
  intro p hp _
  cases insns with
  | nil => cases hp
  | cons i rest =>
    cases hp
    rfl

theorem Tracks.next (h : Bytecode.WellFormed code insns pool) {k : Nat} {p : Bytes × Insn}
    (hp : (withText (textAt code) [] insns)[k]? = some p)
    (htext : p.2.op = .loadText → text = register (textAt code) p.1 p.2) :
    Tracks code insns (k + 1) text := by
  intro q hq hread
  obtain ⟨⟨arg, -, hload⟩, -⟩ := h.loads (k + 1) q.2 (getElem?_of_withText hq) hread
  rw [register_withText hp hq]
  refine htext ?_
  rw [Option.some.inj ((getElem?_of_withText hp).symm.trans hload)]

theorem Tracks.jump {k : Nat} (h : ∀ j, insns[k]? = some j → j.op.readsText = false) :
    Tracks code insns k text := by
  intro q hq hread
  rw [h q.2 (getElem?_of_withText hq)] at hread
  cases hread

theorem Tracks.causes_eq {k : Nat} {t : Bytes} {i : Insn} (h : Tracks code insns k text)
    (hp : (withText (textAt code) [] insns)[k]? = some (t, i)) :
    known.causes target (text, i) = known.causes target (t, i) := by
  cases hread : i.op.readsText with
  | true => rw [h (t, i) hp hread]
  | false => exact causes_of_not_readsText hread text

theorem muted_eq_self {p : Bytes × Insn} (h : known.causes target p = []) :
    known.muted target p = p.2 := by
  rw [Answers.muted, h]
  rfl

theorem muted_of_causes {p : Bytes × Insn} (h : known.causes target p ≠ []) :
    known.muted target p = ⟨.loadResult, 0⟩ := by
  rw [Answers.muted, if_neg (by simpa using h)]

theorem isTest_of_causes {p : Bytes × Insn} (h : known.causes target p ≠ []) :
    p.2.op.isTest = true := by
  obtain ⟨t, op, arg⟩ := p
  cases op with
  | ret | jumpTrue | jumpFalse | loadText | negate | paren | label | unassigned =>
    exact absurd rfl h
  | _ => rfl

theorem isExecutable_muted {p : Bytes × Insn} (h : p.2.op.isExecutable = true) :
    (known.muted target p).op.isExecutable = true := by
  rw [Answers.muted]
  split
  · exact h
  · rfl

theorem mute_eq (h : Bytecode.WellFormed code insns pool) :
    mute known target code =
      ((withText (textAt code) [] insns).map (known.muted target)).flatMap encodeInsn ++
      pool.flatMap (· ++ [0]) := by
  have hdrop : code.drop (insns.length * insnWidth) = pool.flatMap (· ++ [0]) := by
    conv_lhs => rw [h.layout]
    rw [List.drop_left' (Bytecode.length_flatMap_encodeInsn insns)]
  rw [mute, h.read]
  simp only [hdrop]

theorem fetch_mute (h : Bytecode.WellFormed code insns pool) {k : Nat} {p : Bytes × Insn}
    (hp : (withText (textAt code) [] insns)[k]? = some p) :
    Bytecode.fetch (mute known target code) (k * insnWidth) = .ok (known.muted target p) := by
  have hexec := h.executable p.2 (List.mem_of_getElem? (getElem?_of_withText hp))
  rw [mute_eq h]
  refine Bytecode.fetch_of_getElem? _ ?_ (isExecutable_muted hexec)
  rw [List.getElem?_map, hp]
  rfl

theorem textAt_mute (h : Bytecode.WellFormed code insns pool) (hsize : code.length < 2 ^ 31)
    {i : Insn} (hi : i ∈ insns) (htext : i.op.operand = .text) :
    textAt (mute known target code) i.arg = textAt code i.arg := by
  rw [mute_eq h]
  conv_rhs => rw [h.layout]
  refine Bytecode.textAt_append_congr ?_ ?_
  · rw [Bytecode.length_flatMap_encodeInsn, Bytecode.length_flatMap_encodeInsn, List.length_map,
      length_withText]
  · rw [Bytecode.length_flatMap_encodeInsn]
    exact (h.exists_text hsize hi htext).1

theorem causes_muted (p : Bytes × Insn) :
    known.causes target (p.1, known.muted target p) = [] := by
  by_cases h : known.causes target p = []
  · rwa [muted_eq_self h]
  · rw [muted_of_causes h]
    rfl

theorem withText_muted {texts' : Int32 → Except Fault Bytes}
    (h : ∀ i ∈ insns, i.op = .loadText → texts' i.arg = texts i.arg) :
    withText texts' text ((withText texts text insns).map (known.muted target)) =
      (withText texts text insns).map fun p => (p.1, known.muted target p) := by
  induction insns generalizing text with
  | nil => rfl
  | cons i rest ih =>
    have hregister :
        register texts' text (known.muted target (text, i)) = register texts text i := by
      by_cases hcauses : known.causes target (text, i) = []
      · rw [muted_eq_self hcauses, register, register]
        split
        · rw [h i (List.mem_cons_self ..) ‹_›]
        · rfl
      · have htest := isTest_of_causes hcauses
        rw [muted_of_causes hcauses, register, register, if_neg (by simp), if_neg]
        intro hop
        rw [hop] at htest
        cases htest
    simp only [withText, List.map_cons, hregister]
    rw [ih fun j hj => h j (List.mem_cons_of_mem i hj)]

variable {m : Type → Type} [Monad m] [LawfulMonad m] {w : World m}

theorem checkFrom_wellFormed (hw : w.Gives known) (h : Bytecode.WellFormed code insns pool)
    (hsize : code.length < 2 ^ 31) :
    checkFrom w code target 0 [] =
      pure ((withText (textAt code) [] insns).flatMap (known.causes target)) := by
  obtain ⟨init, arg, rfl, hinit⟩ := h.ret
  have htexts (i : Insn) (hi : i ∈ init) (hop : i.op = .loadText) :
      ∃ s, textAt code i.arg = .ok s :=
    (h.exists_text hsize (List.mem_append_left _ hi) (by rw [hop]; rfl)).2
  have hexec := h.executable
  obtain rfl := h.layout
  refine checkFrom_eq hw [] init rfl rfl (fun i hi => ⟨?_, hinit i hi⟩) htexts []
  exact hexec i (List.mem_append_left _ hi)

/-- There is nothing left to warn of. -/
theorem checkFrom_mute (hw : w.Gives known) (h : Bytecode.WellFormed code insns pool)
    (hsize : code.length < 2 ^ 31) :
    checkFrom w (mute known target code) target 0 [] = pure [] := by
  have htexts {i : Insn} (hi : i ∈ insns) (hop : i.op = .loadText) :
      textAt (mute known target code) i.arg = textAt code i.arg ∧ ∃ s,
        textAt code i.arg = .ok s := by
    have htext : i.op.operand = .text := by
      rw [hop]
      rfl
    exact ⟨textAt_mute h hsize hi htext, (h.exists_text hsize hi htext).2⟩
  have hnone : (withText (textAt (mute known target code)) []
      ((withText (textAt code) [] insns).map (known.muted target))).flatMap
      (known.causes target) = [] := by
    rw [withText_muted fun i hi hop => (htexts hi hop).1, List.flatMap_map,
      List.flatMap_eq_nil_iff]
    exact fun p _ => causes_muted p
  obtain ⟨init, arg, rfl, hinit⟩ := h.ret
  have hsplit : (withText (textAt code) [] (init ++ [⟨.ret, arg⟩])).map (known.muted target) =
      (withText (textAt code) [] init).map (known.muted target) ++ [⟨.ret, arg⟩] := by
    rw [withText_append, List.map_append]
    rfl
  have hmuted (i : Insn) (hi : i ∈ (withText (textAt code) [] init).map (known.muted target)) :
      (i.op.isExecutable = true ∧ i.op ≠ .ret) ∧
        (i.op = .loadText → ∃ s, textAt (mute known target code) i.arg = .ok s) := by
    obtain ⟨p, hp, rfl⟩ := List.mem_map.1 hi
    have hmem : p.2 ∈ init := by
      rw [← map_withText (textAt code) [] init]
      exact List.mem_map_of_mem hp
    by_cases hcauses : known.causes target p = []
    · rw [muted_eq_self hcauses]
      refine ⟨⟨h.executable _ (List.mem_append_left _ hmem), hinit _ hmem⟩, fun hop => ?_⟩
      obtain ⟨hsame, hread⟩ := htexts (List.mem_append_left _ hmem) hop
      rwa [hsame]
    · rw [muted_of_causes hcauses]
      exact ⟨⟨rfl, by decide⟩, fun hop => Opcode.noConfusion hop⟩
  rw [mute_eq h] at hnone hmuted ⊢
  refine (checkFrom_eq hw [] _ hsplit rfl (fun i hi => (hmuted i hi).1)
    (fun i hi => (hmuted i hi).2) []).trans ?_
  rw [← hsplit, hnone]

end Lint

namespace Machine

variable {m : Type → Type} [Monad m] [LawfulMonad m] (v : Machine m) {known : Lint.Answers}
  {nested : Dbref → LockCode → EvalState → m (Bool × EvalState)}
  {texts texts' : Int32 → Except Fault Bytes}
  {subject target : Dbref} {pc : Nat} {i : Insn} {result : Bool} {text : Bytes} {st : EvalState}

omit [LawfulMonad m] in
theorem execute_texts (h : i.op.operand = .text → texts' i.arg = texts i.arg) :
    v.execute nested texts' subject target pc i result text st =
      v.execute nested texts subject target pc i result text st := by
  obtain ⟨op, arg⟩ := i
  cases op with
  | loadText => simp only [execute, h rfl]
  | testAttr => simp only [execute, h rfl]
  | testEval => simp only [execute, h rfl]
  | testClass => simp only [execute, h rfl]
  | _ => rfl

/-- A test that is warned of does not pass and does nothing else. -/
theorem execute_of_causes (hw : v.world.Gives known) (hsubject : known.isValid subject = true)
    (htext : i.op.operand = .text → ∃ s, texts i.arg = .ok s)
    (h : known.causes target (text, i) ≠ []) :
    v.execute nested texts subject target pc i result text st = pure (.next false text st) := by
  obtain ⟨op, arg⟩ := i
  have hinvalid {cause : Warning.Cause}
      (h : (if known.isValid (operandObject arg) then [] else [cause]) ≠ []) :
      known.isValid (operandObject arg) = false := by
    cases hd : known.isValid (operandObject arg) with
    | false => rfl
    | true =>
      rw [if_pos hd] at h
      exact absurd rfl h
  cases op with
  | testConst => simp [execute, testConst, hw.isValid, hinvalid h]
  | testCarry => simp [execute, testCarry, hw.isValid, hinvalid h]
  | testOwner => simp [execute, testOwner, hw.isValid, hinvalid h]
  | testIs =>
    have hne : operandObject arg ≠ subject := by
      rintro rfl
      rw [hinvalid h] at hsubject
      cases hsubject
    rw [execute, beq_false_of_ne hne]
  | testIndirect =>
    have hcases : known.isValid (operandObject arg) = false ∨
        known.canReadLock target (operandObject arg) text = false := by
      cases hd : known.isValid (operandObject arg) with
      | false => exact .inl rfl
      | true =>
        cases hread : known.canReadLock target (operandObject arg) text with
        | false => exact .inr rfl
        | true => simp [Lint.Answers.causes, hd, hread] at h
    simp only [execute, testIndirect, hw.isValid, hw.canReadLock, pure_bind]
    rcases hcases with hd | hread
    · simp [hd]
    · simp [hread]
  | testEval =>
    obtain ⟨s, hs⟩ := htext rfl
    have hread : known.canReadAttribute target target text = false := by
      cases hread : known.canReadAttribute target target text with
      | false => rfl
      | true => simp [Lint.Answers.causes, hread] at h
    simp only at hs
    simp [execute, testEval, hs, hw.canReadAttribute, hread]
  | _ => exact absurd rfl h

/-- Code does the same without the tests that are warned of. The check does not follow jumps,
but finds the registers of the run. -/
theorem verdictFrom_mute (hw : v.world.Gives known) (hsubject : known.isValid subject = true)
    {code : Bytes} {insns : List Insn} {pool : List Bytes}
    (h : Bytecode.WellFormed code insns pool) (hsize : code.length < 2 ^ 31)
    {k : Nat} (hk : k < insns.length) (htrack : Lint.Tracks code insns k text) :
    v.verdictFrom nested (Lint.mute known target code) subject target (k * insnWidth)
      result text st =
      v.verdictFrom nested code subject target (k * insnWidth) result text st := by
  induction hn : insns.length - k using Nat.strongRecOn generalizing k result text st with
  | ind n ih =>
    obtain ⟨⟨t, i⟩, hp⟩ : ∃ p, (Lint.withText (textAt code) [] insns)[k]? = some p :=
      ⟨_, List.getElem?_eq_getElem (by rwa [Lint.length_withText])⟩
    have hget : insns[k]? = some i := Lint.getElem?_of_withText hp
    have hmem := List.mem_of_getElem? hget
    have hnext (hret : i.op ≠ .ret) (result' : Bool) (text' : Bytes) (st' : EvalState)
        (htext : i.op = .loadText → text' = Lint.register (textAt code) t i) :
        v.verdictFrom nested (Lint.mute known target code) subject target
            (k * insnWidth + insnWidth) result' text' st' =
          v.verdictFrom nested code subject target (k * insnWidth + insnWidth) result'
            text' st' := by
      rw [← Nat.succ_mul]
      exact ih (insns.length - (k + 1)) (by omega) (h.lt_of_ne_ret hget hret)
        (.next h hp htext) rfl
    rw [v.verdictFrom_of_fetch (h.fetch hget), v.verdictFrom_of_fetch (Lint.fetch_mute h hp)]
    by_cases hcauses : known.causes target (t, i) = []
    · rw [Lint.muted_eq_self hcauses,
        v.execute_texts fun htext => Lint.textAt_mute h hsize hmem htext]
      by_cases hload : i.op = .loadText
      · obtain ⟨-, s, hs⟩ := h.exists_text hsize hmem (by rw [hload]; rfl)
        have hrun :
            v.execute nested (textAt code) subject target (k * insnWidth) i result text st =
            pure (.next result s st) := by
          simp only [execute, hload, hs]
        rw [hrun, pure_bind, pure_bind]
        refine hnext (by rw [hload]; decide) result s st fun _ => ?_
        rw [Lint.register, if_pos hload, hs]
        rfl
      by_cases hret : i.op = .ret
      · have hrun :
            v.execute nested (textAt code) subject target (k * insnWidth) i result text st =
            pure (.done (.ok result) st) := by
          simp only [execute, hret]
        rw [hrun, pure_bind, pure_bind]
        rfl
      refine v.execute_stemsFrom.bind_eq fun action hstem => ?_
      cases action with
      | done verdict st' => rfl
      | next result' text' st' => exact hnext hret result' text' st' fun hop => absurd hop hload
      | jump =>
        obtain ⟨t', hjump, hlt, hlt', hread⟩ := h.exists_target hget (hstem rfl)
        simp only [resume, hjump]
        exact ih (insns.length - t') (by omega) hlt' (.jump hread) rfl
    · have hcauses' : known.causes target (text, i) ≠ [] := by rwa [htrack.causes_eq hp]
      have htest := Lint.isTest_of_causes hcauses
      have hne {op : Opcode} (hop : op.isTest = false) : i.op ≠ op := by
        rintro rfl
        cases hop.symm.trans htest
      rw [Lint.muted_of_causes hcauses,
        v.execute_of_causes hw hsubject
          (fun htext => (h.exists_text hsize hmem htext).2) hcauses']
      simp only [execute, pure_bind]
      exact hnext (hne rfl) false text st fun hload => absurd hload (hne rfl)

theorem runCode_mute (hw : v.world.Gives known) (hsubject : known.isValid subject = true)
    {code : Bytes} {insns : List Insn} {pool : List Bytes}
    (h : Bytecode.WellFormed code insns pool) (hsize : code.length < 2 ^ 31) :
    v.runCode nested (Lint.mute known target code) subject target st =
      v.runCode nested code subject target st := by
  obtain ⟨init, arg, hinsns, -⟩ := h.ret
  have hlength : 0 < insns.length := by
    rw [hinsns, List.length_append]
    exact Nat.succ_pos _
  have hverdict :
      v.verdictFrom nested (Lint.mute known target code) subject target 0 false [] st =
      v.verdictFrom nested code subject target 0 false [] st :=
    v.verdictFrom_mute hw hsubject h hsize hlength (Lint.Tracks.start insns)
  rw [runCode, runCode, hverdict]

end Machine

/-- What warnings say about a lock. The code of a key that can be compiled is warned of once for
every flaw of the key, in the order of the key, if no name that is asked for has a zero byte.
And without the tests that are warned of there is nothing left to warn of, and whoever is in the
world passes as before, with the same messages. -/
theorem Lock.warnings_exact {key : Key} {lock : LockCode} (h : Lock.ofKey (some key) = .ok lock)
    (hsize : lock.size < 2 ^ 31) :
    ∃ code, lock = some code ∧
      ∀ (m : Type → Type) [Monad m] [LawfulMonad m] (v : Machine m) (known : Lint.Answers),
        v.world.Gives known →
        ∀ target : Dbref,
          ((∀ s ∈ key.askedNames, 0 ∉ s) → ∀ (owner : Dbref) (name : Bytes),
            Lint.check v.world lock owner target name =
              pure ((key.flaws known target).map fun cause => ⟨owner, target, name, cause⟩)) ∧
          (∀ (owner : Dbref) (name : Bytes),
            Lint.check v.world (some (Lint.mute known target code)) owner target name =
              pure []) ∧
          ∀ subject : Dbref, known.isValid subject = true →
            (∀ st, v.run (some (Lint.mute known target code)) subject target st =
              v.run lock subject target st) ∧
            v.evaluate (some (Lint.mute known target code)) subject target =
              v.evaluate lock subject target := by
  obtain ⟨code, insns, pool, pieces, rfl, hcode, hpieces, hleaves⟩ := Lock.exists_leaves h hsize
  refine ⟨code, rfl,
    fun m _ _ v known hw target => ⟨?_, fun owner name => ?_, fun subject hsubject => ?_⟩⟩
  · intro hnames owner name
    rw [Lint.check, Lint.checkFrom_wellFormed hw hcode hsize, pure_bind,
      ← Lint.causes_filter, hpieces, Lint.causes_pieces hleaves, ← Key.leaves_curtail,
      Key.flaws_leaves, Key.flaws_curtail hnames]
  · rw [Lint.check, Lint.checkFrom_mute hw hcode hsize, pure_bind]
    rfl
  · have hrun (st : EvalState) :
        v.run (some (Lint.mute known target code)) subject target st =
          v.run (some code) subject target st := by
      rw [v.run_some, v.run_some, v.runCode_mute hw hsubject hcode hsize]
    exact ⟨hrun, by rw [Machine.evaluate, Machine.evaluate, hrun]⟩

/-- A world with one object, which cannot read its own attribute `A`. -/
def World.lone : World Id :=
  { World.nowhere with
    isValid := fun d => d == 1
    canReadAttribute := fun _ _ name => name != [65] }

/-- The code of `A`, a zero byte and `B/x`. -/
def Lock.zeroNamedCode : Bytes :=
  [3, 15, 0, 0, 0, 14, 19, 0, 0, 0, 0, 0, 0, 0, 0, 65, 0, 66, 0, 120, 0]

/-- Two tests of attributes, the first one with a name of `n` letters. -/
def Key.longNamed (n : Nat) : Key :=
  .and 0 (.attr 0 (List.replicate n 65) [100]) (.attr 0 [66] [100])

def Assembly.longNamed (n : Nat) : Assembly :=
  ⟨[⟨.loadText, 0⟩, ⟨.testAttr, 1⟩, ⟨.jumpFalse, 0⟩, ⟨.loadText, 2⟩, ⟨.testAttr, 1⟩,
    ⟨.label, 0⟩, ⟨.ret, 0⟩], [List.replicate n 65, [100], [66]], 1⟩

theorem Lock.ofKey_longNamed {n : Nat} (hn : 1 < n) :
    Lock.ofKey (some (.longNamed n)) = .ok (some (Assembly.longNamed n).bytes) := by
  have hne (b : UInt8) : ((List.replicate n 65 : Bytes) == [b]) = false := by
    refine beq_false_of_ne fun he => ?_
    have hlength := congrArg List.length he
    rw [List.length_replicate, List.length_singleton] at hlength
    omega
  have hname :
      Assembly.addText [List.replicate n 65] [100] = ([List.replicate n 65, [100]], 1) := by
    simp [Assembly.addText, List.findIdx?_cons, hne]
  have hsecond : Assembly.addText [List.replicate n 65, [100]] [66] =
      ([List.replicate n 65, [100], [66]], 2) := by
    simp [Assembly.addText, List.findIdx?_cons, hne]
  have hpattern : Assembly.addText [List.replicate n 65, [100], [66]] [100] =
      ([List.replicate n 65, [100], [66]], 1) := by
    simp [Assembly.addText, List.findIdx?_cons, hne]
  have hwrite : Assembly.ofKey (some (.longNamed n)) = .ok (Assembly.longNamed n) := by
    have hfirst : Assembly.addText [] (List.replicate n 65) = ([List.replicate n 65], 0) := rfl
    simp only [Assembly.ofKey, Key.longNamed, Assembly.write, Assembly.textTest, hfirst, hname,
      hsecond, hpattern]
    rfl
  rw [Lock.ofKey, hwrite]
  rfl

/-- The second name of the key stands too far behind the first one to be named. -/
theorem Lint.check_longNamed {m : Type → Type} [Monad m] [LawfulMonad m] (w : World m) {n : Nat}
    (hlow : 2 ^ 31 ≤ n + 33) (hhigh : n + 33 < 2 ^ 32) (owner target : Dbref) (name : Bytes) :
    ∃ f, check w (some (Assembly.longNamed n).bytes) owner target name =
      pure [⟨owner, target, name, .corrupt f⟩] := by
  let a := Assembly.longNamed n
  obtain ⟨f, htext⟩ : ∃ f, textAt a.bytes (a.textOffset 2) = .error f := by
    have hoffset : a.textOffset 2 = Int32.ofNat (n + 33) := by
      have htwo : (2 : Int32).toInt.toNat = 2 := by decide
      rw [Assembly.textOffset, htwo]
      refine congrArg Int32.ofNat ?_
      simp [a, Assembly.longNamed, Assembly.insnCount, insnWidth]
      omega
    rw [hoffset]
    exact Bytecode.textAt_wrapped hlow hhigh a.bytes
  have hfetch (pc : Nat) (before : List Insn) (i : Insn) {rest : List Insn}
      (h : (Assembly.solid a.code).map a.resolve = before ++ i :: rest)
      (hpc : pc = before.length * insnWidth) (hexec : i.op.isExecutable = true) :
      Bytecode.fetch a.bytes pc = .ok i := by
    rw [hpc, Assembly.bytes, Bytecode.fetch_flatMap _ _ before i rest h, if_pos hexec]
  have hload (text : Bytes) : checkFrom w a.bytes target 15 text = pure [.corrupt f] := by
    rw [checkFrom_of_fetch w (hfetch 15 [_, _, _] ⟨.loadText, a.textOffset 2⟩ rfl rfl rfl)]
    simp only [htext]
  have hjump (text : Bytes) : checkFrom w a.bytes target 10 text = pure [.corrupt f] := by
    rw [checkFrom_of_fetch w
      (hfetch 10 [_, _] ⟨.jumpFalse, Assembly.labelOffset a.code 0⟩ rfl rfl rfl)]
    simp only [checkInsn, pure_bind, insnWidth, hload, List.nil_append]
  have htest (text : Bytes) : checkFrom w a.bytes target 5 text = pure [.corrupt f] := by
    rw [checkFrom_of_fetch w (hfetch 5 [_] ⟨.testAttr, a.textOffset 1⟩ rfl rfl rfl)]
    simp only [checkInsn, pure_bind, insnWidth, hjump, List.nil_append]
  have hfirst : ∃ f, checkFrom w a.bytes target 0 [] = pure [.corrupt f] := by
    rw [checkFrom_of_fetch w (hfetch 0 [] ⟨.loadText, a.textOffset 0⟩ rfl rfl rfl)]
    cases textAt a.bytes (a.textOffset 0) with
    | error f' => exact ⟨f', rfl⟩
    | ok text => exact ⟨f, htest text⟩
  obtain ⟨f', hcheck⟩ := hfirst
  exact ⟨f', by rw [check, hcheck, pure_bind]; rfl⟩

/-- Keys without flaws that are warned of. An attribute that can be read, with a zero byte in
its name, is taken for another one. And in code that is too long for the offsets in it, texts
are not found. -/
theorem Lock.flawless_keys_warned :
    (Lock.ofKey (some (.eval 0 [65, 0, 66] [120])) = .ok (some Lock.zeroNamedCode) ∧
      Key.flaws World.lone.answers 1 (.eval 0 [65, 0, 66] [120]) = [] ∧
      Lint.check World.lone (some Lock.zeroNamedCode) 1 1 [66] =
        [⟨1, 1, [66], .unreadableAttribute [65]⟩]) ∧
    ∃ (key : Key) (code : Bytes) (f : Fault), Lock.ofKey (some key) = .ok (some code) ∧
      key.askedNames = [] ∧ key.flaws World.lone.answers 1 = [] ∧
      Lint.check World.lone (some code) 1 1 [66] = [⟨1, 1, [66], .corrupt f⟩] := by
  refine ⟨⟨rfl, rfl, by cbv⟩, ?_⟩
  obtain ⟨f, hcheck⟩ :=
    Lint.check_longNamed World.lone (n := 2 ^ 31) (by decide) (by decide) 1 1 [66]
  exact ⟨_, _, f, ofKey_longNamed (by decide), rfl, rfl, hcheck⟩

/-- The key `!=#5|A/x`. -/
def Key.flawed : Key := .or 4 (.not 0 (.is 1 5)) (.eval 5 [65] [120])

theorem Lock.warnings_exact_flawed :
    ∃ code, Lock.ofKey (some Key.flawed) = .ok (some code) ∧ code.length < 2 ^ 31 ∧
      (∀ s ∈ Key.flawed.askedNames, 0 ∉ s) ∧ World.lone.isValid 1 = true ∧
      Lint.check World.lone (some code) 1 1 [66] =
        [⟨1, 1, [66], .invalidObject 5⟩, ⟨1, 1, [66], .unreadableAttribute [65]⟩] ∧
      ∀ st, Machine.run ⟨World.lone, .standard, defaultMaxDepth⟩
          (some (Lint.mute World.lone.answers 1 code)) 1 1 st =
        Machine.run ⟨World.lone, .standard, defaultMaxDepth⟩ (some code) 1 1 st := by
  have hkey : ∃ lock, Lock.ofKey (some Key.flawed) = .ok lock ∧ lock.size < 2 ^ 31 :=
    ⟨_, rfl, by decide⟩
  obtain ⟨lock, hlock, hsize⟩ := hkey
  obtain ⟨code, rfl, hwarnings⟩ := Lock.warnings_exact hlock hsize
  have hnames : ∀ s ∈ Key.flawed.askedNames, 0 ∉ s := by decide
  obtain ⟨hcheck, -, hrun⟩ :=
    hwarnings Id ⟨World.lone, .standard, defaultMaxDepth⟩ World.lone.answers
      World.lone.gives_answers 1
  exact ⟨code, hlock, hsize, hnames, rfl, hcheck hnames 1 [66], (hrun 1 rfl).1⟩

end Locksmith
