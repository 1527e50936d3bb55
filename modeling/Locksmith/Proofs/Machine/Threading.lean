import Locksmith.Machine.Threading
import Locksmith.Proofs.Machine.Flow

namespace Locksmith

def Opcode.readsText : Opcode → Bool
  | testIndirect | testAttr | testEval | testClass => true
  | _ => false

namespace Assembly

/-- The programs do the same from any offset and with any registers, on every machine. -/
def SameRun (xs ys : List Insn) : Prop :=
  ∀ (m : Type → Type) [Monad m] [LawfulMonad m] (v : Machine m)
    (nested : Dbref → LockCode → EvalState → m (Bool × EvalState))
    (texts : Int32 → Except Fault Bytes)
    (subject target : Dbref) (pc : Nat) (result : Bool) (text : Bytes) (st : EvalState),
    v.flow nested texts subject target xs pc result text st =
      v.flow nested texts subject target ys pc result text st

/-- A jump to the label from outside leads to the same code over the same distance. -/
def SameLanding (l : Int32) (xs ys : List Insn) : Prop :=
  after l xs = after l ys ∧ insnCount (skipped l xs) = insnCount (skipped l ys)

theorem SameRun.refl (xs : List Insn) : SameRun xs xs := fun _ _ _ _ _ _ _ _ _ _ _ _ => rfl

theorem SameRun.trans {xs ys zs : List Insn} (h : SameRun xs ys) (h' : SameRun ys zs) :
    SameRun xs zs := fun m _ _ v nested texts subject target pc result text st =>
  (h m v nested texts subject target pc result text st).trans
    (h' m v nested texts subject target pc result text st)

theorem skipped_append_of_not_mem {l : Int32} {xs ys : List Insn} (h : l ∉ placed xs) :
    skipped l (xs ++ ys) = xs ++ skipped l ys := by
  rw [skipped, List.takeWhile_append_of_pos (by simpa using not_places h)]
  rfl

theorem after_append_of_not_mem {l : Int32} {xs ys : List Insn} (h : l ∉ placed xs) :
    after l (xs ++ ys) = after l ys := by
  rw [after, List.dropWhile_append_of_pos (by simpa using not_places h)]
  rfl

theorem skipped_cons {i : Insn} (h : i.op ≠ .label) (l : Int32) (rest : List Insn) :
    skipped l (i :: rest) = i :: skipped l rest := by
  have hl : l ∉ placed [i] := by
    rw [placed_cons h]
    exact List.not_mem_nil
  exact skipped_append_of_not_mem hl

theorem after_cons {i : Insn} (h : i.op ≠ .label) (l : Int32) (rest : List Insn) :
    after l (i :: rest) = after l rest := by
  have hl : l ∉ placed [i] := by
    rw [placed_cons h]
    exact List.not_mem_nil
  exact after_append_of_not_mem hl

theorem SameRun.append {pre xs ys : List Insn} (h : SameRun xs ys)
    (hl : ∀ i ∈ pre, i.op.isJump = true → SameLanding i.arg xs ys) :
    SameRun (pre ++ xs) (pre ++ ys) := by
  intro m _ _ v nested texts subject target
  induction hn : pre.length using Nat.strongRecOn generalizing pre with
  | ind n ih =>
    intro pc result text st
    rcases pre with _ | ⟨i, pre⟩
    · exact h m v nested texts subject target pc result text st
    have hrest : ∀ j ∈ pre, j.op.isJump = true → SameLanding j.arg xs ys :=
      fun j hj => hl j (List.mem_cons_of_mem i hj)
    have hlt : pre.length < n := by
      subst hn
      simp
    rw [List.cons_append, List.cons_append]
    by_cases hi : i.op = .label
    · rw [v.flow_label hi, v.flow_label hi]
      exact ih _ hlt hrest rfl pc result text st
    rw [v.flow_cons hi, v.flow_cons hi]
    refine v.execute_stemsFrom.bind_eq fun action hstem => ?_
    cases action with
    | done verdict st' => rfl
    | next result' text' st' => exact ih _ hlt hrest rfl _ result' text' st'
    | jump =>
      simp only [Machine.proceed]
      by_cases hp : i.arg ∈ placed pre
      · -- The jump ends inside the common part.
        obtain ⟨mid, tail, rfl, hmid⟩ := exists_split hp
        rw [List.append_assoc, List.append_assoc, List.cons_append, List.cons_append,
          after_append hmid, after_append hmid, skipped_append hmid, skipped_append hmid]
        refine ih tail.length ?_ (fun j hj => hrest j (by simp [hj])) rfl _ _ _ _
        rw [List.length_append, List.length_cons] at hlt
        omega
      · obtain ⟨hafter, hcount⟩ := hl i (List.mem_cons_self ..) (hstem rfl)
        rw [after_append_of_not_mem hp, after_append_of_not_mem hp,
          skipped_append_of_not_mem hp, skipped_append_of_not_mem hp, insnCount_append,
          insnCount_append, hafter, hcount]

/-- A label that no jump leads to may be placed anywhere. -/
theorem SameRun.insert_label {pre rest : List Insn} {l : Int32}
    (h : ∀ i ∈ pre, i.op.isJump = true → i.arg ≠ l) :
    SameRun (pre ++ rest) (pre ++ ⟨.label, l⟩ :: rest) := by
  refine SameRun.append (fun m _ _ v nested texts subject target pc result text st => ?_) ?_
  · rw [v.flow_label rfl]
  · intro i hi hj
    have hne : i.arg ∉ placed [⟨.label, l⟩] := by
      simpa [placed] using h i hi hj
    refine ⟨(after_append_of_not_mem hne).symm, ?_⟩
    rw [← List.singleton_append, skipped_append_of_not_mem hne, insnCount_append]
    exact (Nat.zero_add _).symm

/-- A jump may lead elsewhere if the same happens there. -/
theorem SameRun.retarget {pre rest : List Insn} {i : Insn} {l : Int32} (hi : i.op.isJump = true)
    (h : ∀ (m : Type → Type) [Monad m] [LawfulMonad m] (v : Machine m)
      (nested : Dbref → LockCode → EvalState → m (Bool × EvalState))
      (texts : Int32 → Except Fault Bytes) (subject target : Dbref) (pc : Nat) (result : Bool)
      (text : Bytes) (st : EvalState), result = (i.op == .jumpTrue) →
      v.flow nested texts subject target (after i.arg rest)
          (pc + insnCount (skipped i.arg rest) * Bytecode.insnWidth) result text st =
        v.flow nested texts subject target (after l rest)
          (pc + insnCount (skipped l rest) * Bytecode.insnWidth) result text st) :
    SameRun (pre ++ i :: rest) (pre ++ { i with arg := l } :: rest) := by
  have hlabel : i.op ≠ .label := by
    intro he
    rw [he] at hi
    cases hi
  refine SameRun.append (fun m _ _ v nested texts subject target pc result text st => ?_) ?_
  · rw [v.flow_jump hi, v.flow_jump (i := { i with arg := l }) hi]
    by_cases hr : result = (i.op == .jumpTrue)
    · rw [if_pos hr, if_pos hr]
      exact h m v nested texts subject target _ result text st hr
    · rw [if_neg hr, if_neg hr]
  · intro j _ _
    have hlabel' : ({ i with arg := l } : Insn).op ≠ .label := hlabel
    constructor
    · rw [after_cons hlabel, after_cons hlabel']
    · rw [skipped_cons hlabel, skipped_cons hlabel', insnCount_cons hlabel,
        insnCount_cons hlabel']

theorem flow_noise {m : Type → Type} [Monad m] [LawfulMonad m] (v : Machine m)
    {nested : Dbref → LockCode → EvalState → m (Bool × EvalState)}
    {texts : Int32 → Except Fault Bytes} {subject target : Dbref} {noise : List Insn}
    (h : ∀ i ∈ noise, i.isEffective = false) (rest : List Insn) (pc : Nat) (result : Bool)
    (text : Bytes) (st : EvalState) :
    v.flow nested texts subject target (noise ++ rest) pc result text st =
      v.flow nested texts subject target rest (pc + insnCount noise * Bytecode.insnWidth)
        result text st := by
  induction noise generalizing pc with
  | nil => rfl
  | cons i noise ih =>
    have ih := ih fun j hj => h j (List.mem_cons_of_mem i hj)
    by_cases hi : i.op = .label
    · rw [List.cons_append, v.flow_label hi, ih, insnCount_cons_label hi]
    · have hp : i.op = .paren := by
        simpa [Insn.isEffective, hi] using h i (List.mem_cons_self ..)
      rw [List.cons_append, v.flow_paren hp, ih, insnCount_cons hi, Nat.add_assoc]
      congr 2
      rw [Nat.add_mul, Nat.one_mul, Nat.add_comm]

theorem Forward.append_congr {xs ys ys' : List Insn} (h : Forward (xs ++ ys))
    (hs : ∀ l ∈ placed ys, l ∈ placed ys') (hy : Forward ys') : Forward (xs ++ ys') := by
  induction xs with
  | nil => exact hy
  | cons i xs ih =>
    refine ⟨fun hi => ?_, ih h.2⟩
    have hm : i.arg ∈ placed (xs ++ ys) := h.1 hi
    rw [placed_append, List.mem_append] at hm
    show i.arg ∈ placed (xs ++ ys')
    rw [placed_append, List.mem_append]
    exact hm.imp id (hs _)

theorem isJump_iff {op : Opcode} : op.isJump = true ↔ op = .jumpTrue ∨ op = .jumpFalse := by
  cases op <;> simp [Opcode.isJump]

theorem op_ne_label {i : Insn} (h : i.op.isJump = true) : i.op ≠ .label := by
  intro he
  rw [he] at h
  cases h

theorem Linked.mem_placed {code : List Insn} (h : Linked code) {i : Insn} (hi : i ∈ code)
    (hj : i.op.isJump = true) : i.arg ∈ placed code :=
  List.count_pos_iff.1 (by rw [h.once i hi hj]; exact Nat.one_pos)

/-- The label of a jump stands nowhere else. -/
theorem Linked.alone {code : List Insn} (h : Linked code) (xs ys : List Insn) {i : Insn}
    (hcode : code = xs ++ ⟨.label, i.arg⟩ :: ys) (hi : i ∈ code) (hj : i.op.isJump = true) :
    i.arg ∉ placed xs ∧ i.arg ∉ placed ys := by
  have hc := h.once i hi hj
  subst hcode
  rw [placed_append, placed_cons_label, List.count_append, List.count_cons_self] at hc
  exact ⟨List.count_eq_zero.1 (by omega), List.count_eq_zero.1 (by omega)⟩

theorem Linked.not_mem_mid {pre mid rest : List Insn} {i : Insn}
    (h : Linked (pre ++ i :: (mid ++ ⟨.label, i.arg⟩ :: rest))) (hi : i.op.isJump = true) :
    i.arg ∉ placed mid := by
  have hp := (h.alone (pre ++ i :: mid) rest (by simp) (by simp) hi).1
  rw [placed_append, placed_cons (op_ne_label hi)] at hp
  exact fun hm => hp (List.mem_append_right _ hm)

theorem placed_retarget {i : Insn} (h : i.op.isJump = true) (l : Int32) (rest : List Insn) :
    placed ({ i with arg := l } :: rest) = placed (i :: rest) := by
  rw [placed_cons (op_ne_label h), placed_cons (i := { i with arg := l }) (op_ne_label h)]

theorem Linked.retarget {pre rest : List Insn} {i : Insn} {l : Int32}
    (h : Linked (pre ++ i :: rest)) (hi : i.op.isJump = true) (hl : l ∈ placed rest)
    (hc : (placed (pre ++ i :: rest)).count l = 1) :
    Linked (pre ++ { i with arg := l } :: rest) := by
  have hp : placed (pre ++ { i with arg := l } :: rest) = placed (pre ++ i :: rest) := by
    rw [placed_append, placed_append, placed_retarget hi]
  refine ⟨h.forward.append_congr (fun k hk => ?_) ⟨fun _ => hl, h.forward.of_append.2⟩, ?_⟩
  · rwa [placed_retarget hi]
  · intro j hj hjump
    rw [hp]
    rcases List.mem_append.1 hj with hj | hj
    · exact h.once j (List.mem_append_left _ hj) hjump
    · rcases List.mem_cons.1 hj with rfl | hj
      · exact hc
      · exact h.once j (by simp [hj]) hjump

theorem Linked.insert_label {xs ys : List Insn} {l : Int32} (h : Linked (xs ++ ys))
    (hl : l ∉ placed (xs ++ ys)) : Linked (xs ++ ⟨.label, l⟩ :: ys) := by
  refine ⟨h.forward.append_congr (fun k hk => ?_) ⟨nofun, h.forward.of_append⟩, ?_⟩
  · exact List.mem_cons_of_mem l hk
  · intro j hj hjump
    have hmem : j ∈ xs ++ ys := by
      simp only [List.mem_append, List.mem_cons] at hj ⊢
      rcases hj with hj | rfl | hj
      · exact .inl hj
      · cases hjump
      · exact .inr hj
    have hne : l ≠ j.arg := fun he => hl (he ▸ h.mem_placed hmem hjump)
    have hc := h.once j hmem hjump
    rw [placed_append, List.count_append] at hc ⊢
    rwa [placed_cons_label, List.count_cons_of_ne hne]

/-- A program that can be threaded: its labels are those counted, and it ends with a `ret`. -/
structure WellFormed (a : Assembly) : Prop where
  linked : Linked a.code
  ends : EndsInRet a.code
  bounded : ∀ l ∈ placed a.code, l.toInt < a.labels

theorem WellFormed.fresh {a : Assembly} (h : a.WellFormed) (hl : a.labels < 2 ^ 31) :
    Int32.ofNat a.labels ∉ placed a.code := by
  intro hm
  have := h.bounded _ hm
  rw [Bytecode.toInt_ofNat hl] at this
  exact Int.lt_irrefl _ this

/-- One step of threading, for the jump behind `pre`. It leads to `hit`, past labels and marks.
-/
inductive Hop (pre : List Insn) : Assembly → Assembly → Prop
  /-- The second jump is taken too. -/
  | along (jump hit : Insn) (mid noise tail : List Insn) (pool : List Bytes) (labels : Nat)
      (hj : jump.op.isJump = true) (hh : hit.op = jump.op)
      (hn : ∀ i ∈ noise, i.isEffective = false) :
      Hop pre ⟨pre ++ jump :: (mid ++ ⟨.label, jump.arg⟩ :: (noise ++ hit :: tail)),
        pool, labels⟩ ⟨pre ++ { jump with arg := hit.arg } ::
          (mid ++ ⟨.label, jump.arg⟩ :: (noise ++ hit :: tail)), pool, labels⟩
  /-- The second jump is not taken. -/
  | past (jump hit : Insn) (mid noise tail : List Insn) (pool : List Bytes) (labels : Nat)
      (hj : jump.op.isJump = true) (hh : hit.op.isJump = true) (hne : hit.op ≠ jump.op)
      (hn : ∀ i ∈ noise, i.isEffective = false) :
      Hop pre ⟨pre ++ jump :: (mid ++ ⟨.label, jump.arg⟩ :: (noise ++ hit :: tail)),
        pool, labels⟩ ⟨pre ++ { jump with arg := Int32.ofNat labels } ::
          (mid ++ ⟨.label, jump.arg⟩ :: (noise ++ hit :: ⟨.label, Int32.ofNat labels⟩ :: tail)),
          pool, labels + 1⟩

theorem SameRun.along {pre mid noise tail : List Insn} {jump hit : Insn}
    (h : Linked (pre ++ jump :: (mid ++ ⟨.label, jump.arg⟩ :: (noise ++ hit :: tail))))
    (hj : jump.op.isJump = true) (hh : hit.op = jump.op)
    (hn : ∀ i ∈ noise, i.isEffective = false) :
    SameRun (pre ++ jump :: (mid ++ ⟨.label, jump.arg⟩ :: (noise ++ hit :: tail)))
      (pre ++ { jump with arg := hit.arg } ::
        (mid ++ ⟨.label, jump.arg⟩ :: (noise ++ hit :: tail))) := by
  have hhit : hit.op.isJump = true := by rwa [hh]
  have hmid := h.not_mem_mid hj
  have hahead : hit.arg ∉ placed (mid ++ ⟨.label, jump.arg⟩ :: noise) := by
    obtain ⟨-, -, -, hp, -, -⟩ :=
      h.split (pre ++ jump :: (mid ++ ⟨.label, jump.arg⟩ :: noise)) tail (by simp) hhit
    rw [placed_append, placed_cons (op_ne_label hj)] at hp
    exact fun hm => hp (List.mem_append_right _ hm)
  refine SameRun.retarget hj fun m _ _ v nested texts subject target pc result text st hr => ?_
  have hsplit : mid ++ ⟨.label, jump.arg⟩ :: (noise ++ hit :: tail) =
      (mid ++ ⟨.label, jump.arg⟩ :: noise) ++ hit :: tail := by simp
  rw [after_append hmid, skipped_append hmid, flow_noise v hn, v.flow_jump hhit, hh, if_pos hr,
    hsplit, after_append_of_not_mem hahead, skipped_append_of_not_mem hahead,
    after_cons (op_ne_label hhit), skipped_cons (op_ne_label hhit)]
  congr 1
  simp only [insnCount_append, insnCount_cons_label, insnCount_cons (op_ne_label hhit),
    Nat.add_mul]
  omega

theorem SameRun.past {pre mid noise tail : List Insn} {jump hit : Insn} {l : Int32}
    (h : Linked (pre ++ jump :: (mid ++ ⟨.label, jump.arg⟩ :: (noise ++ hit :: tail))))
    (hj : jump.op.isJump = true) (hh : hit.op.isJump = true) (hne : hit.op ≠ jump.op)
    (hn : ∀ i ∈ noise, i.isEffective = false)
    (hl : l ∉ placed (pre ++ jump :: (mid ++ ⟨.label, jump.arg⟩ :: (noise ++ hit :: tail)))) :
    SameRun (pre ++ jump :: (mid ++ ⟨.label, jump.arg⟩ :: (noise ++ hit :: tail)))
      (pre ++ { jump with arg := l } ::
        (mid ++ ⟨.label, jump.arg⟩ :: (noise ++ hit :: ⟨.label, l⟩ :: tail))) := by
  have hsplit (rest : List Insn) :
      pre ++ jump :: (mid ++ ⟨.label, jump.arg⟩ :: (noise ++ hit :: rest)) =
      (pre ++ jump :: (mid ++ ⟨.label, jump.arg⟩ :: (noise ++ [hit]))) ++ rest := by simp
  have hinsert : SameRun (pre ++ jump :: (mid ++ ⟨.label, jump.arg⟩ :: (noise ++ hit :: tail)))
      (pre ++
        jump :: (mid ++ ⟨.label, jump.arg⟩ :: (noise ++ hit :: ⟨.label, l⟩ :: tail))) := by
    rw [hsplit tail] at h hl ⊢
    rw [hsplit (⟨.label, l⟩ :: tail)]
    refine SameRun.insert_label (l := l) fun i hi hjump he => hl (he ▸ h.mem_placed ?_ hjump)
    exact List.mem_append_left _ hi
  refine hinsert.trans (SameRun.retarget hj ?_)
  intro m _ _ v nested texts subject target pc result text st hr
  have hnot : ¬ result = (hit.op == .jumpTrue) := by
    rw [hr]
    rcases isJump_iff.1 hj with hj' | hj' <;> rcases isJump_iff.1 hh with hh' | hh'
    · exact absurd (hh'.trans hj'.symm) hne
    · rw [hj', hh']
      decide
    · rw [hj', hh']
      decide
    · exact absurd (hh'.trans hj'.symm) hne
  have hahead : l ∉ placed (mid ++ ⟨.label, jump.arg⟩ :: (noise ++ [hit])) := by
    rw [hsplit tail, placed_append, placed_append, placed_cons (op_ne_label hj)] at hl
    exact fun hm => hl (List.mem_append_left _ (List.mem_append_right _ hm))
  have hroad : mid ++ ⟨.label, jump.arg⟩ :: (noise ++ hit :: ⟨.label, l⟩ :: tail) =
      (mid ++ ⟨.label, jump.arg⟩ :: (noise ++ [hit])) ++ ⟨.label, l⟩ :: tail := by simp
  rw [after_append (h.not_mem_mid hj), skipped_append (h.not_mem_mid hj), flow_noise v hn,
    v.flow_jump hh, if_neg hnot, v.flow_label rfl, hroad, after_append hahead,
    skipped_append hahead]
  congr 1
  have hnil : insnCount [] = 0 := rfl
  simp only [insnCount_append, insnCount_cons_label, insnCount_cons (op_ne_label hh),
    Nat.add_mul, hnil]
  omega

def outline (code : List Insn) : List Insn :=
  (solid code).map fun i => if i.op.isJump then { i with arg := 0 } else i

theorem outline_append (xs ys : List Insn) : outline (xs ++ ys) = outline xs ++ outline ys := by
  rw [outline, solid_append, List.map_append]
  rfl

theorem outline_cons_label (l : Int32) (code : List Insn) :
    outline (⟨.label, l⟩ :: code) = outline code := rfl

theorem outline_retarget {i : Insn} (h : i.op.isJump = true) (l : Int32) (code : List Insn) :
    outline ({ i with arg := l } :: code) = outline (i :: code) := by
  have hs (j : Insn) (hj : j.op.isJump = true) :
      outline (j :: code) = ⟨j.op, 0⟩ :: outline code := by
    rw [outline, solid, List.filter_cons_of_pos (by simpa using op_ne_label hj), List.map_cons,
      if_pos hj]
    rfl
  rw [hs i h, hs { i with arg := l } h]

theorem length_outline (code : List Insn) : (outline code).length = insnCount code := by
  rw [outline, List.length_map, length_solid]

/-- Whatever reads the text register comes right after the instruction that loads it. The start
of the program counts as a label: it can be come to from elsewhere. -/
def Loaded (code : List Insn) : Prop :=
  (Opcode.label :: code.map (·.op)).IsChain fun op op' => op'.readsText = true → op = .loadText

theorem Loaded.insert_label {xs ys : List Insn} {i : Insn} (h : Loaded (xs ++ i :: ys))
    (hi : i.op ≠ .loadText) (l : Int32) : Loaded (xs ++ i :: ⟨.label, l⟩ :: ys) := by
  rw [Loaded, List.map_append, List.map_cons, ← List.cons_append, List.isChain_split] at h ⊢
  refine ⟨h.1, List.isChain_cons_cons.2 ⟨nofun, ?_⟩⟩
  cases ys with
  | nil => exact List.isChain_singleton _
  | cons j ys =>
    obtain ⟨hij, hys⟩ := List.isChain_cons_cons.1 h.2
    exact List.isChain_cons_cons.2 ⟨fun hj => absurd (hij hj) hi, hys⟩

/-- What threading leaves as it is. -/
structure Threaded (a b : Assembly) : Prop where
  pool : b.pool = a.pool
  outline : outline b.code = outline a.code
  run : SameRun a.code b.code
  loaded : Loaded a.code → Loaded b.code

theorem Threaded.refl (a : Assembly) : Threaded a a := ⟨rfl, rfl, .refl _, id⟩

theorem Threaded.trans {a b c : Assembly} (h : Threaded a b) (h' : Threaded b c) :
    Threaded a c :=
  ⟨h'.pool.trans h.pool, h'.outline.trans h.outline, h.run.trans h'.run, h'.loaded ∘ h.loaded⟩

theorem Hop.threaded {pre : List Insn} {a b : Assembly} (hop : Hop pre a b) (h : a.WellFormed)
    (hl : b.labels ≤ 2 ^ 31) : Threaded a b := by
  cases hop with
  | along jump hit mid noise tail pool labels hj hh hn =>
    refine ⟨rfl, ?_, SameRun.along h.linked hj hh hn, fun hload => ?_⟩
    · simp only
      rw [outline_append, outline_append, outline_retarget hj]
    · simpa [Loaded] using hload
  | past jump hit mid noise tail pool labels hj hh hne hn =>
    refine ⟨rfl, ?_, SameRun.past h.linked hj hh hne hn (h.fresh hl), fun hload => ?_⟩
    · have hfront (ys : List Insn) :
          pre ++ jump :: (mid ++ ⟨.label, jump.arg⟩ :: (noise ++ hit :: ys)) =
          (pre ++ jump :: (mid ++ ⟨.label, jump.arg⟩ :: (noise ++ [hit]))) ++ ys := by simp
      simp only
      rw [outline_append, outline_retarget hj, ← outline_append, hfront, outline_append,
        outline_cons_label, ← outline_append, ← hfront]
    · have hhit : hit.op ≠ .loadText := by
        intro he
        rw [he] at hh
        cases hh
      have hfront (ys : List Insn) :
          pre ++ jump :: (mid ++ ⟨.label, jump.arg⟩ :: (noise ++ hit :: ys)) =
          (pre ++ jump :: (mid ++ ⟨.label, jump.arg⟩ :: noise)) ++ hit :: ys := by simp
      simp only [hfront] at hload
      simpa [Loaded] using hload.insert_label hhit (Int32.ofNat labels)

/-- An instruction that does not end the run has something behind it that does. -/
theorem EndsInRet.behind {code : List Insn} (h : EndsInRet code) (xs ys : List Insn) {i : Insn}
    (hcode : code = xs ++ i :: ys) (hi : i.op.isJump = true) : EndsInRet ys := by
  subst hcode
  refine EndsInRet.tail (EndsInRet.of_append (by simp) h) fun he => ?_
  rw [he] at hi
  cases hi

theorem EndsInRet.ahead {ys : List Insn} (h : EndsInRet ys) {code : List Insn} (xs : List Insn)
    (hcode : code = xs ++ ys) : EndsInRet code := by
  obtain ⟨init, arg, rfl⟩ := h
  exact ⟨xs ++ init, arg, by rw [hcode, List.append_assoc]⟩

theorem WellFormed.retarget {pre rest : List Insn} {i : Insn} {l : Int32} {pool : List Bytes}
    {labels : Nat} (h : WellFormed ⟨pre ++ i :: rest, pool, labels⟩) (hi : i.op.isJump = true)
    (hl : l ∈ placed rest) (hc : (placed (pre ++ i :: rest)).count l = 1) :
    WellFormed ⟨pre ++ { i with arg := l } :: rest, pool, labels⟩ := by
  refine ⟨h.linked.retarget hi hl hc, ?_, fun k hk => h.bounded k ?_⟩
  · exact (h.ends.behind pre rest rfl hi).ahead (pre ++ [{ i with arg := l }]) (by simp)
  · rwa [placed_append, placed_retarget hi, ← placed_append] at hk

theorem WellFormed.insert_label {xs ys : List Insn} {pool : List Bytes} {labels : Nat}
    (h : WellFormed ⟨xs ++ ys, pool, labels⟩) (hl : labels < 2 ^ 31) (hy : ys ≠ []) :
    WellFormed ⟨xs ++ ⟨.label, Int32.ofNat labels⟩ :: ys, pool, labels + 1⟩ := by
  refine ⟨h.linked.insert_label (h.fresh hl), ?_, fun k hk => ?_⟩
  · exact (EndsInRet.of_append hy h.ends).ahead (xs ++ [⟨.label, Int32.ofNat labels⟩]) (by simp)
  · rw [placed_append, placed_cons_label, List.mem_append, List.mem_cons] at hk
    have hold : k ∈ placed (xs ++ ys) → k.toInt < labels := h.bounded k
    rw [placed_append, List.mem_append] at hold
    simp only
    rcases hk with hk | rfl | hk
    · have := hold (.inl hk)
      omega
    · rw [Bytecode.toInt_ofNat hl]
      omega
    · have := hold (.inr hk)
      omega

theorem Hop.wellFormed {pre : List Insn} {a b : Assembly} (hop : Hop pre a b) (h : a.WellFormed)
    (hl : b.labels ≤ 2 ^ 31) : b.WellFormed := by
  cases hop with
  | along jump hit mid noise tail pool labels hj hh hn =>
    have hhit : hit.op.isJump = true := by rwa [hh]
    refine h.retarget hj ?_ (h.linked.once hit (by simp) hhit)
    obtain ⟨mid', tail', rfl, -⟩ :=
      h.linked.split (pre ++ jump :: (mid ++ ⟨.label, jump.arg⟩ :: noise)) tail (by simp) hhit
    simp [mem_placed]
  | past jump hit mid noise tail pool labels hj hh hne hn =>
    have hfront (ys : List Insn) :
        pre ++ jump :: (mid ++ ⟨.label, jump.arg⟩ :: (noise ++ hit :: ys)) =
        (pre ++ jump :: (mid ++ ⟨.label, jump.arg⟩ :: (noise ++ [hit]))) ++ ys := by simp
    have htail : EndsInRet tail :=
      h.ends.behind (pre ++ jump :: (mid ++ ⟨.label, jump.arg⟩ :: noise)) tail (by simp) hh
    have hfresh := h.fresh hl
    rw [hfront] at h
    have hinsert := h.insert_label hl htail.ne_nil
    rw [← hfront] at hinsert
    refine hinsert.retarget hj (by simp [mem_placed]) ?_
    simp only at hfresh
    rw [hfront, placed_append] at hfresh ⊢
    rw [List.mem_append, not_or] at hfresh
    rw [placed_cons_label, List.count_append, List.count_cons_self,
      List.count_eq_zero.2 hfresh.1, List.count_eq_zero.2 hfresh.2]

theorem landing?_eq {a : Assembly} (xs tail : List Insn) {l : Int32}
    (hcode : a.code = xs ++ ⟨.label, l⟩ :: tail) (hl : l ∉ placed xs) :
    a.landing? l = (tail.findIdx? (·.isEffective)).map (xs.length + 1 + ·) := by
  have hfind : a.code.findIdx? (·.places l) = some xs.length := by
    rw [hcode, List.findIdx?_append, List.findIdx?_eq_none_iff.2 (not_places hl)]
    simp [List.findIdx?_cons, Insn.places]
  have hdrop : a.code.drop (xs.length + 1) = tail := by
    simp [hcode, List.drop_append]
  simp only [landing?, hfind, Option.bind_eq_bind, Option.bind_some, hdrop]
  cases tail.findIdx? (·.isEffective) with
  | none => rfl
  | some k => rfl

theorem exists_noise {tail : List Insn} {k : Nat} (h : tail.findIdx? (·.isEffective) = some k) :
    ∃ noise hit rest, tail = noise ++ hit :: rest ∧ noise.length = k ∧
      ∀ i ∈ noise, i.isEffective = false := by
  induction tail generalizing k with
  | nil => cases h
  | cons i tail ih =>
    rw [List.findIdx?_cons] at h
    by_cases hi : i.isEffective = true
    · rw [if_pos hi] at h
      cases h
      exact ⟨[], i, tail, rfl, rfl, nofun⟩
    · rw [if_neg hi] at h
      obtain ⟨k', hk', rfl⟩ := Option.map_eq_some_iff.1 h
      obtain ⟨noise, hit, rest, rfl, rfl, hn⟩ := ih hk'
      refine ⟨i :: noise, hit, rest, rfl, rfl, fun j hj => ?_⟩
      rcases List.mem_cons.1 hj with rfl | hj
      · exact Bool.eq_false_iff.2 hi
      · exact hn j hj

theorem modify_length (f : Insn → Insn) (pre : List Insn) (i : Insn) (rest : List Insn) :
    (pre ++ i :: rest).modify pre.length f = pre ++ f i :: rest := by
  induction pre with
  | nil => rfl
  | cons j pre ih => exact congrArg (j :: ·) ih

theorem labelAfter_length {a : Assembly} {front tail : List Insn} {hit : Insn}
    (hcode : a.code = front ++ hit :: tail) :
    a.labelAfter front.length =
      ⟨front ++ hit :: ⟨.label, Int32.ofNat a.labels⟩ :: tail, a.pool, a.labels + 1⟩ := by
  have htake : (front ++ hit :: tail).take (front.length + 1) = front ++ [hit] := by
    rw [List.take_append, List.take_of_length_le (Nat.le_succ _), Nat.add_sub_cancel_left]
    rfl
  have hdrop : (front ++ hit :: tail).drop (front.length + 1) = tail := by
    simp [List.drop_append]
  simp only [labelAfter, hcode, htake, hdrop, List.append_assoc, List.cons_append,
    List.nil_append]

/-- What a jump to the label leads to, past labels and marks. -/
def hit? (code : List Insn) (l : Int32) : Option Insn := (after l code).find? (·.isEffective)

theorem after_of_not_mem {l : Int32} {code : List Insn} (h : l ∉ placed code) :
    after l code = [] := by
  rw [← List.append_nil code, after_append_of_not_mem h]
  rfl

theorem bind_landing? (a : Assembly) (l : Int32) :
    (a.landing? l).bind (a.code[·]?) = hit? a.code l := by
  by_cases hl : l ∈ placed a.code
  · obtain ⟨xs, tail, hcode, hxs⟩ := exists_split hl
    rw [landing?_eq xs tail hcode hxs, hit?, hcode, after_append hxs]
    cases hk : tail.findIdx? (·.isEffective) with
    | none => exact (List.find?_eq_none.2 (by simpa using hk)).symm
    | some k =>
      obtain ⟨noise, hit, rest, rfl, rfl, hn⟩ := exists_noise hk
      have hhit : hit.isEffective = true := by
        obtain ⟨hlt, he, -⟩ := List.findIdx?_eq_some_iff_getElem.1 hk
        simpa using he
      rw [List.find?_append, List.find?_eq_none.2 (by simpa using hn), Option.none_or,
        List.find?_cons_of_pos hhit, Option.map_some, Option.bind_some, Nat.add_assoc,
        List.getElem?_append_right (Nat.le_add_right _ _), Nat.add_sub_cancel_left,
        Nat.add_comm 1,
        List.getElem?_cons_succ, List.getElem?_append_right (Nat.le_refl _), Nat.sub_self]
      rfl
  · have hnone : a.code.findIdx? (·.places l) = none :=
      List.findIdx?_eq_none_iff.2 (not_places hl)
    rw [hit?, after_of_not_mem hl, landing?, hnone]
    rfl

/-- One turn of threading the jump at place `i`: the program after it, if the jump leads to
another. -/
def redirect? (a : Assembly) (i : Nat) : Option Assembly := do
  let jump ← a.code[i]?
  let next ← a.landing? jump.arg
  let hit ← a.code[next]?
  if !hit.op.isJump then none
  else if hit.op == jump.op then some (a.retarget i hit.arg)
  else some ((a.labelAfter next).retarget i (Int32.ofNat a.labels))

theorem follow_succ_eq (i steps : Nat) (a : Assembly) :
    follow i (steps + 1) a = (a.redirect? i).elim a (follow i steps) := by
  rw [follow, redirect?]
  cases a.code[i]? with
  | none => rfl
  | some jump =>
    simp only [Option.bind_eq_bind, Option.bind_some]
    cases a.landing? jump.arg with
    | none => rfl
    | some next =>
      simp only [Option.bind_some]
      cases a.code[next]? with
      | none => rfl
      | some hit =>
        simp only [Option.bind_some]
        cases hit.op.isJump with
        | false => rfl
        | true => cases hit.op == jump.op <;> rfl

theorem redirect?_eq_none_iff {a : Assembly} {i : Nat} {jump : Insn}
    (h : a.code[i]? = some jump) :
    a.redirect? i = none ↔ ∀ hit, hit? a.code jump.arg = some hit → hit.op.isJump = false := by
  rw [← bind_landing?, redirect?, h]
  simp only [Option.bind_eq_bind, Option.bind_some]
  cases a.landing? jump.arg with
  | none => simp
  | some next =>
    simp only [Option.bind_some]
    cases a.code[next]? with
    | none => simp
    | some hit =>
      simp only [Option.bind_some]
      cases hop : hit.op.isJump with
      | false => simp [hop]
      | true => cases hit.op == jump.op <;> simp [hop]

/-- A turn of threading is a hop. -/
theorem Hop.of_redirect? {a b : Assembly} {pre rest : List Insn} {jump : Insn}
    (hcode : a.code = pre ++ jump :: rest) (hj : jump.op.isJump = true)
    (hpre : jump.arg ∉ placed pre)
    (h : a.redirect? pre.length = some b) : Hop pre a b := by
  obtain ⟨code, pool, labels⟩ := a
  simp only at hcode
  subst hcode
  have hget : (pre ++ jump :: rest)[pre.length]? = some jump := by
    simp
  by_cases hrest : jump.arg ∈ placed rest
  · simp only [redirect?, hget, Option.bind_eq_bind, Option.bind_some] at h
    obtain ⟨mid, tail, rfl, hmid⟩ := exists_split hrest
    have hfirst : jump.arg ∉ placed (pre ++ jump :: mid) := by
      rw [placed_append, placed_cons (op_ne_label hj), List.mem_append]
      exact not_or.2 ⟨hpre, hmid⟩
    rw [landing?_eq (pre ++ jump :: mid) tail (by simp) hfirst] at h
    cases hk : tail.findIdx? (·.isEffective) with
    | none =>
      rw [hk] at h
      cases h
    | some k =>
      obtain ⟨noise, hit, tail, rfl, rfl, hn⟩ := exists_noise hk
      have hfront : pre ++ jump :: (mid ++ ⟨.label, jump.arg⟩ :: (noise ++ hit :: tail)) =
          (pre ++ jump :: (mid ++ ⟨.label, jump.arg⟩ :: noise)) ++ hit :: tail := by simp
      have hlen : (pre ++ jump :: mid).length + 1 + noise.length =
          (pre ++ jump :: (mid ++ ⟨.label, jump.arg⟩ :: noise)).length := by
        simp only [List.length_append, List.length_cons]
        omega
      have hnext : (pre ++ jump :: (mid ++ ⟨.label, jump.arg⟩ :: (noise ++ hit :: tail)))[
          (pre ++ jump :: mid).length + 1 + noise.length]? = some hit := by
        rw [hfront, hlen, List.getElem?_append_right (Nat.le_refl _), Nat.sub_self]
        rfl
      simp only [hk, Option.map_some, Option.bind_some, hnext] at h
      by_cases hh : hit.op.isJump = true
      · by_cases he : hit.op = jump.op
        · simp only [hj, he, retarget, modify_length, beq_self_eq_true, Bool.not_true,
            Bool.false_eq_true, if_false, if_true, Option.some.injEq] at h
          subst h
          exact .along jump hit mid noise tail pool labels hj he hn
        · rw [hlen, labelAfter_length hfront] at h
          simp only [hh, beq_false_of_ne he, retarget, List.append_assoc, List.cons_append,
            modify_length, Bool.not_true, Bool.false_eq_true, if_false, Option.some.injEq] at h
          subst h
          exact .past jump hit mid noise tail pool labels hj hh he hn
      · simp [hh] at h
  · have hnone : hit? (pre ++ jump :: rest) jump.arg = none := by
      rw [hit?, after_append_of_not_mem hpre, after_cons (op_ne_label hj),
        after_of_not_mem hrest]
      rfl
    rw [(redirect?_eq_none_iff hget).2 (by simp [hnone])] at h
    cases h

/-- Threading a jump either ends or goes on after a hop. -/
theorem follow_succ {a : Assembly} (h : a.WellFormed) {pre rest : List Insn} {jump : Insn}
    (hcode : a.code = pre ++ jump :: rest) (hj : jump.op.isJump = true) (steps : Nat) :
    follow pre.length (steps + 1) a = a ∨
      ∃ b, Hop pre a b ∧ follow pre.length (steps + 1) a = follow pre.length steps b := by
  obtain ⟨-, -, -, hpre, -, -⟩ := h.linked.split pre rest hcode hj
  rw [follow_succ_eq]
  cases hr : a.redirect? pre.length with
  | none => exact .inl rfl
  | some b => exact .inr ⟨b, .of_redirect? hcode hj hpre hr, rfl⟩

theorem Hop.exists_jump {pre : List Insn} {a b : Assembly} (hop : Hop pre a b) :
    ∃ jump rest, b.code = pre ++ jump :: rest ∧ jump.op.isJump = true := by
  cases hop with
  | along jump hit mid noise tail pool labels hj hh hn => exact ⟨_, _, rfl, hj⟩
  | past jump hit mid noise tail pool labels hj hh hne hn => exact ⟨_, _, rfl, hj⟩

theorem labels_le_follow (i steps : Nat) (a : Assembly) :
    a.labels ≤ (follow i steps a).labels := by
  fun_induction follow i steps a with
  | case6 a steps jump _ next _ hit _ _ _ ih => exact ih
  | case7 a steps jump _ next _ hit _ _ _ ih => exact Nat.le_trans (Nat.le_succ _) ih
  | _ => exact Nat.le_refl _

theorem follow_threaded {a : Assembly} {pre rest : List Insn} {jump : Insn} (steps : Nat)
    (h : a.WellFormed) (hcode : a.code = pre ++ jump :: rest) (hj : jump.op.isJump = true)
    (hl : (follow pre.length steps a).labels ≤ 2 ^ 31) :
    Threaded a (follow pre.length steps a) ∧ (follow pre.length steps a).WellFormed := by
  induction steps generalizing a jump rest with
  | zero => exact ⟨.refl a, h⟩
  | succ steps ih =>
    rcases follow_succ h hcode hj steps with he | ⟨b, hop, he⟩
    · rw [he]
      exact ⟨.refl a, h⟩
    · rw [he] at hl ⊢
      have hb := Nat.le_trans (labels_le_follow pre.length steps b) hl
      obtain ⟨jump', rest', hcode', hj'⟩ := hop.exists_jump
      obtain ⟨ht, hw⟩ := ih (hop.wellFormed h hb) hcode' hj' hl
      exact ⟨(hop.threaded h hb).trans ht, hw⟩

theorem jumpPlace?_eq_some {a : Assembly} {k i : Nat} (h : a.jumpPlace? k = some i) :
    ∃ pre jump rest, a.code = pre ++ jump :: rest ∧ pre.length = i ∧ jump.op.isJump = true := by
  obtain ⟨⟨jump, i'⟩, hget, rfl⟩ := Option.map_eq_some_iff.1 h
  obtain ⟨hmem, hj⟩ := List.mem_filter.1 (List.mem_of_getElem? hget)
  have hat : a.code[i']? = some jump := List.mem_zipIdx_iff_getElem?.1 hmem
  obtain ⟨hlt, rfl⟩ := List.getElem?_eq_some_iff.1 hat
  refine ⟨a.code.take i', a.code[i'], a.code.drop (i' + 1), ?_, ?_, hj⟩
  · rw [List.getElem_cons_drop, List.take_append_drop]
  · exact List.length_take_of_le (Nat.le_of_lt hlt)

theorem labels_le_threadJump (a : Assembly) (k : Nat) : a.labels ≤ (a.threadJump k).labels := by
  unfold threadJump
  split
  · exact Nat.le_refl _
  · exact labels_le_follow ..

theorem threadJump_threaded {a : Assembly} (k : Nat) (h : a.WellFormed)
    (hl : (a.threadJump k).labels ≤ 2 ^ 31) :
    Threaded a (a.threadJump k) ∧ (a.threadJump k).WellFormed := by
  unfold threadJump at hl ⊢
  split
  · exact ⟨.refl a, h⟩
  · rename_i i hi
    obtain ⟨pre, jump, rest, hcode, rfl, hj⟩ := jumpPlace?_eq_some hi
    rw [hi] at hl
    exact follow_threaded _ h hcode hj hl

theorem labels_le_foldl (ks : List Nat) (a : Assembly) :
    a.labels ≤ (ks.foldl threadJump a).labels := by
  induction ks generalizing a with
  | nil => exact Nat.le_refl _
  | cons k ks ih => exact Nat.le_trans (labels_le_threadJump a k) (ih _)

theorem labels_le_threadJumps (a : Assembly) : a.labels ≤ a.threadJumps.labels :=
  labels_le_foldl _ a

/-- Threading keeps what a program does, unless there are too many labels to name. -/
theorem threadJumps_threaded {a : Assembly} (h : a.WellFormed)
    (hl : a.threadJumps.labels ≤ 2 ^ 31) :
    Threaded a a.threadJumps ∧ a.threadJumps.WellFormed := by
  unfold threadJumps at hl ⊢
  generalize List.range a.jumpCount = ks at hl ⊢
  induction ks generalizing a with
  | nil => exact ⟨.refl a, h⟩
  | cons k ks ih =>
    rw [List.foldl_cons] at hl ⊢
    obtain ⟨ht, hw⟩ := threadJump_threaded k h (Nat.le_trans (labels_le_foldl ks _) hl)
    obtain ⟨ht', hw'⟩ := ih hw hl
    exact ⟨ht.trans ht', hw'⟩

theorem insnCount_retarget (a : Assembly) (i : Nat) (l : Int32) :
    insnCount (a.retarget i l).code = insnCount a.code := by
  obtain ⟨code, pool, labels⟩ := a
  simp only [retarget]
  induction code generalizing i with
  | nil => rw [List.modify_nil]
  | cons j code ih =>
    cases i with
    | zero => simp [insnCount, List.countP_cons]
    | succ i => simpa [insnCount, List.countP_cons] using ih i

theorem insnCount_labelAfter (a : Assembly) (i : Nat) :
    insnCount (a.labelAfter i).code = insnCount a.code := by
  rw [labelAfter, insnCount_append, insnCount_cons_label rfl, ← insnCount_append,
    List.take_append_drop]

theorem insnCount_follow (i steps : Nat) (a : Assembly) :
    insnCount (follow i steps a).code = insnCount a.code ∧
    (follow i steps a).pool = a.pool := by
  fun_induction follow i steps a with
  | case6 a steps jump _ next _ hit _ _ _ ih =>
    rwa [insnCount_retarget] at ih
  | case7 a steps jump _ next _ hit _ _ _ ih =>
    rwa [insnCount_retarget, insnCount_labelAfter] at ih
  | _ => exact ⟨rfl, rfl⟩

theorem insnCount_threadJumps (a : Assembly) :
    insnCount a.threadJumps.code = insnCount a.code ∧ a.threadJumps.pool = a.pool := by
  have hone (b : Assembly) (k : Nat) :
      insnCount (b.threadJump k).code = insnCount b.code ∧ (b.threadJump k).pool = b.pool := by
    unfold threadJump
    split
    · exact ⟨rfl, rfl⟩
    · exact insnCount_follow ..
  have hall (ks : List Nat) (b : Assembly) :
      insnCount (ks.foldl threadJump b).code = insnCount b.code ∧
        (ks.foldl threadJump b).pool = b.pool := by
    induction ks generalizing b with
    | nil => exact ⟨rfl, rfl⟩
    | cons k ks ih =>
      obtain ⟨hc, hp⟩ := ih (b.threadJump k)
      exact ⟨hc.trans (hone b k).1, hp.trans (hone b k).2⟩
  exact hall (List.range a.jumpCount) a

/-- Threading does not change the size of the code. -/
theorem length_bytes_threadJumps (a : Assembly) :
    a.threadJumps.bytes.length = a.bytes.length := by
  obtain ⟨hc, hp⟩ := a.insnCount_threadJumps
  rw [length_bytes, length_bytes, hc, hp]

/-- The opcodes that take part in a run. -/
def effectiveOps (code : List Insn) : List Opcode := (code.filter (·.isEffective)).map (·.op)

/-- No jump comes right after another. -/
def Spaced (code : List Insn) : Prop :=
  (effectiveOps code).IsChain fun op op' => op.isJump = true → op'.isJump = false

theorem effectiveOps_append (xs ys : List Insn) :
    effectiveOps (xs ++ ys) = effectiveOps xs ++ effectiveOps ys := by
  rw [effectiveOps, List.filter_append, List.map_append]
  rfl

theorem effectiveOps_outline (code : List Insn) :
    effectiveOps (outline code) = effectiveOps code := by
  induction code with
  | nil => rfl
  | cons i code ih =>
    obtain ⟨op, arg⟩ := i
    rw [← List.singleton_append, outline_append, effectiveOps_append, effectiveOps_append, ih]
    cases op <;> rfl

theorem Threaded.spaced {a b : Assembly} (h : Threaded a b) (hs : Spaced a.code) :
    Spaced b.code := by
  rwa [Spaced, ← effectiveOps_outline, h.outline, effectiveOps_outline]

theorem effectiveOps_noise {noise : List Insn} (h : ∀ i ∈ noise, i.isEffective = false) :
    effectiveOps noise = [] := by
  rw [effectiveOps, List.filter_eq_nil_iff.2 (by simpa using h)]
  rfl

theorem effectiveOps_cons_jump {i : Insn} (h : i.op.isJump = true) (code : List Insn) :
    effectiveOps (i :: code) = i.op :: effectiveOps code := by
  obtain ⟨op, arg⟩ := i
  rcases isJump_iff.1 h with rfl | rfl <;> rfl

theorem Spaced.not_jump {code : List Insn} (hs : Spaced code) (xs noise ys : List Insn)
    {i j : Insn} (hcode : code = xs ++ i :: (noise ++ j :: ys)) (hi : i.op.isJump = true)
    (hn : ∀ k ∈ noise, k.isEffective = false) : j.op.isJump ≠ true := by
  intro hj
  have hinfix : [i.op, j.op] <:+: effectiveOps code := by
    refine ⟨effectiveOps xs, effectiveOps ys, ?_⟩
    rw [hcode, effectiveOps_append, effectiveOps_cons_jump hi, effectiveOps_append,
      effectiveOps_noise hn, effectiveOps_cons_jump hj]
    simp
  have := List.isChain_pair.1 ( List.IsChain.infix hs hinfix) hi
  rw [hj] at this
  cases this

theorem Hop.exists_hit {pre rest : List Insn} {jump : Insn} {a b : Assembly} (hop : Hop pre a b)
    (hcode : a.code = pre ++ jump :: rest) :
    ∃ mid noise hit tail, rest = mid ++ ⟨.label, jump.arg⟩ :: (noise ++ hit :: tail) ∧
      hit.op.isJump = true ∧ ∀ i ∈ noise, i.isEffective = false := by
  cases hop with
  | along jump' hit mid noise tail pool labels hj hh hn =>
    obtain ⟨rfl, rfl⟩ := List.cons.inj (List.append_cancel_left hcode)
    exact ⟨mid, noise, hit, tail, rfl, by rwa [hh], hn⟩
  | past jump' hit mid noise tail pool labels hj hh hne hn =>
    obtain ⟨rfl, rfl⟩ := List.cons.inj (List.append_cancel_left hcode)
    exact ⟨mid, noise, hit, tail, rfl, hh, hn⟩

/-- A jump that leads right behind another leads to no jump. -/
theorem follow_behind {a : Assembly} {pre mid tail : List Insn} {jump hit : Insn}
    (h : a.WellFormed) (hs : Spaced a.code)
    (hcode : a.code = pre ++ jump :: (mid ++ hit :: ⟨.label, jump.arg⟩ :: tail))
    (hj : jump.op.isJump = true) (hh : hit.op.isJump = true) (steps : Nat) :
    follow pre.length steps a = a := by
  cases steps with
  | zero => rfl
  | succ steps =>
    rcases follow_succ h hcode hj steps with he | ⟨b, hop, -⟩
    · exact he
    · obtain ⟨mid', noise, hit', tail', hrest, hh', hn⟩ := hop.exists_hit hcode
      have hlink := h.linked
      have hmid : jump.arg ∉ placed (mid ++ [hit]) := by
        rw [hcode] at hlink
        exact Linked.not_mem_mid (by simpa using hlink) hj
      have hmid' : jump.arg ∉ placed mid' := by
        rw [hcode, hrest] at hlink
        exact hlink.not_mem_mid hj
      have htail : tail = noise ++ hit' :: tail' := by
        have := congrArg (after jump.arg) hrest
        rwa [after_append hmid', ← List.singleton_append, ← List.append_assoc,
          after_append hmid] at this
      refine absurd hh'
        (hs.not_jump (pre ++ jump :: mid) (⟨.label, jump.arg⟩ :: noise) tail' ?_ hh ?_)
      · rw [hcode, htail]
        simp
      · intro k hk
        rcases List.mem_cons.1 hk with rfl | hk
        · rfl
        · exact hn k hk

theorem labels_follow_le {a : Assembly} {pre rest : List Insn} {jump : Insn} (steps : Nat)
    (h : a.WellFormed) (hs : Spaced a.code) (hcode : a.code = pre ++ jump :: rest)
    (hj : jump.op.isJump = true) (hl : a.labels < 2 ^ 31) :
    (follow pre.length steps a).labels ≤ a.labels + 1 := by
  induction steps generalizing a jump rest with
  | zero => exact Nat.le_succ _
  | succ steps ih =>
    rcases follow_succ h hcode hj steps with he | ⟨b, hop, he⟩
    · rw [he]
      exact Nat.le_succ _
    · rw [he]
      have hb : b.labels ≤ 2 ^ 31 := by
        cases hop with
        | along => exact Nat.le_of_lt hl
        | past => exact hl
      have hw := hop.wellFormed h hb
      have hsb := (hop.threaded h hb).spaced hs
      cases hop with
      | along jump' hit mid noise tail pool labels hj' hh hn =>
        exact ih hw hsb rfl hj' hl
      | past jump' hit mid noise tail pool labels hj' hh hne hn =>
        -- The new label stands right behind the second jump, so there is nothing more to
        -- follow.
        have hbehind : pre ++ ⟨jump'.op, Int32.ofNat labels⟩ :: (mid ++ ⟨.label, jump'.arg⟩ ::
              (noise ++ hit :: ⟨.label, Int32.ofNat labels⟩ :: tail)) =
            pre ++ ⟨jump'.op, Int32.ofNat labels⟩ :: ((mid ++ ⟨.label, jump'.arg⟩ :: noise) ++
              hit :: ⟨.label, Int32.ofNat labels⟩ :: tail) := by simp
        rw [follow_behind hw hsb hbehind hj' hh]

theorem labels_threadJump_le {a : Assembly} (k : Nat) (h : a.WellFormed) (hs : Spaced a.code)
    (hl : a.labels < 2 ^ 31) : (a.threadJump k).labels ≤ a.labels + 1 := by
  unfold threadJump
  split
  · exact Nat.le_succ _
  · rename_i i hi
    obtain ⟨pre, jump, rest, hcode, rfl, hj⟩ := jumpPlace?_eq_some hi
    exact labels_follow_le _ h hs hcode hj hl

/-- Where no jump comes right after another, threading adds at most one label for each. -/
theorem labels_threadJumps_le {a : Assembly} (h : a.WellFormed) (hs : Spaced a.code)
    (hl : a.labels + a.jumpCount ≤ 2 ^ 31) : a.threadJumps.labels ≤ a.labels + a.jumpCount := by
  have hfold (ks : List Nat) (b : Assembly) (hb : b.WellFormed) (hsb : Spaced b.code)
      (hlb : b.labels + ks.length ≤ 2 ^ 31) :
      (ks.foldl threadJump b).labels ≤ b.labels + ks.length := by
    induction ks generalizing b with
    | nil => exact Nat.le_refl _
    | cons k ks ih =>
      rw [List.length_cons] at hlb ⊢
      have hone := labels_threadJump_le k hb hsb (by omega)
      obtain ⟨ht, hw⟩ := threadJump_threaded k hb (by omega)
      have := ih (b.threadJump k) hw (ht.spaced hsb) (by omega)
      rw [List.foldl_cons]
      omega
  have := hfold (List.range a.jumpCount) a h hs (by rwa [List.length_range])
  rwa [List.length_range] at this

end Assembly
end Locksmith
