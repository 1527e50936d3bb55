import Locksmith.Proofs.Machine.Threading

namespace Locksmith

namespace Key

def groupSize (mark : Bool) (n : Nat) : Nat := if mark then n + 2 else n

def size : Key → Nat
  | .and _ left right => groupSize left.isOr left.size + 1 + groupSize right.isOr right.size
  | .or _ left right => left.size + 1 + right.size
  | .not _ operand => groupSize (operand.isOr || operand.isAnd) operand.size + 1
  | .indirect .. | .attr .. | .eval .. | .flagClass .. => 2
  | .const .. | .is .. | .carry .. | .owner .. | .bool .. => 1

end Key

namespace Assembly

/-- No jump stands at either end or next to another. -/
structure Alternates (ops : List Opcode) : Prop where
  chain : ops.IsChain fun op op' => op.isJump = true → op'.isJump = false
  head : ∃ op rest, ops = op :: rest ∧ op.isJump = false
  last : ∃ rest op, ops = rest ++ [op] ∧ op.isJump = false

theorem Alternates.of_forall {ops : List Opcode} (hne : ops ≠ [])
    (h : ∀ op ∈ ops, op.isJump = false) : Alternates ops := by
  refine ⟨?_, ?_, ?_⟩
  · refine List.Pairwise.isChain ?_
    exact List.pairwise_of_forall_mem_list fun _ _ op' hop' _ => h op' hop'
  · obtain ⟨op, rest, rfl⟩ := List.exists_cons_of_ne_nil hne
    exact ⟨op, rest, rfl, h op (by simp)⟩
  · obtain ⟨rest, op, rfl⟩ := (List.eq_nil_or_concat' ops).resolve_left hne
    exact ⟨rest, op, rfl, h op (by simp)⟩

theorem Alternates.snoc {ops : List Opcode} (h : Alternates ops) {op : Opcode}
    (hop : op.isJump = false) : Alternates (ops ++ [op]) := by
  obtain ⟨hchain, ⟨first, rest, rfl, hfirst⟩, -⟩ := h
  refine ⟨?_, ⟨first, rest ++ [op], rfl, hfirst⟩, ⟨_, op, rfl, hop⟩⟩
  rw [List.isChain_append]
  refine ⟨hchain, List.isChain_singleton op, fun _ _ op' hop' _ => ?_⟩
  cases hop'
  exact hop

theorem Alternates.branch {left right : List Opcode} (hl : Alternates left)
    (hr : Alternates right) (op : Opcode) : Alternates (left ++ op :: right) := by
  obtain ⟨hchain, ⟨first, tail, hhead, hfirst⟩, ⟨init, last, hinit, hlast⟩⟩ := hl
  obtain ⟨hchain', ⟨first', tail', rfl, hfirst'⟩, ⟨init', last', hinit', hlast'⟩⟩ := hr
  refine ⟨?_, ⟨first, tail ++ op :: first' :: tail', by rw [hhead]; rfl, hfirst⟩,
    ⟨left ++ op :: init', last', by rw [hinit']; simp, hlast'⟩⟩
  rw [List.isChain_append]
  refine ⟨hchain, List.isChain_cons_cons.2 ⟨fun _ => hfirst', hchain'⟩,
    fun op' hop' _ _ hj => ?_⟩
  rw [hinit, List.getLast?_concat] at hop'
  cases hop'
  rw [hlast] at hj
  cases hj

/-- What is known of the code of a key: its size, and that it places the labels from `labels`
on, up to `labels'`, for its own jumps. -/
structure Fragment (labels labels' n : Nat) (code : List Insn) : Prop where
  size : insnCount code = n
  jumps : labels' = labels + code.countP (·.op.isJump)
  forward : Forward code
  range : labels' ≤ 2 ^ 31 → ∀ l ∈ placed code, labels ≤ l.toInt ∧ l.toInt < labels'
  nodup : labels' ≤ 2 ^ 31 → (placed code).Nodup
  spaced : Alternates (effectiveOps code)

theorem Forward.append {xs ys : List Insn} (hx : Forward xs) (hy : Forward ys) :
    Forward (xs ++ ys) := by
  have h : Forward (xs ++ []) := by rwa [List.append_nil]
  exact h.append_congr nofun hy

theorem Forward.of_forall {code : List Insn} (h : ∀ i ∈ code, i.op.isJump = false) :
    Forward code := by
  induction code with
  | nil => trivial
  | cons i code ih =>
    refine ⟨fun hi => ?_, ih fun j hj => h j (List.mem_cons_of_mem i hj)⟩
    rw [h i (List.mem_cons_self ..)] at hi
    cases hi

theorem Fragment.tests {code : List Insn} (labels : Nat) (hne : code ≠ [])
    (h : ∀ i ∈ code, i.isEffective = true ∧ i.op.isJump = false) :
    Fragment labels labels code.length code := by
  have hlabel : ∀ i ∈ code, i.op ≠ .label := by
    intro i hi he
    simpa [Insn.isEffective, he] using (h i hi).1
  have hplaced : placed code = [] := by
    rw [placed, List.filter_eq_nil_iff.2 (by simpa using hlabel)]
    rfl
  refine ⟨?_, ?_, ?_, ?_, ?_, ?_⟩
  · exact List.countP_eq_length.2 (by simpa using hlabel)
  · rw [List.countP_eq_zero.2 (by simpa using fun i hi => (h i hi).2), Nat.add_zero]
  · exact .of_forall fun i hi => (h i hi).2
  · simp [hplaced]
  · simp [hplaced]
  · rw [effectiveOps, List.filter_eq_self.2 fun i hi => (h i hi).1]
    refine .of_forall (by simpa using hne) fun op hop => ?_
    obtain ⟨i, hi, rfl⟩ := List.mem_map.1 hop
    exact (h i hi).2

theorem placed_grouped (mark : Bool) (code : List Insn) :
    placed (grouped mark code) = placed code := by
  cases mark with
  | false => rfl
  | true =>
    rw [grouped, if_pos rfl, placed_append, placed_cons (i := ⟨.paren, 0⟩) nofun,
      placed_cons (i := ⟨.paren, 1⟩) nofun]
    exact List.append_nil _

theorem Fragment.grouped {labels labels' n : Nat} {code : List Insn}
    (h : Fragment labels labels' n code) (mark : Bool) :
    Fragment labels labels' (Key.groupSize mark n) (grouped mark code) := by
  obtain ⟨hsize, hjumps, hforward, hrange, hnodup, hspaced⟩ := h
  refine ⟨?_, ?_, ?_, ?_, ?_, ?_⟩
  · cases mark with
    | false => exact hsize
    | true =>
      rw [Assembly.grouped, if_pos rfl, insnCount_append,
        insnCount_cons (i := ⟨.paren, 0⟩) (by decide), hsize]
      rfl
  · cases mark with
    | false => exact hjumps
    | true => simpa [Assembly.grouped, Opcode.isJump] using hjumps
  · cases mark with
    | false => exact hforward
    | true =>
      have hparen {P : Prop} (h : Opcode.isJump .paren = true) : P := by cases h
      exact Forward.append ⟨hparen, hforward⟩ ⟨hparen, trivial⟩
  · rwa [placed_grouped]
  · rwa [placed_grouped]
  · cases mark with
    | false => exact hspaced
    | true =>
      have hops : effectiveOps (Assembly.grouped true code) = effectiveOps code := by
        rw [Assembly.grouped, if_pos rfl, effectiveOps_append]
        exact List.append_nil _
      rwa [hops]

theorem Fragment.not {labels labels' n : Nat} {code : List Insn}
    (h : Fragment labels labels' n code) :
    Fragment labels labels' (n + 1) (code ++ [⟨.negate, 0⟩]) := by
  obtain ⟨hsize, hjumps, hforward, hrange, hnodup, hspaced⟩ := h
  have hplaced : placed (code ++ [⟨.negate, 0⟩]) = placed code := by
    rw [placed_append]
    exact List.append_nil _
  refine ⟨?_, ?_, hforward.append ⟨nofun, trivial⟩, ?_, ?_, ?_⟩
  · rw [insnCount_append, hsize]
    rfl
  · rw [List.countP_append, hjumps]
    rfl
  · rwa [hplaced]
  · rwa [hplaced]
  · rw [effectiveOps_append]
    exact hspaced.snoc rfl

theorem Fragment.branch {labels labels₁ labels₂ n k : Nat} {left right : List Insn}
    {op : Opcode} (hop : op.isJump = true) (hl : Fragment (labels + 1) labels₁ n left)
    (hr : Fragment labels₁ labels₂ k right) :
    Fragment labels labels₂ (n + 1 + k)
      (left ++ ⟨op, Int32.ofNat labels⟩ :: right ++ [⟨.label, Int32.ofNat labels⟩]) := by
  have hlabel : (⟨op, Int32.ofNat labels⟩ : Insn).op ≠ .label := op_ne_label hop
  have hplaced :
      placed (left ++ ⟨op, Int32.ofNat labels⟩ :: right ++ [⟨.label, Int32.ofNat labels⟩]) =
      placed left ++ (placed right ++ [Int32.ofNat labels]) := by
    rw [placed_append, placed_append, placed_cons hlabel, List.append_assoc]
    rfl
  have hjl := hl.jumps
  have hjr := hr.jumps
  have hown (h : labels₂ ≤ 2 ^ 31) : (Int32.ofNat labels).toInt = labels :=
    Bytecode.toInt_ofNat (by omega)
  refine ⟨?_, ?_, ?_, ?_, ?_, ?_⟩
  · rw [insnCount_append, insnCount_append, insnCount_cons hlabel, hl.size, hr.size]
    have hone : insnCount [⟨.label, Int32.ofNat labels⟩] = 0 := rfl
    omega
  · have hcount :
        List.countP (fun i : Insn => i.op.isJump) [⟨.label, Int32.ofNat labels⟩] = 0 := rfl
    rw [List.countP_append, List.countP_append, List.countP_cons, if_pos hop, hcount]
    omega
  · rw [List.append_assoc]
    refine hl.forward.append ⟨fun _ => ?_, hr.forward.append ⟨nofun, trivial⟩⟩
    exact mem_placed.2 (List.mem_append_right _ (List.mem_singleton_self _))
  · intro hbound l hm
    rw [hplaced, List.mem_append, List.mem_append, List.mem_singleton] at hm
    rcases hm with hm | hm | rfl
    · have := hl.range (by omega) l hm
      omega
    · have := hr.range hbound l hm
      omega
    · have := hown hbound
      omega
  · intro hbound
    rw [hplaced, List.nodup_append', List.nodup_append', List.disjoint_append_right]
    have hfirst := hl.range (by omega)
    have hsecond := hr.range hbound
    refine ⟨hl.nodup (by omega), ⟨hr.nodup hbound, List.nodup_singleton _, ?_⟩, ?_, ?_⟩
    · rw [List.disjoint_singleton]
      intro hm
      have := hsecond _ hm
      have := hown hbound
      omega
    · intro l hm hm'
      have := hfirst l hm
      have := hsecond l hm'
      omega
    · rw [List.disjoint_singleton]
      intro hm
      have := hfirst _ hm
      have := hown hbound
      omega
  · have hops : effectiveOps (⟨op, Int32.ofNat labels⟩ :: right) = op :: effectiveOps right :=
      effectiveOps_cons_jump hop right
    have hend : effectiveOps [⟨.label, Int32.ofNat labels⟩] = [] := rfl
    rw [effectiveOps_append, effectiveOps_append, hops, hend, List.append_nil]
    exact hl.spaced.branch hr.spaced op

theorem isTest_effective {op : Opcode} (h : op.isTest = true) (arg : Int32) :
    (⟨op, arg⟩ : Insn).isEffective = true ∧ op.isJump = false := by
  cases op <;> first | exact ⟨rfl, rfl⟩ | cases h

theorem Fragment.test {op : Opcode} (h : op.isTest = true) (labels : Nat) (arg : Int32) :
    Fragment labels labels 1 [⟨op, arg⟩] := by
  refine Fragment.tests labels (List.cons_ne_nil (⟨op, arg⟩ : Insn) []) fun i hi => ?_
  obtain rfl := List.mem_singleton.1 hi
  exact isTest_effective h arg

theorem Fragment.textTest {op : Opcode} (h : op.isTest = true) (labels : Nat)
    (name arg : Int32) :
    Fragment labels labels 2 [⟨.loadText, name⟩, ⟨op, arg⟩] := by
  refine Fragment.tests labels (List.cons_ne_nil ⟨.loadText, name⟩ [⟨op, arg⟩]) fun i hi => ?_
  rcases List.mem_cons.1 hi with rfl | hi
  · exact ⟨rfl, rfl⟩
  · obtain rfl := List.mem_singleton.1 hi
    exact isTest_effective h arg

theorem write_fragment (key : Key) (pool : List Bytes) (labels : Nat) :
    Fragment labels (write key pool labels).2.2 key.size (write key pool labels).1 := by
  induction key generalizing pool labels with
  | and pos left right ihl ihr =>
    exact .branch rfl ((ihl pool (labels + 1)).grouped left.isOr) ((ihr _ _).grouped right.isOr)
  | or pos left right ihl ihr => exact .branch rfl (ihl pool (labels + 1)) (ihr _ _)
  | not pos operand ih => exact ((ih pool labels).grouped _).not
  | const pos d => exact .test rfl labels _
  | is pos d => exact .test rfl labels _
  | carry pos d => exact .test rfl labels _
  | owner pos d => exact .test rfl labels _
  | indirect pos d lock => exact .textTest rfl labels _ _
  | attr pos name pattern => exact .textTest rfl labels _ _
  | eval pos name pattern => exact .textTest rfl labels _ _
  | flagClass pos name pattern => exact .textTest rfl labels _ _
  | bool pos value => exact .test rfl labels _

theorem labels_le_write (key : Key) (pool : List Bytes) (labels : Nat) :
    labels ≤ (write key pool labels).2.2 := by
  rw [(write_fragment key pool labels).jumps]
  exact Nat.le_add_right _ _

theorem addText_spec (pool : List Bytes) (s : Bytes) :
    pool <+: (addText pool s).1 ∧
      ∃ k, (addText pool s).1[k]? = some s ∧ (addText pool s).2 = Int32.ofNat k := by
  unfold addText
  split
  · rename_i k hk
    obtain ⟨hlt, hs, -⟩ := List.findIdx?_eq_some_iff_getElem.1 hk
    refine ⟨List.prefix_refl pool, k, ?_, rfl⟩
    rw [List.getElem?_eq_getElem hlt, eq_of_beq hs]
  · exact ⟨List.prefix_append pool [s], pool.length, by simp, rfl⟩

theorem pool_prefix_write (key : Key) (pool : List Bytes) (labels : Nat) :
    pool <+: (write key pool labels).2.1 := by
  have hpair (name pattern : Bytes) (pool : List Bytes) :
      pool <+: (addText (addText pool name).1 pattern).1 :=
    (addText_spec pool name).1.trans (addText_spec _ pattern).1
  induction key generalizing pool labels with
  | and pos left right ihl ihr => exact (ihl pool (labels + 1)).trans (ihr _ _)
  | or pos left right ihl ihr => exact (ihl pool (labels + 1)).trans (ihr _ _)
  | not pos operand ih => exact ih pool labels
  | indirect pos d lock => exact (addText_spec pool lock).1
  | attr pos name pattern => exact hpair name pattern pool
  | eval pos name pattern => exact hpair name pattern pool
  | flagClass pos name pattern => exact hpair name pattern pool
  | _ => exact List.prefix_refl pool

end Assembly

namespace Machine

variable {m : Type → Type} [Monad m] (v : Machine m)

def andThen (x : m (Except Fault Bool × EvalState))
    (k : Bool → EvalState → m (Except Fault Bool × EvalState)) :
    m (Except Fault Bool × EvalState) := do
  match ← x with
  | (.ok result, st) => k result st
  | (.error f, st) => pure (.error f, st)

/-- The answer of a test of a class at offset `pc`. -/
def answerClass (subject target : Dbref) (name pattern : Bytes) (pc : Nat) (st : EvalState) :
    m (Except Fault Bool × EvalState) :=
  match v.classes.get? name with
  | none => pure (.error ⟨pc, .unknownClass name⟩, st)
  | some kind => do return (.ok (← v.testClass kind name pattern subject target), st)

/-- The answer of a key whose code begins at offset `pc`. -/
def answer (nested : Dbref → LockCode → EvalState → m (Bool × EvalState))
    (subject target : Dbref) :
    Key → (pc : Nat) → EvalState → m (Except Fault Bool × EvalState)
  | .and _ left right, pc, st =>
    let first := Key.groupSize left.isOr left.size + 1
    andThen (answer nested subject target left
        (if left.isOr then pc + Bytecode.insnWidth else pc) st)
      fun result st =>
        if result then
          let pc := pc + first * Bytecode.insnWidth
          answer nested subject target right
            (if right.isOr then pc + Bytecode.insnWidth else pc) st
        else pure (.ok result, st)
  | .or _ left right, pc, st =>
    andThen (answer nested subject target left pc st) fun result st =>
      if result then pure (.ok result, st)
      else answer nested subject target right (pc + (left.size + 1) * Bytecode.insnWidth) st
  | .not _ operand, pc, st =>
    let marked := operand.isOr || operand.isAnd
    andThen (answer nested subject target operand
        (if marked then pc + Bytecode.insnWidth else pc) st)
      fun result st => pure (.ok (!result), st)
  | .const _ d, _, st => do return (.ok (← v.testConst subject d), st)
  | .is _ d, _, st => pure (.ok (d == subject), st)
  | .carry _ d, _, st => do return (.ok (← v.testCarry subject d), st)
  | .owner _ d, _, st => do return (.ok (← v.testOwner subject d), st)
  | .indirect _ d lock, _, st => do
    let (result, st) ← v.testIndirect nested subject target d lock st
    return (.ok result, st)
  | .attr _ name pattern, _, st => do
    return (.ok (← v.testAttr subject target name pattern), st)
  | .eval _ name pattern, _, st => do
    let (result, st) ← v.testEval subject target name pattern st
    return (.ok result, st)
  | .flagClass _ name pattern, pc, st =>
    v.answerClass subject target name pattern (pc + Bytecode.insnWidth) st
  | .bool _ value, _, st => pure (.ok value, st)

variable [LawfulMonad m]

theorem andThen_pure (p : Except Fault Bool × EvalState)
    (k : Bool → EvalState → m (Except Fault Bool × EvalState)) :
    andThen (pure p) k = match p with
      | (.ok result, st) => k result st
      | (.error f, st) => pure (.error f, st) := by
  rw [andThen, pure_bind]

theorem andThen_assoc (x : m (Except Fault Bool × EvalState))
    (k k' : Bool → EvalState → m (Except Fault Bool × EvalState)) :
    andThen (andThen x k) k' = andThen x fun result st => andThen (k result st) k' := by
  rw [andThen, andThen, andThen, bind_assoc]
  refine bind_congr fun p => ?_
  rcases p with ⟨f | result, st⟩
  · simp only [pure_bind]
  · rfl

section Fragments

variable (nested : Dbref → LockCode → EvalState → m (Bool × EvalState))
  (texts : Int32 → Except Fault Bytes) (subject target : Dbref)

/-- The text register does not matter to a program. -/
def Blind (code : List Insn) : Prop :=
  ∀ pc result text text' st, v.flow nested texts subject target code pc result text st =
    v.flow nested texts subject target code pc result text' st

/-- A fragment of `n` instructions sets the result to what `x` gives for its offset. -/
def Computes (code : List Insn) (n : Nat)
    (x : Nat → EvalState → m (Except Fault Bool × EvalState)) : Prop :=
  ∀ rest, v.Blind nested texts subject target rest → ∀ pc result text st,
    v.flow nested texts subject target (code ++ rest) pc result text st =
      andThen (x pc st) fun result st =>
        v.flow nested texts subject target rest (pc + n * Bytecode.insnWidth) result [] st

variable {v nested texts subject target} {code left right : List Insn} {n k : Nat}
  {x y : Nat → EvalState → m (Except Fault Bool × EvalState)}

omit [LawfulMonad m] in
theorem Computes.blind (h : v.Computes nested texts subject target code n x) {rest : List Insn}
    (hr : v.Blind nested texts subject target rest) :
    v.Blind nested texts subject target (code ++ rest) := by
  intro pc result text text' st
  rw [h rest hr, h rest hr]

theorem Computes.grouped (h : v.Computes nested texts subject target code n x) (mark : Bool) :
    v.Computes nested texts subject target (Assembly.grouped mark code) (Key.groupSize mark n)
      fun pc st => x (if mark then pc + Bytecode.insnWidth else pc) st := by
  cases mark with
  | false => exact h
  | true =>
    intro rest hr pc result text st
    have hclose : v.Blind nested texts subject target (⟨.paren, 1⟩ :: rest) := by
      intro pc result text text' st
      rw [v.flow_paren rfl, v.flow_paren rfl, hr]
    have hcode :
        Assembly.grouped true code ++ rest = ⟨.paren, 0⟩ :: (code ++ ⟨.paren, 1⟩ :: rest) := by
      simp [Assembly.grouped]
    rw [hcode, v.flow_paren rfl, h _ hclose]
    refine congrArg (andThen _) (funext fun result => funext fun st => ?_)
    rw [v.flow_paren rfl, Key.groupSize, if_pos rfl, Nat.add_mul]
    congr 1
    omega

theorem Computes.not (h : v.Computes nested texts subject target code n x) :
    v.Computes nested texts subject target (code ++ [⟨.negate, 0⟩]) (n + 1)
      fun pc st => andThen (x pc st) fun result st => pure (.ok (!result), st) := by
  intro rest hr pc result text st
  have hnot (pc : Nat) (result : Bool) (text : Bytes) (st : EvalState) :
      v.flow nested texts subject target (⟨.negate, 0⟩ :: rest) pc result text st =
        v.flow nested texts subject target rest (pc + Bytecode.insnWidth) (!result)
          text st := by
    rw [v.flow_cons (i := ⟨.negate, 0⟩) nofun, execute, pure_bind]
    rfl
  have hblind : v.Blind nested texts subject target (⟨.negate, 0⟩ :: rest) := by
    intro pc result text text' st
    rw [hnot, hnot, hr]
  rw [List.append_assoc, List.singleton_append, h _ hblind, andThen_assoc]
  refine congrArg (andThen _) (funext fun result => funext fun st => ?_)
  rw [hnot, andThen_pure, Nat.add_mul, Nat.one_mul, Nat.add_assoc]

/-- The second operand is jumped over if the first decides. -/
theorem Computes.branch (op : Opcode) (hop : op.isJump = true) {l : Int32}
    (hx : v.Computes nested texts subject target left n x)
    (hy : v.Computes nested texts subject target right k y) (hl : l ∉ Assembly.placed right)
    (hk : Assembly.insnCount right = k) :
    v.Computes nested texts subject target (left ++ ⟨op, l⟩ :: right ++ [⟨.label, l⟩])
      (n + 1 + k) fun pc st => andThen (x pc st) fun result st =>
        if result = (op == .jumpTrue) then pure (.ok result, st)
        else y (pc + (n + 1) * Bytecode.insnWidth) st := by
  intro rest hr pc result text st
  have hlabel : v.Blind nested texts subject target (⟨.label, l⟩ :: rest) := by
    intro pc result text text' st
    rw [v.flow_label rfl, v.flow_label rfl, hr]
  have hjump (pc : Nat) (result : Bool) (text : Bytes) (st : EvalState) :
      v.flow nested texts subject target (⟨op, l⟩ :: (right ++ ⟨.label, l⟩ :: rest)) pc
        result text st =
        if result = (op == .jumpTrue) then
          v.flow nested texts subject target rest (pc + (k + 1) * Bytecode.insnWidth)
            result text st
        else v.flow nested texts subject target (right ++ ⟨.label, l⟩ :: rest)
          (pc + Bytecode.insnWidth) result text st := by
    rw [v.flow_jump hop, Assembly.after_append hl, Assembly.skipped_append hl, hk]
    congr 2
    rw [Nat.add_mul]
    omega
  have hblind :
      v.Blind nested texts subject target (⟨op, l⟩ :: (right ++ ⟨.label, l⟩ :: rest)) := by
    intro pc result text text' st
    rw [hjump, hjump, hr _ _ text text', hy.blind hlabel _ _ text text']
  have hcode : left ++ ⟨op, l⟩ :: right ++ [⟨.label, l⟩] ++ rest =
      left ++ ⟨op, l⟩ :: (right ++ ⟨.label, l⟩ :: rest) := by simp
  rw [hcode, hx _ hblind, andThen_assoc]
  refine congrArg (andThen _) (funext fun result => funext fun st => ?_)
  rw [hjump]
  by_cases hb : result = (op == .jumpTrue)
  · rw [if_pos hb, if_pos hb, andThen_pure]
    congr 1
    simp only [Nat.add_mul]
    omega
  · rw [if_neg hb, if_neg hb, hy _ hlabel]
    have hpc :
        pc + n * Bytecode.insnWidth + Bytecode.insnWidth =
          pc + (n + 1) * Bytecode.insnWidth := by
      rw [Nat.add_mul]
      omega
    rw [hpc]
    refine congrArg (andThen _) (funext fun result => funext fun st => ?_)
    rw [v.flow_label rfl]
    congr 1
    simp only [Nat.add_mul]
    omega

def Action.ofVerdict (text : Bytes) : Except Fault Bool × EvalState → Action
  | (.ok result, st) => .next result text st
  | (.error f, st) => .done (.error f) st

theorem flow_test {i : Insn} (hi : i.op ≠ .label) {pc : Nat} {result : Bool} {text : Bytes}
    {st : EvalState}
    (h : v.execute nested texts subject target pc i result text st =
      Action.ofVerdict text <$> x pc st)
    (rest : List Insn) :
    v.flow nested texts subject target (i :: rest) pc result text st =
      andThen (x pc st) fun result st =>
        v.flow nested texts subject target rest (pc + Bytecode.insnWidth) result text st := by
  rw [v.flow_cons hi, h, andThen, bind_map_left]
  refine bind_congr fun p => ?_
  rcases p with ⟨f | result, st⟩
  · rfl
  · rfl

theorem Computes.test {i : Insn} (hi : i.op ≠ .label)
    (h : ∀ pc result text st,
      v.execute nested texts subject target pc i result text st =
        Action.ofVerdict text <$> x pc st) :
    v.Computes nested texts subject target [i] 1 x := by
  intro rest hr pc result text st
  rw [List.singleton_append, flow_test hi (h pc result text st), Nat.one_mul]
  refine congrArg (andThen _) (funext fun result => funext fun st => hr _ _ _ _ _)

theorem Computes.textTest {i : Insn} {name : Int32} {s : Bytes} (hi : i.op ≠ .label)
    (hs : texts name = .ok s)
    (h : ∀ pc result st,
      v.execute nested texts subject target pc i result s st = Action.ofVerdict s <$> x pc st) :
    v.Computes nested texts subject target [⟨.loadText, name⟩, i] 2
      fun pc st => x (pc + Bytecode.insnWidth) st := by
  intro rest hr pc result text st
  have hload :
      v.flow nested texts subject target ([⟨.loadText, name⟩, i] ++ rest) pc result text st =
      v.flow nested texts subject target (i :: rest) (pc + Bytecode.insnWidth) result s st := by
    rw [List.cons_append, v.flow_cons (i := ⟨.loadText, name⟩) nofun, execute]
    simp only [hs, pure_bind]
    rfl
  rw [hload, flow_test hi (h _ result st)]
  refine congrArg (andThen _) (funext fun result => funext fun st => ?_)
  rw [hr _ _ s []]
  congr 1

omit [LawfulMonad m] in
theorem Computes.congr (h : v.Computes nested texts subject target code n x)
    (hxy : ∀ pc st, y pc st = x pc st) : v.Computes nested texts subject target code n y := by
  intro rest hr pc result text st
  rw [hxy, h rest hr]

/-- The texts of a pool are found under their places. -/
def Reads (texts : Int32 → Except Fault Bytes) (pool : List Bytes) : Prop :=
  ∀ k s, pool[k]? = some s → texts (Int32.ofNat k) = .ok s

theorem Reads.mono {pool pool' : List Bytes} (h : Reads texts pool') (hp : pool <+: pool') :
    Reads texts pool := by
  intro k s hk
  refine h k s ?_
  obtain ⟨more, rfl⟩ := hp
  obtain ⟨hlt, -⟩ := List.getElem?_eq_some_iff.1 hk
  rwa [List.getElem?_append_left hlt]

theorem Reads.addText {pool : List Bytes} {s : Bytes}
    (h : Reads texts (Assembly.addText pool s).1) :
    texts (Assembly.addText pool s).2 = .ok s := by
  obtain ⟨-, k, hk, he⟩ := Assembly.addText_spec pool s
  rw [he, h k s hk]

theorem Computes.patternTest (op : Opcode) (hop : op ≠ .label) {name pattern : Bytes}
    {pool : List Bytes} (hr : Reads texts (Assembly.textTest op name pattern pool).2)
    (h : ∀ pc result st i, texts i = .ok pattern →
      v.execute nested texts subject target pc ⟨op, i⟩ result name st =
        Action.ofVerdict name <$> x pc st) :
    v.Computes nested texts subject target (Assembly.textTest op name pattern pool).1 2
      fun pc st => x (pc + Bytecode.insnWidth) st := by
  have hname : Reads texts (Assembly.addText pool name).1 :=
    Reads.mono hr (Assembly.addText_spec _ pattern).1
  exact Computes.textTest (i := ⟨op, _⟩) hop hname.addText
    fun pc result st => h pc result st _ (Reads.addText hr)

theorem operandObject_objectArg {d : Dbref} (h : d.fitsOperand = true) :
    operandObject (Assembly.objectArg d) = d := by
  obtain ⟨num⟩ := d
  simp only [Dbref.fitsOperand, Bool.and_eq_true, decide_eq_true_eq] at h
  refine congrArg Dbref.mk (Int64.toInt_inj.1 ?_)
  simp only [Assembly.objectArg]
  rw [Int32.toInt_toInt64, Int64.toInt_toInt32, Int.bmod_eq_of_le (by omega) (by omega)]

theorem not_placed_right {key : Key} {pool : List Bytes} {labels labels' : Nat} (mark : Bool)
    (hlt : labels < labels') (hl : (Assembly.write key pool labels').2.2 ≤ 2 ^ 31) :
    Int32.ofNat labels ∉
      Assembly.placed (Assembly.grouped mark (Assembly.write key pool labels').1) := by
  have hf := Assembly.write_fragment key pool labels'
  have hjumps := hf.jumps
  rw [Assembly.placed_grouped]
  intro hm
  have hrange := hf.range hl _ hm
  rw [Bytecode.toInt_ofNat (by omega)] at hrange
  omega

/-- The assembly of a key computes its answer. -/
theorem computes_write (key : Key) (pool : List Bytes) (labels : Nat)
    (hr : Reads texts (Assembly.write key pool labels).2.1)
    (hd : ∀ d ∈ Assembly.objects key, d.fitsOperand = true)
    (hl : (Assembly.write key pool labels).2.2 ≤ 2 ^ 31) :
    v.Computes nested texts subject target (Assembly.write key pool labels).1 key.size
      (v.answer nested subject target key) := by
  induction key generalizing pool labels with
  | and pos left right ihl ihr =>
    have hlt := Assembly.labels_le_write left pool (labels + 1)
    have hleft := ihl pool (labels + 1) (hr.mono (Assembly.pool_prefix_write right _ _))
      (fun d hm => hd d (List.mem_append_left _ hm))
      (Nat.le_trans (Assembly.labels_le_write right _ _) hl)
    have hright := ihr _ _ hr (fun d hm => hd d (List.mem_append_right _ hm)) hl
    have hsize := (Assembly.write_fragment right (Assembly.write left pool (labels + 1)).2.1
      (Assembly.write left pool (labels + 1)).2.2)
    have hbranch := Computes.branch .jumpFalse rfl (hleft.grouped left.isOr)
      (hright.grouped right.isOr) (not_placed_right right.isOr hlt hl)
      (hsize.grouped right.isOr).size
    refine hbranch.congr fun pc st => ?_
    refine congrArg (andThen _) (funext fun result => funext fun st => ?_)
    cases result <;> rfl
  | or pos left right ihl ihr =>
    have hlt := Assembly.labels_le_write left pool (labels + 1)
    have hleft := ihl pool (labels + 1) (hr.mono (Assembly.pool_prefix_write right _ _))
      (fun d hm => hd d (List.mem_append_left _ hm))
      (Nat.le_trans (Assembly.labels_le_write right _ _) hl)
    have hright := ihr _ _ hr (fun d hm => hd d (List.mem_append_right _ hm)) hl
    have hsize := (Assembly.write_fragment right (Assembly.write left pool (labels + 1)).2.1
      (Assembly.write left pool (labels + 1)).2.2)
    have hbranch := Computes.branch .jumpTrue rfl hleft hright
      (not_placed_right false hlt hl) hsize.size
    refine hbranch.congr fun pc st => ?_
    refine congrArg (andThen _) (funext fun result => funext fun st => ?_)
    cases result <;> rfl
  | not pos operand ih =>
    exact ((ih pool labels hr hd hl).grouped _).not
  | const pos d =>
    refine .test (fun hop => Opcode.noConfusion hop) fun pc result text st => ?_
    simp only [execute, answer]
    rw [operandObject_objectArg (hd d (List.mem_singleton_self d))]
    simp [Action.ofVerdict]
  | is pos d =>
    refine .test (fun hop => Opcode.noConfusion hop) fun pc result text st => ?_
    simp only [execute, answer]
    rw [operandObject_objectArg (hd d (List.mem_singleton_self d))]
    simp [Action.ofVerdict]
  | carry pos d =>
    refine .test (fun hop => Opcode.noConfusion hop) fun pc result text st => ?_
    simp only [execute, answer]
    rw [operandObject_objectArg (hd d (List.mem_singleton_self d))]
    simp [Action.ofVerdict]
  | owner pos d =>
    refine .test (fun hop => Opcode.noConfusion hop) fun pc result text st => ?_
    simp only [execute, answer]
    rw [operandObject_objectArg (hd d (List.mem_singleton_self d))]
    simp [Action.ofVerdict]
  | indirect pos d lock =>
    refine .textTest (i := ⟨.testIndirect, Assembly.objectArg d⟩)
      (x := v.answer nested subject target (.indirect pos d lock))
      (fun hop => Opcode.noConfusion hop)
      (Reads.addText hr) fun pc result st => ?_
    simp only [execute, answer]
    rw [operandObject_objectArg (hd d (List.mem_singleton_self d))]
    simp [Action.ofVerdict]
  | attr pos name pattern =>
    refine Computes.patternTest .testAttr (by decide)
      (x := v.answer nested subject target (.attr pos name pattern)) hr
      fun pc result st i hi => ?_
    simp [execute, answer, hi, Action.ofVerdict]
  | eval pos name pattern =>
    refine Computes.patternTest .testEval (by decide)
      (x := v.answer nested subject target (.eval pos name pattern)) hr
      fun pc result st i hi => ?_
    simp [execute, answer, hi, Action.ofVerdict]
  | flagClass pos name pattern =>
    refine Computes.patternTest .testClass (by decide)
      (x := v.answerClass subject target name pattern) hr fun pc result st i hi => ?_
    cases hk : v.classes.get? name with
    | none => simp [execute, answerClass, hi, hk, Action.ofVerdict]
    | some kind => simp [execute, answerClass, hi, hk, Action.ofVerdict]
  | bool pos value =>
    refine .test (fun hop => Opcode.noConfusion hop) fun pc result text st => ?_
    cases value <;> simp [execute, answer, Action.ofVerdict]

end Fragments

end Machine
end Locksmith
