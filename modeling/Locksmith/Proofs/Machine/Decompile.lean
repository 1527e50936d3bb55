import Locksmith.Proofs.Machine.Compilation
import Locksmith.Proofs.Lock.Spelling
import Locksmith.Machine.Decompile

namespace Locksmith

namespace Bytecode

theorem instructionsFrom_of_fetch {code : Bytes} {pc : Nat} {i : Insn}
    (h : fetch code pc = .ok i) :
    instructionsFrom code pc =
      if i.op == .ret then .ok [i]
      else (instructionsFrom code (pc + insnWidth)).map (i :: ·) := by
  rw [instructionsFrom]
  split
  · rename_i h'
    rw [h] at h'
    cases h'
  · rename_i h'
    rw [h] at h'
    cases h'
    rfl

/-- The instructions of code are read up to the first that ends the run. -/
theorem instructionsFrom_flatMap {l : List Insn} (after : Bytes) (before : List Insn)
    {init : List Insn} {last : Insn} (h : l = before ++ (init ++ [last]))
    (hlast : last.op = .ret)
    (hinit : ∀ i ∈ init, i.op.isExecutable = true ∧ i.op ≠ .ret) :
    instructionsFrom (l.flatMap encodeInsn ++ after) (before.length * insnWidth) =
      .ok (init ++ [last]) := by
  induction init generalizing before with
  | nil =>
    have hfetch := fetch_flatMap l after before last [] h
    rw [hlast] at hfetch
    rw [instructionsFrom_of_fetch hfetch, hlast]
    rfl
  | cons i init ih =>
    obtain ⟨hi, hret⟩ := hinit i (List.mem_cons_self ..)
    have hfetch := fetch_flatMap l after before i (init ++ [last]) h
    rw [hi, if_pos rfl] at hfetch
    have hrest := ih (before ++ [i]) (by rw [h, List.append_assoc]; rfl)
      fun j hj => hinit j (List.mem_cons_of_mem i hj)
    rw [List.length_append, List.length_singleton, Nat.succ_mul] at hrest
    rw [instructionsFrom_of_fetch hfetch, hrest, if_neg (by simpa using hret)]
    rfl

end Bytecode

namespace Decompile

variable {style : Style} {code text : Bytes}

/-- An instruction without the place that a jump leads to, which is not shown. -/
def blank (i : Insn) : Insn := if i.op.isJump then { i with arg := 0 } else i

theorem op_blank (i : Insn) : (blank i).op = i.op := by
  unfold blank
  split <;> rfl

theorem blank_of_op {i : Insn} (h : i.op.isJump = false) : blank i = i := by
  rw [blank, h]
  rfl

theorem splitGroup_other {i : Insn} (h : i.op ≠ .paren) (depth : Nat) (rest : List Insn) :
    splitGroup depth (i :: rest) = (splitGroup depth rest).map fun p => (i :: p.1, p.2) := by
  have hne : (i.op == .paren) = false := by simpa using h
  rw [splitGroup.eq_def]
  simp only [hne, Bool.false_and, Bool.false_eq_true, if_false]

theorem splitGroup_open (depth : Nat) (rest : List Insn) :
    splitGroup depth (⟨.paren, 0⟩ :: rest) =
      (splitGroup (depth + 1) rest).map fun p => (⟨.paren, 0⟩ :: p.1, p.2) := by
  rw [splitGroup.eq_def]
  rfl

theorem splitGroup_close {arg : Int32} (h : arg ≠ 0) (depth : Nat) (rest : List Insn) :
    splitGroup depth (⟨.paren, arg⟩ :: rest) =
      match depth with
      | 0 => some ([], rest)
      | d + 1 => (splitGroup d rest).map fun p => (⟨.paren, arg⟩ :: p.1, p.2) := by
  have hne : ((Opcode.paren == .paren) && (arg != 0)) = true := by simpa using h
  rw [splitGroup.eq_def]
  cases depth with
  | zero => simp only [hne, if_true]
  | succ d => simp only [hne, if_true]

theorem splitGroup_blank (depth : Nat) (l : List Insn) :
    splitGroup depth (l.map blank) =
      (splitGroup depth l).map fun p => (p.1.map blank, p.2.map blank) := by
  induction l generalizing depth with
  | nil => rfl
  | cons i l ih =>
    rw [List.map_cons]
    by_cases hi : i.op = .paren
    · obtain ⟨op, arg⟩ := i
      cases hi
      rw [blank_of_op rfl]
      by_cases harg : arg = 0
      · subst harg
        rw [splitGroup_open, splitGroup_open, ih, Option.map_map, Option.map_map]
        rfl
      · rw [splitGroup_close harg, splitGroup_close harg]
        cases depth with
        | zero => rfl
        | succ d =>
          simp only
          rw [ih, Option.map_map, Option.map_map]
          rfl
    · rw [splitGroup_other (by rwa [op_blank]), splitGroup_other hi, ih, Option.map_map,
        Option.map_map]
      rfl

theorem negates_blank (i : Insn) : negates (blank i) = negates i := by
  rw [negates, op_blank]
  rfl

theorem dropWhile_blank (l : List Insn) :
    (l.map blank).dropWhile negates = (l.dropWhile negates).map blank := by
  rw [List.dropWhile_map]
  congr 1
  exact congrArg (List.dropWhile · l) (funext negates_blank)

theorem marks_blank (l : List Insn) : marks (l.map blank) = marks l := by
  rw [marks, marks, List.takeWhile_map, List.length_map]
  congr 2
  exact congrArg (List.takeWhile · l) (funext negates_blank)

section Equations

variable {arg : Int32} {rest : List Insn}

theorem render_paren :
    render style code text (⟨.paren, arg⟩ :: rest) =
      if arg != 0 then none
      else (splitGroup 0 rest).bind fun p =>
        (render style code text p.1).bind fun q =>
          (render style code q.2 (p.2.dropWhile negates)).map fun r =>
            (marks p.2 ++ "(" ++ q.1 ++ ")" ++ r.1, r.2) := by
  rw [render]
  dsimp only
  split
  · rfl
  · split
    · rename_i h
      rw [h]
      rfl
    · rename_i inner after h
      rw [h, Option.bind_some]
      rcases render style code text inner with _ | ⟨group, text'⟩
      · rfl
      · rfl

theorem render_test {i : Insn} (h : i.op.isTest = true ∨ i.op.isExecutable = false) :
    render style code text (i :: rest) =
      (renderTest style code text i).bind fun test =>
        (render style code text (rest.dropWhile negates)).map fun r =>
          (marks rest ++ test ++ r.1, r.2) := by
  obtain ⟨op, arg⟩ := i
  cases op with
  | ret | jumpTrue | jumpFalse | loadText | negate | paren =>
    simp [Opcode.isTest, Opcode.isExecutable] at h
  | _ =>
    rw [render]
    rcases renderTest style code text _ with _ | test
    · rfl
    · rfl

theorem render_jumpFalse :
    render style code text (⟨.jumpFalse, arg⟩ :: rest) =
      (render style code text rest).map fun r => (38 :: r.1, r.2) := by
  rw [render]

theorem render_jumpTrue :
    render style code text (⟨.jumpTrue, arg⟩ :: rest) =
      (render style code text rest).map fun r => (124 :: r.1, r.2) := by
  rw [render]

theorem render_negate :
    render style code text (⟨.negate, arg⟩ :: rest) = render style code text rest := by
  rw [render]

theorem render_loadText {s : Bytes} (h : Bytecode.textAt code arg = .ok s) :
    render style code text (⟨.loadText, arg⟩ :: rest) = render style code s rest := by
  rw [render]
  simp only [h]

end Equations

theorem renderTest_blank (i : Insn) :
    renderTest style code text (blank i) = renderTest style code text i := by
  obtain ⟨op, arg⟩ := i
  cases op <;> rfl

/-- The places that jumps lead to are not shown. -/
theorem render_blank (l : List Insn) :
    render style code text (l.map blank) = render style code text l := by
  induction hn : l.length using Nat.strongRecOn generalizing text l with
  | ind n ih =>
    rcases l with _ | ⟨i, rest⟩
    · rfl
    have hrest (text : Bytes) :
        render style code text (rest.map blank) = render style code text rest :=
      ih rest.length (by subst hn; exact Nat.lt_succ_self _) rest rfl
    have hdrop (text : Bytes) {l : List Insn} (hl : l.length < n) :
        render style code text ((l.map blank).dropWhile negates) =
          render style code text (l.dropWhile negates) := by
      have hle := (List.dropWhile_sublist (l := l) negates).length_le
      rw [dropWhile_blank]
      exact ih _ (Nat.lt_of_le_of_lt hle hl) _ rfl
    by_cases htest : i.op.isTest = true ∨ i.op.isExecutable = false
    · rw [List.map_cons, render_test (by rwa [op_blank]), render_test htest, renderTest_blank,
        hdrop text (by subst hn; exact Nat.lt_succ_self _), marks_blank]
    · obtain ⟨op, arg⟩ := i
      cases op with
      | ret => rw [List.map_cons, blank_of_op rfl, render, render]
      | jumpTrue =>
        change render style code text (⟨.jumpTrue, 0⟩ :: rest.map blank) = _
        rw [render_jumpTrue, render_jumpTrue, hrest]
      | jumpFalse =>
        change render style code text (⟨.jumpFalse, 0⟩ :: rest.map blank) = _
        rw [render_jumpFalse, render_jumpFalse, hrest]
      | negate => rw [List.map_cons, blank_of_op rfl, render_negate, render_negate, hrest]
      | loadText =>
        rw [List.map_cons, blank_of_op rfl]
        rcases ht : Bytecode.textAt code arg with f | s
        · rw [render, render]
          simp only [ht]
        · rw [render_loadText ht, render_loadText ht, hrest]
      | paren =>
        rw [List.map_cons, blank_of_op rfl, render_paren, render_paren, splitGroup_blank]
        split
        · rfl
        · rcases hsplit : splitGroup 0 rest with _ | ⟨inner, after⟩
          · rfl
          · have hlen := splitGroup_length hsplit
            subst hn
            rw [List.length_cons] at hdrop ih
            simp only [Option.map_some, Option.bind_some]
            rw [ih inner.length (by omega) inner rfl, marks_blank]
            simp only [hdrop _ (show after.length < rest.length + 1 by omega)]
      | label | unassigned => exact absurd (.inr rfl) htest
      | _ => exact absurd (.inl rfl) htest

/-- The group marks of the instructions match, so that a search for a closing mark goes past
them. -/
def Balanced (l : List Insn) : Prop :=
  ∀ depth rest, splitGroup depth (l ++ rest) = (splitGroup depth rest).map fun p =>
    (l ++ p.1, p.2)

theorem Balanced.nil : Balanced [] := by
  intro depth rest
  rw [List.nil_append]
  rcases splitGroup depth rest with _ | p
  · rfl
  · rfl

theorem Balanced.append {l l' : List Insn} (h : Balanced l) (h' : Balanced l') :
    Balanced (l ++ l') := by
  intro depth rest
  rw [List.append_assoc, h, h', Option.map_map]
  simp only [Function.comp_def, List.append_assoc]

theorem Balanced.cons {i : Insn} {l : List Insn} (hi : i.op ≠ .paren) (h : Balanced l) :
    Balanced (i :: l) := by
  intro depth rest
  rw [List.cons_append, splitGroup_other hi, h, Option.map_map]
  rfl

theorem Balanced.enclosed {l : List Insn} (h : Balanced l) :
    Balanced (⟨.paren, 0⟩ :: l ++ [⟨.paren, 1⟩]) := by
  intro depth rest
  rw [List.append_assoc, List.cons_append, splitGroup_open, h, List.singleton_append,
    splitGroup_close (by decide), Option.map_map, Option.map_map]
  simp only [Function.comp_def, List.cons_append, List.append_assoc, List.nil_append]

/-- The instructions are shown as `s`, behind a mark for each negation that follows them. The
text register is left in some state that does not depend on what follows. -/
def ShowsUnit (style : Style) (code : Bytes) (l : List Insn) (s : Bytes) : Prop :=
  ∀ text, ∃ text', ∀ rest, render style code text (l ++ rest) =
    (render style code text' (rest.dropWhile negates)).map fun r =>
      (marks rest ++ s ++ r.1, r.2)

/-- The instructions are shown as `s`, where no negation follows them. -/
def ShowsChain (style : Style) (code : Bytes) (l : List Insn) (s : Bytes) : Prop :=
  ∀ text, ∃ text', ∀ rest, rest.head?.any negates = false →
    render style code text (l ++ rest) = (render style code text' rest).map fun r =>
      (s ++ r.1, r.2)

variable {l l' : List Insn} {s s' : Bytes}

theorem ShowsUnit.chain (h : ShowsUnit style code l s) : ShowsChain style code l s := by
  intro text
  obtain ⟨text', h⟩ := h text
  refine ⟨text', fun rest hrest => ?_⟩
  rw [h]
  rcases rest with _ | ⟨i, rest⟩
  · rfl
  · have hi : ¬negates i = true := by simpa using hrest
    rw [marks, List.dropWhile_cons_of_neg hi, List.takeWhile_cons_of_neg hi]
    rfl

theorem ShowsUnit.negate (h : ShowsUnit style code l s) :
    ShowsUnit style code (l ++ [⟨.negate, 0⟩]) (33 :: s) := by
  intro text
  obtain ⟨text', h⟩ := h text
  refine ⟨text', fun rest => ?_⟩
  have hmarks : marks (⟨.negate, 0⟩ :: rest) = marks rest ++ [33] := by
    rw [marks, List.takeWhile_cons_of_pos rfl, List.length_cons, List.replicate_succ', marks]
  rw [List.append_assoc, List.singleton_append, h, List.dropWhile_cons_of_pos rfl, hmarks]
  simp only [List.append_assoc, List.cons_append, List.nil_append]

theorem ShowsChain.enclosed (h : ShowsChain style code l s) (hl : Balanced l) :
    ShowsUnit style code (⟨.paren, 0⟩ :: l ++ [⟨.paren, 1⟩]) (40 :: s ++ [41]) := by
  intro text
  obtain ⟨text', h⟩ := h text
  refine ⟨text', fun rest => ?_⟩
  have hinner : render style code text l = some (s, text') := by
    have := h [] rfl
    rw [List.append_nil, render] at this
    simpa using this
  have hsplit : splitGroup 0 (l ++ ⟨.paren, 1⟩ :: rest) = some (l, rest) := by
    rw [hl, splitGroup_close (by decide)]
    simp
  rw [List.append_assoc, List.cons_append, List.singleton_append, render_paren, hsplit]
  simp only [bne_self_eq_false, Bool.false_eq_true, if_false, Option.bind_some, hinner]
  refine congrArg (Option.map · _) (funext fun r => ?_)
  change (marks rest ++ [40] ++ s ++ [41] ++ r.1, r.2) = _
  simp only [List.append_assoc, List.cons_append, List.nil_append]

theorem ShowsChain.join {jump : Insn} {b : UInt8} (h : ShowsChain style code l s)
    (h' : ShowsChain style code l' s') (hjump : negates jump = false)
    (hshow : ∀ text rest, render style code text (jump :: rest) =
      (render style code text rest).map fun r => (b :: r.1, r.2)) :
    ShowsChain style code (l ++ jump :: l') (s ++ b :: s') := by
  intro text
  obtain ⟨mid, h⟩ := h text
  obtain ⟨text', h'⟩ := h' mid
  refine ⟨text', fun rest hrest => ?_⟩
  rw [List.append_assoc, List.cons_append, h _ (by simpa using hjump), hshow, h' rest hrest,
    Option.map_map, Option.map_map]
  simp only [Function.comp_def, List.append_assoc, List.cons_append]

theorem ShowsUnit.test {i : Insn} (hi : i.op.isTest = true)
    (h : ∀ text, renderTest style code text i = some s) : ShowsUnit style code [i] s := by
  intro text
  refine ⟨text, fun rest => ?_⟩
  rw [List.singleton_append, render_test (.inl hi), h]
  rfl

theorem ShowsUnit.textTest {i : Insn} {k : Int32} {name : Bytes} (hi : i.op.isTest = true)
    (hk : Bytecode.textAt code k = .ok name) (h : renderTest style code name i = some s) :
    ShowsUnit style code [⟨.loadText, k⟩, i] s := by
  intro text
  refine ⟨name, fun rest => ?_⟩
  rw [List.cons_append, List.singleton_append, render_loadText hk, render_test (.inl hi), h]
  rfl

/-- The instructions that are shown of a program, with the texts found at these offsets. -/
def shown (offset : Int32 → Int32) (code : List Insn) : List Insn :=
  (Assembly.outline code).map fun i =>
    if i.op.operand = .text then { i with arg := offset i.arg } else i

variable {offset : Int32 → Int32}

theorem shown_append (xs ys : List Insn) :
    shown offset (xs ++ ys) = shown offset xs ++ shown offset ys := by
  rw [shown, Assembly.outline_append, List.map_append]
  rfl

theorem shown_grouped (mark : Bool) (code : List Insn) :
    shown offset (Assembly.grouped mark code) =
      if mark then ⟨.paren, 0⟩ :: shown offset code ++ [⟨.paren, 1⟩]
      else shown offset code := by
  cases mark with
  | false => rfl
  | true =>
    rw [Assembly.grouped, if_pos rfl, shown_append]
    rfl

theorem blank_resolve (a : Assembly) :
    ((Assembly.solid a.code).map a.resolve).map blank = shown a.textOffset a.code := by
  rw [shown, Assembly.outline, List.map_map, List.map_map]
  refine List.map_congr_left fun i hi => ?_
  obtain ⟨op, arg⟩ := i
  cases op with
  | label => simp [Assembly.solid] at hi
  | _ => rfl

/-- Instructions that are shown as `s`, and as `unit` says, also where negations follow. -/
structure Shows (style : Style) (code : Bytes) (unit : Bool) (l : List Insn)
    (s : Bytes) : Prop where
  balanced : Balanced l
  ops : ∀ i ∈ l, i.op.isExecutable = true ∧ i.op ≠ .ret
  chain : ShowsChain style code l s
  negated : unit = true → ShowsUnit style code l s

theorem Shows.grouped {unit : Bool} {c : List Insn}
    (h : Shows style code unit (shown offset c) s) (mark : Bool) :
    Shows style code (mark || unit) (shown offset (Assembly.grouped mark c))
      (Key.enclosed mark s) := by
  rw [shown_grouped]
  cases mark with
  | false => exact h
  | true =>
    have hunit := h.chain.enclosed h.balanced
    refine ⟨h.balanced.enclosed, ?_, hunit.chain, fun _ => hunit⟩
    intro i hi
    simp only [if_true, List.cons_append, List.mem_cons, List.mem_append, List.not_mem_nil,
      or_false] at hi
    rcases hi with rfl | hi | rfl
    · decide
    · exact h.ops i hi
    · decide

theorem Shows.join {unit unit' : Bool} {c c' : List Insn} {op : Opcode} {b : UInt8}
    (arg label : Int32) (h : Shows style code unit (shown offset c) s)
    (h' : Shows style code unit' (shown offset c') s')
    (hop : op.isJump = true)
    (hshow : ∀ text rest, render style code text (⟨op, 0⟩ :: rest) =
      (render style code text rest).map fun r => (b :: r.1, r.2)) :
    Shows style code false (shown offset (c ++ ⟨op, arg⟩ :: c' ++ [⟨.label, label⟩]))
      (s ++ b :: s') := by
  have hshown : shown offset (c ++ ⟨op, arg⟩ :: c' ++ [⟨.label, label⟩]) =
      shown offset c ++ ⟨op, 0⟩ :: shown offset c' := by
    rw [shown_append, shown_append]
    rcases Assembly.isJump_iff.1 hop with rfl | rfl
    · exact List.append_nil _
    · exact List.append_nil _
  have hops : op ≠ .paren ∧ op.isExecutable = true ∧ op ≠ .ret ∧ negates ⟨op, 0⟩ = false := by
    rcases Assembly.isJump_iff.1 hop with rfl | rfl
    · decide
    · decide
  rw [hshown]
  refine ⟨h.balanced.append (.cons hops.1 h'.balanced), ?_,
    h.chain.join h'.chain hops.2.2.2 hshow, nofun⟩
  intro i hi
  rcases List.mem_append.1 hi with hi | hi
  · exact h.ops i hi
  · rcases List.mem_cons.1 hi with rfl | hi
    · exact ⟨hops.2.1, hops.2.2.1⟩
    · exact h'.ops i hi

theorem Shows.negate {c : List Insn} (h : Shows style code true (shown offset c) s) :
    Shows style code true (shown offset (c ++ [⟨.negate, 0⟩])) (33 :: s) := by
  have hunit := (h.negated rfl).negate
  rw [shown_append]
  refine ⟨h.balanced.append (.cons nofun .nil), ?_, hunit.chain, fun _ => hunit⟩
  intro i hi
  rcases List.mem_append.1 hi with hi | hi
  · exact h.ops i hi
  · cases List.mem_singleton.1 hi
    exact ⟨rfl, nofun⟩

theorem isTest_ops {i : Insn} (h : i.op.isTest = true) :
    i.op ≠ .paren ∧ i.op.isExecutable = true ∧ i.op ≠ .ret := by
  obtain ⟨op, arg⟩ := i
  cases op with
  | ret | jumpTrue | jumpFalse | loadText | negate | paren | label | unassigned => cases h
  | _ => exact ⟨nofun, rfl, nofun⟩

theorem Shows.test {i : Insn} (hi : i.op.isTest = true)
    (h : ∀ text, renderTest style code text i = some s) : Shows style code true [i] s := by
  have hops := isTest_ops hi
  have hunit := ShowsUnit.test hi h
  refine ⟨.cons hops.1 .nil, ?_, hunit.chain, fun _ => hunit⟩
  intro j hj
  cases List.mem_singleton.1 hj
  exact hops.2

theorem Shows.textTest {i : Insn} {k : Int32} {name : Bytes} (hi : i.op.isTest = true)
    (hk : Bytecode.textAt code k = .ok name) (h : renderTest style code name i = some s) :
    Shows style code true [⟨.loadText, k⟩, i] s := by
  have hops := isTest_ops hi
  have hunit := ShowsUnit.textTest hi hk h
  refine ⟨.cons nofun (.cons hops.1 .nil), ?_, hunit.chain, fun _ => hunit⟩
  intro j hj
  rcases List.mem_cons.1 hj with rfl | hj
  · exact ⟨rfl, nofun⟩
  · cases List.mem_singleton.1 hj
    exact hops.2

open Machine (Reads) in
theorem Shows.patternTest {op : Opcode} (hop : op.isTest = true) (hoperand : op.operand = .text)
    {name pattern : Bytes} {pool : List Bytes}
    (hr :
      Reads (fun k => Bytecode.textAt code (offset k))
        (Assembly.textTest op name pattern pool).2)
    (h : ∀ arg, Bytecode.textAt code arg = .ok pattern →
      renderTest style code name ⟨op, arg⟩ = some s) :
    Shows style code true (shown offset (Assembly.textTest op name pattern pool).1) s := by
  have hname :
      Reads (fun k => Bytecode.textAt code (offset k)) (Assembly.addText pool name).1 :=
    hr.mono (Assembly.addText_spec _ pattern).1
  have hshown (k k' : Int32) :
      shown offset [⟨.loadText, k⟩, ⟨op, k'⟩] = [⟨.loadText, offset k⟩, ⟨op, offset k'⟩] := by
    cases op with
    | loadText | testAttr | testEval | testClass => rfl
    | _ => cases hoperand
  rw [Assembly.textTest, hshown]
  exact .textTest (i := ⟨op, _⟩) hop hname.addText (h _ (Reads.addText hr))

open Machine (Reads) in
theorem shows_write (key : Key) (pool : List Bytes) (labels : Nat)
    (hr : Reads (fun k => Bytecode.textAt code (offset k)) (Assembly.write key pool labels).2.1)
    (hd : ∀ d ∈ Assembly.objects key, d.fitsOperand = true) :
    Shows style code (!(key.isOr || key.isAnd))
      (shown offset (Assembly.write key pool labels).1) (key.spellAs style.object) := by
  have hobject {d : Dbref} (hd : d.fitsOperand = true) :
      style.object ⟨(Assembly.objectArg d).toInt64⟩ = style.object d :=
    congrArg style.object (Machine.operandObject_objectArg hd)
  have hpattern (b : UInt8) {name pattern : Bytes} {arg : Int32}
      (h : Bytecode.textAt code arg = .ok pattern) :
      (Bytecode.textAt code arg).toOption.map (fun p => name ++ [b] ++ p) =
        some (name ++ b :: pattern) := by
    rw [h]
    exact congrArg some (List.append_assoc ..)
  induction key generalizing pool labels with
  | and pos left right ihl ihr =>
    have hleft := ihl pool (labels + 1) (hr.mono (Assembly.pool_prefix_write right _ _))
      fun d hm => hd d (List.mem_append_left _ hm)
    have hright := ihr _ _ hr fun d hm => hd d (List.mem_append_right _ hm)
    exact (hleft.grouped left.isOr).join _ _ (hright.grouped right.isOr) rfl
      fun _ _ => render_jumpFalse
  | or pos left right ihl ihr =>
    have hleft := ihl pool (labels + 1) (hr.mono (Assembly.pool_prefix_write right _ _))
      fun d hm => hd d (List.mem_append_left _ hm)
    have hright := ihr _ _ hr fun d hm => hd d (List.mem_append_right _ hm)
    exact hleft.join _ _ hright rfl fun _ _ => render_jumpTrue
  | not pos operand ih =>
    have hoperand := (ih pool labels hr hd).grouped (operand.isOr || operand.isAnd)
    rw [Bool.or_not_self] at hoperand
    exact hoperand.negate
  | const pos d =>
    refine .test (i := ⟨.testConst, _⟩) rfl fun text => ?_
    exact congrArg some (hobject (hd d (List.mem_singleton_self d)))
  | is pos d =>
    refine .test (i := ⟨.testIs, _⟩) rfl fun text => ?_
    exact congrArg (fun s => some (61 :: s)) (hobject (hd d (List.mem_singleton_self d)))
  | carry pos d =>
    refine .test (i := ⟨.testCarry, _⟩) rfl fun text => ?_
    exact congrArg (fun s => some (43 :: s)) (hobject (hd d (List.mem_singleton_self d)))
  | owner pos d =>
    refine .test (i := ⟨.testOwner, _⟩) rfl fun text => ?_
    exact congrArg (fun s => some (36 :: s)) (hobject (hd d (List.mem_singleton_self d)))
  | indirect pos d lock =>
    refine .textTest (i := ⟨.testIndirect, _⟩) rfl (Reads.addText hr) ?_
    change some ([64] ++ style.object _ ++ [47] ++ lock) =
      some (64 :: style.object d ++ 47 :: lock)
    rw [hobject (hd d (List.mem_singleton_self d)), List.append_assoc]
    rfl
  | attr pos name pattern =>
    refine .patternTest rfl rfl hr fun arg harg => ?_
    exact hpattern 58 harg
  | eval pos name pattern =>
    refine .patternTest rfl rfl hr fun arg harg => ?_
    exact hpattern 47 harg
  | flagClass pos name pattern =>
    refine .patternTest rfl rfl hr fun arg harg => ?_
    exact hpattern 94 harg
  | bool pos value =>
    refine .test (i := ⟨.loadResult, _⟩) rfl fun text => ?_
    cases value with
    | false => rfl
    | true => rfl

end Decompile

/-- The code of a key is shown as the key is spelled. -/
theorem LockCode.decompile_spellAs {key : Key} {a : Assembly}
    (h : Assembly.ofKey (some key) = .ok a) (htexts : ∀ s ∈ key.texts, 0 ∉ s)
    (hsize : a.threadJumps.bytes.length < 2 ^ 31) (viewer : Dbref)
    (mode : DisplayMode) (names : Option (Dbref → Bytes)) :
    LockCode.decompile (some a.threadJumps.bytes) viewer mode names =
      key.spellAs (Decompile.Style.object ⟨viewer, mode, names⟩) := by
  have hr := Machine.reads_ofKey h htexts hsize
  obtain ⟨hw, hl⟩ := Assembly.ofKey_wellFormed h (Assembly.length_bytes_threadJumps a ▸ hsize)
  have houtline := (Assembly.threadJumps_threaded hw hl).1.outline
  obtain ⟨hd, rfl⟩ := Assembly.ofKey_eq_ok h
  generalize Assembly.threadJumps _ = t at *
  have hshows : Decompile.Shows ⟨viewer, mode, names⟩ t.bytes _ _ _ :=
    Decompile.shows_write key [] 0 hr hd
  have hblank : ((Assembly.solid t.code).map t.resolve).map Decompile.blank =
      Decompile.shown t.textOffset (Assembly.write key [] 0).1 ++ [⟨.ret, 0⟩] := by
    rw [Decompile.blank_resolve, Decompile.shown, houtline, Assembly.outline_append,
      List.map_append]
    rfl
  have hinsns :
      Bytecode.instructions t.bytes = .ok ((Assembly.solid t.code).map t.resolve) := by
    obtain ⟨init, lasts, hsplit, hinit, hlasts⟩ := List.map_eq_append_iff.1 hblank
    obtain ⟨last, rfl, hlast⟩ := List.map_eq_singleton_iff.1 hlasts
    rw [hsplit, Assembly.bytes, hsplit]
    refine Bytecode.instructionsFrom_flatMap _ [] rfl ?_ ?_
    · rw [← Decompile.op_blank, hlast]
    · intro i hi
      rw [← Decompile.op_blank i]
      exact hshows.ops _ (hinit ▸ List.mem_map_of_mem hi)
  obtain ⟨text', hchain⟩ := hshows.chain []
  rw [LockCode.decompile, hinsns]
  simp only
  rw [← Decompile.render_blank, hblank, hchain _ rfl, Decompile.render]
  simp

theorem LockCode.decompile_ofKey {key : Key} {a : Assembly}
    (h : Assembly.ofKey (some key) = .ok a) (htexts : ∀ s ∈ key.texts, 0 ∉ s)
    (hsize : a.threadJumps.bytes.length < 2 ^ 31) (viewer : Dbref) :
    LockCode.decompile (some a.threadJumps.bytes) viewer .dbrefs none = key.spell :=
  (decompile_spellAs h htexts hsize viewer .dbrefs none).trans key.spellAs_render

end Locksmith
