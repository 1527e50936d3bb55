import Mathlib.Logic.Relation
import Locksmith.Proofs.Machine.Compilation

namespace Locksmith
namespace Assembly

/-- Labels are named below the count, each stands in one place at most, and no jump leads back.
-/
structure Labelled (a : Assembly) : Prop where
  named : ∀ i ∈ a.code, i.op.operand = .target → i.arg.toInt < a.labels
  once : (placed a.code).Nodup
  ahead : a.code.Pairwise fun i j => j.op.isJump = true → i.places j.arg = false

/-- No jump leads to another one, past labels and marks. -/
def Direct (code : List Insn) : Prop :=
  ∀ i ∈ code, i.op.isJump = true → ∀ hit, hit? code i.arg = some hit → hit.op.isJump = false

/-- Where threading stands: at a place of the program as it is by now. -/
structure Pass where
  place : Nat
  program : Assembly

/-- One turn: the jump at the place is sent on, or it is done with and the next instruction has
its turn. -/
def Pass.turn (p : Pass) : Option Pass :=
  p.program.code[p.place]?.map fun i =>
    if i.op.isJump then
      ((p.program.redirect? p.place).map (⟨p.place, ·⟩)).getD ⟨p.place + 1, p.program⟩
    else ⟨p.place + 1, p.program⟩

/-- The second comes out of the first, turn after turn. -/
def Pass.Run : Pass → Pass → Prop := Relation.ReflTransGen fun p q => p.turn = some q

theorem operand_of_isJump {i : Insn} (h : i.op.isJump = true) : i.op.operand = .target := by
  rcases isJump_iff.1 h with he | he
  · rw [he]
    rfl
  · rw [he]
    rfl

theorem not_mem_placed_iff {l : Int32} {code : List Insn} :
    l ∉ placed code ↔ ∀ i ∈ code, i.places l = false := by
  refine ⟨not_places, fun h hl => ?_⟩
  have := h _ (mem_placed.1 hl)
  simp [Insn.places] at this

theorem Labelled.not_mem_before {a : Assembly} (h : a.Labelled) (before rest : List Insn)
    {i : Insn} (hcode : a.code = before ++ i :: rest) (hi : i.op.isJump = true) :
    i.arg ∉ placed before := by
  have hahead := h.ahead
  rw [hcode, List.pairwise_append] at hahead
  exact not_mem_placed_iff.2 fun j hj => hahead.2.2 j hj i (by simp) hi

theorem Labelled.not_mem_mid {pre mid rest : List Insn} {i : Insn} {pool : List Bytes}
    {labels : Nat} (h : Labelled ⟨pre ++ i :: (mid ++ ⟨.label, i.arg⟩ :: rest), pool, labels⟩)
    (hi : i.op.isJump = true) : i.arg ∉ placed mid := by
  have hnodup := h.once
  simp only [placed_append, placed_cons (op_ne_label hi), placed_cons_label] at hnodup
  exact fun hm =>
    (List.nodup_cons.1 (List.nodup_middle.1 hnodup.of_append_right)).1
    (List.mem_append_left _ hm)

theorem Labelled.fresh {a : Assembly} (h : a.Labelled) (hl : a.labels < 2 ^ 31) {i : Insn}
    (hi : i ∈ a.code) (ht : i.op.operand = .target) : i.arg ≠ Int32.ofNat a.labels := by
  intro he
  have := h.named i hi ht
  rw [he, Bytecode.toInt_ofNat hl] at this
  exact Int.lt_irrefl _ this

theorem Labelled.fresh_placed {a : Assembly} (h : a.Labelled) (hl : a.labels < 2 ^ 31) :
    Int32.ofNat a.labels ∉ placed a.code := fun hm => h.fresh hl (mem_placed.1 hm) rfl rfl

theorem Labelled.retarget {pre rest : List Insn} {i : Insn} {l : Int32} {pool : List Bytes}
    {labels : Nat} (h : Labelled ⟨pre ++ i :: rest, pool, labels⟩) (hi : i.op.isJump = true)
    (hl : l.toInt < labels)
    (hp : l ∉ placed pre) : Labelled ⟨pre ++ { i with arg := l } :: rest, pool, labels⟩ := by
  refine ⟨fun j hj ht => ?_, ?_, ?_⟩
  · rcases List.mem_append.1 hj with hj | hj
    · exact h.named j (List.mem_append_left _ hj) ht
    · rcases List.mem_cons.1 hj with rfl | hj
      · exact hl
      · exact h.named j (by simp [hj]) ht
  · have := h.once
    rwa [placed_append, placed_retarget hi, ← placed_append]
  · have hahead := h.ahead
    rw [List.pairwise_append, List.pairwise_cons] at hahead ⊢
    obtain ⟨hpre, ⟨-, hrest⟩, hcross⟩ := hahead
    have hplaces (k : Int32) : ({ i with arg := l } : Insn).places k = false := by
      simp [Insn.places, op_ne_label hi]
    refine ⟨hpre, ⟨fun j _ _ => hplaces _, hrest⟩, fun j hj k hk => ?_⟩
    rcases List.mem_cons.1 hk with rfl | hk
    · exact fun _ => not_places hp j hj
    · exact hcross j hj k (List.mem_cons_of_mem i hk)

theorem Labelled.insert_label {xs ys : List Insn} {pool : List Bytes} {labels : Nat}
    (h : Labelled ⟨xs ++ ys, pool, labels⟩) (hl : labels < 2 ^ 31) :
    Labelled ⟨xs ++ ⟨.label, Int32.ofNat labels⟩ :: ys, pool, labels + 1⟩ := by
  have hold (j : Insn) (hj : j ∈ xs ++ ys) (ht : j.op.operand = .target) :
      j.arg.toInt < (labels + 1 : Nat) := by
    have := h.named j hj ht
    simp only at this
    omega
  refine ⟨fun j hj ht => ?_, ?_, ?_⟩
  · rcases List.mem_append.1 hj with hj | hj
    · exact hold j (List.mem_append_left _ hj) ht
    · rcases List.mem_cons.1 hj with rfl | hj
      · rw [Bytecode.toInt_ofNat hl]
        simp only
        omega
      · exact hold j (List.mem_append_right _ hj) ht
  · have hfresh := h.fresh_placed hl
    have hnodup := h.once
    simp only [placed_append] at hfresh hnodup
    simp only [placed_append, placed_cons_label]
    exact List.nodup_middle.2 (List.nodup_cons.2 ⟨hfresh, hnodup⟩)
  · have hahead := h.ahead
    simp only [List.pairwise_append, List.pairwise_cons] at hahead ⊢
    obtain ⟨hxs, hys, hcross⟩ := hahead
    refine ⟨hxs, ⟨fun j hj hjump => ?_, hys⟩, fun j hj k hk => ?_⟩
    · have hne := h.fresh hl (List.mem_append_right xs hj) (operand_of_isJump hjump)
      simpa [Insn.places] using hne.symm
    · rcases List.mem_cons.1 hk with rfl | hk
      · intro hjump
        cases hjump
      · exact hcross j hj k hk

theorem Hop.labelled {pre : List Insn} {a b : Assembly} (hop : Hop pre a b) (h : a.Labelled)
    (hl : b.labels ≤ 2 ^ 31) : b.Labelled := by
  cases hop with
  | along jump hit mid noise tail pool labels hj hh hn =>
    have hhit : hit.op.isJump = true := by rwa [hh]
    refine h.retarget hj (h.named hit (by simp) (operand_of_isJump hhit)) fun hm => ?_
    refine h.not_mem_before (pre ++ jump :: (mid ++ ⟨.label, jump.arg⟩ :: noise)) tail
      (by simp) hhit ?_
    rw [placed_append]
    exact List.mem_append_left _ hm
  | past jump hit mid noise tail pool labels hj hh hne hn =>
    have hfront (ys : List Insn) :
        pre ++ jump :: (mid ++ ⟨.label, jump.arg⟩ :: (noise ++ hit :: ys)) =
        (pre ++ jump :: (mid ++ ⟨.label, jump.arg⟩ :: (noise ++ [hit]))) ++ ys := by simp
    have hfresh := h.fresh_placed hl
    rw [hfront] at h
    have hinsert := h.insert_label hl
    rw [← hfront] at hinsert
    refine hinsert.retarget hj ?_ fun hm => hfresh ?_
    · rw [Bytecode.toInt_ofNat hl]
      omega
    · simp only [placed_append]
      exact List.mem_append_left _ hm

def leadsTo (code : List Insn) (l : Int32) : Option Opcode := (hit? code l).map (·.op)

def leading (code : List Insn) : Option Opcode := (code.find? (·.isEffective)).map (·.op)

theorem leading_cons (i : Insn) (code : List Insn) :
    leading (i :: code) = if i.isEffective then some i.op else leading code := by
  rw [leading, List.find?_cons]
  cases i.isEffective <;> rfl

theorem leadsTo_cons (i : Insn) (code : List Insn) (l : Int32) :
    leadsTo (i :: code) l = if i.places l then leading code else leadsTo code l := by
  rw [leadsTo, hit?, after, List.dropWhile_cons]
  cases i.places l <;> rfl

theorem leading_retarget (pre rest : List Insn) (i : Insn) (l : Int32) :
    leading (pre ++ { i with arg := l } :: rest) = leading (pre ++ i :: rest) := by
  induction pre with
  | nil => rw [List.nil_append, List.nil_append, leading_cons, leading_cons]; rfl
  | cons j pre ih => rw [List.cons_append, List.cons_append, leading_cons, leading_cons, ih]

theorem leading_insert_label (xs ys : List Insn) (l : Int32) :
    leading (xs ++ ⟨.label, l⟩ :: ys) = leading (xs ++ ys) := by
  induction xs with
  | nil => rw [List.nil_append, leading_cons]; rfl
  | cons j xs ih => rw [List.cons_append, List.cons_append, leading_cons, leading_cons, ih]

theorem leadsTo_retarget {i : Insn} (hi : i.op.isJump = true) (pre rest : List Insn)
    (l k : Int32) :
    leadsTo (pre ++ { i with arg := l } :: rest) k = leadsTo (pre ++ i :: rest) k := by
  induction pre with
  | nil =>
    rw [List.nil_append, List.nil_append, leadsTo, leadsTo, hit?, hit?,
      after_cons (op_ne_label hi), after_cons (i := { i with arg := l }) (op_ne_label hi)]
  | cons j pre ih =>
    rw [List.cons_append, List.cons_append, leadsTo_cons, leadsTo_cons, ih, leading_retarget]

theorem leadsTo_insert_label {l k : Int32} (h : k ≠ l) (xs ys : List Insn) :
    leadsTo (xs ++ ⟨.label, l⟩ :: ys) k = leadsTo (xs ++ ys) k := by
  induction xs with
  | nil => rw [List.nil_append, leadsTo_cons, if_neg (by simpa [Insn.places] using h.symm)]; rfl
  | cons j xs ih =>
    rw [List.cons_append, List.cons_append, leadsTo_cons, leadsTo_cons, ih,
      leading_insert_label]

/-- What threading one jump leaves as it is: texts, all but labels and the operands of jumps,
and what the labels that were in use lead to. -/
structure Kept (a b : Assembly) : Prop where
  pool : b.pool = a.pool
  outline : outline b.code = outline a.code
  labels : a.labels ≤ b.labels
  leads : ∀ l : Int32, l.toInt < a.labels → leadsTo b.code l = leadsTo a.code l

theorem Kept.refl (a : Assembly) : Kept a a := ⟨rfl, rfl, Nat.le_refl _, fun _ _ => rfl⟩

theorem Kept.trans {a b c : Assembly} (h : Kept a b) (h' : Kept b c) : Kept a c := by
  refine ⟨h'.pool.trans h.pool, h'.outline.trans h.outline, h.labels.trans h'.labels,
    fun l hl => ?_⟩
  have := h.labels
  rw [h'.leads l (by omega), h.leads l hl]

theorem Hop.kept {pre : List Insn} {a b : Assembly} (hop : Hop pre a b)
    (hl : b.labels ≤ 2 ^ 31) : Kept a b := by
  cases hop with
  | along jump hit mid noise tail pool labels hj hh hn =>
    refine ⟨rfl, ?_, Nat.le_refl _, fun l _ => leadsTo_retarget hj _ _ _ l⟩
    simp only
    rw [outline_append, outline_append, outline_retarget hj]
  | past jump hit mid noise tail pool labels hj hh hne hn =>
    have hfront (ys : List Insn) :
        pre ++ jump :: (mid ++ ⟨.label, jump.arg⟩ :: (noise ++ hit :: ys)) =
        (pre ++ jump :: (mid ++ ⟨.label, jump.arg⟩ :: (noise ++ [hit]))) ++ ys := by simp
    refine ⟨rfl, ?_, Nat.le_succ _, fun l hold => ?_⟩
    · simp only
      rw [outline_append, outline_retarget hj, ← outline_append, hfront, outline_append,
        outline_cons_label, ← outline_append, ← hfront]
    · have hne : l ≠ Int32.ofNat labels := by
        rintro rfl
        rw [Bytecode.toInt_ofNat hl] at hold
        exact Int.lt_irrefl _ hold
      simp only
      rw [leadsTo_retarget hj, hfront, leadsTo_insert_label hne, ← hfront]

theorem jumpCount_eq_countP_outline (code : List Insn) :
    (outline code).countP (·.op.isJump) = code.countP (·.op.isJump) := by
  induction code with
  | nil => rfl
  | cons i code ih =>
    obtain ⟨op, arg⟩ := i
    rw [← List.singleton_append, outline_append, List.countP_append, List.countP_append, ih]
    cases op <;> rfl

theorem Kept.jumpCount {a b : Assembly} (h : Kept a b) : b.jumpCount = a.jumpCount := by
  rw [Assembly.jumpCount, Assembly.jumpCount, ← jumpCount_eq_countP_outline, h.outline,
    jumpCount_eq_countP_outline]

def jumpsAhead (a : Assembly) (i : Nat) : Nat :=
  (a.code[i]?.map fun jump => (after jump.arg a.code).countP (·.op.isJump)).getD 0

theorem jumpsAhead_eq {a : Assembly} (h : a.Labelled) {pre rest : List Insn} {jump : Insn}
    (hcode : a.code = pre ++ jump :: rest) (hj : jump.op.isJump = true) :
    a.jumpsAhead pre.length = (after jump.arg rest).countP (·.op.isJump) := by
  have hget : a.code[pre.length]? = some jump := by
    rw [hcode]
    simp
  rw [jumpsAhead, hget, Option.map_some, Option.getD_some, hcode,
    after_append_of_not_mem (h.not_mem_before pre rest hcode hj), after_cons (op_ne_label hj)]

theorem countP_after_le (l : Int32) (code : List Insn) :
    (after l code).countP (·.op.isJump) ≤ code.countP (·.op.isJump) :=
  ((List.tail_sublist _).trans (List.dropWhile_sublist _)).countP_le

theorem jumpsAhead_le (a : Assembly) (i : Nat) : a.jumpsAhead i ≤ a.jumpCount := by
  rw [jumpsAhead]
  cases a.code[i]? with
  | none => exact Nat.zero_le _
  | some jump => exact countP_after_le jump.arg a.code

/-- A hop leaves fewer jumps ahead. -/
theorem Hop.jumpsAhead_lt {pre : List Insn} {a b : Assembly} (hop : Hop pre a b)
    (h : a.Labelled) (hl : b.labels ≤ 2 ^ 31) :
    b.jumpsAhead pre.length < a.jumpsAhead pre.length := by
  have hb := hop.labelled h hl
  have hbehind {noise tail : List Insn} {hit : Insn} (hh : hit.op.isJump = true) :
      tail.countP (·.op.isJump) < (noise ++ hit :: tail).countP (·.op.isJump) := by
    rw [List.countP_append, List.countP_cons, if_pos hh]
    omega
  cases hop with
  | along jump hit mid noise tail pool labels hj hh hn =>
    have hhit : hit.op.isJump = true := by rwa [hh]
    have hskip : hit.arg ∉ placed (mid ++ ⟨.label, jump.arg⟩ :: noise) := by
      have hbefore :=
        h.not_mem_before (pre ++ jump :: (mid ++ ⟨.label, jump.arg⟩ :: noise)) tail
          (by simp) hhit
      rw [placed_append, placed_cons (op_ne_label hj)] at hbefore
      exact fun hm => hbefore (List.mem_append_right _ hm)
    have hroad : mid ++ ⟨.label, jump.arg⟩ :: (noise ++ hit :: tail) =
        (mid ++ ⟨.label, jump.arg⟩ :: noise) ++ hit :: tail := by simp
    rw [jumpsAhead_eq hb rfl hj, jumpsAhead_eq h rfl hj, after_append (h.not_mem_mid hj)]
    simp only
    rw [hroad, after_append_of_not_mem hskip, after_cons (op_ne_label hhit)]
    exact Nat.lt_of_le_of_lt (countP_after_le _ _) (hbehind hhit)
  | past jump hit mid noise tail pool labels hj hh hne hn =>
    have hroad (ys : List Insn) : mid ++ ⟨.label, jump.arg⟩ :: (noise ++ hit :: ys) =
        (mid ++ ⟨.label, jump.arg⟩ :: (noise ++ [hit])) ++ ys := by simp
    have hskip :
        Int32.ofNat labels ∉ placed (mid ++ ⟨.label, jump.arg⟩ :: (noise ++ [hit])) := by
      have hfresh := h.fresh_placed hl
      simp only at hfresh
      rw [hroad tail, placed_append, placed_cons (op_ne_label hj),
        placed_append (mid ++ _)] at hfresh
      exact fun hm => hfresh (List.mem_append_right _ (List.mem_append_left _ hm))
    rw [jumpsAhead_eq hb rfl hj, jumpsAhead_eq h rfl hj, after_append (h.not_mem_mid hj)]
    simp only
    rw [hroad (⟨.label, Int32.ofNat labels⟩ :: tail), after_append hskip]
    exact hbehind hh

theorem Pass.turn_redirect {a b : Assembly} {i : Nat} {jump : Insn}
    (hget : a.code[i]? = some jump) (hj : jump.op.isJump = true) (h : a.redirect? i = some b) :
    turn ⟨i, a⟩ = some ⟨i, b⟩ := by
  simp [turn, hget, hj, h]

theorem Pass.turn_done {a : Assembly} {i : Nat} {jump : Insn} (hget : a.code[i]? = some jump)
    (h : a.redirect? i = none) : turn ⟨i, a⟩ = some ⟨i + 1, a⟩ := by
  simp [turn, hget, h]

/-- Instructions that are no jumps are passed over. -/
theorem Pass.run_pass {a : Assembly} (pre others rest : List Insn)
    (hcode : a.code = pre ++ (others ++ rest))
    (h : ∀ i ∈ others, i.op.isJump = false) :
    Run ⟨pre.length, a⟩ ⟨(pre ++ others).length, a⟩ := by
  induction others generalizing pre with
  | nil =>
    rw [List.append_nil]
    exact .refl
  | cons i others ih =>
    have hturn : turn ⟨pre.length, a⟩ = some ⟨(pre ++ [i]).length, a⟩ := by
      simp [turn, hcode, h i (List.mem_cons_self ..)]
    have hrest := ih (pre ++ [i]) (by simp [hcode]) fun j hj => h j (List.mem_cons_of_mem i hj)
    rw [List.append_assoc] at hrest
    exact .head hturn hrest

/-- The jump behind `pre` was threaded as far as it goes. -/
structure Settled (pre : List Insn) (a b : Assembly) : Prop where
  kept : Kept a b
  labelled : b.Labelled
  jump : ∃ jump rest, b.code = pre ++ jump :: rest ∧ jump.op.isJump = true
  done : b.redirect? pre.length = none
  run : Pass.Run ⟨pre.length, a⟩ ⟨pre.length, b⟩

theorem follow_settled {a : Assembly} {pre rest : List Insn} {jump : Insn} (steps : Nat)
    (h : a.Labelled) (hcode : a.code = pre ++ jump :: rest) (hj : jump.op.isJump = true)
    (hl : (follow pre.length steps a).labels ≤ 2 ^ 31)
    (hsteps : a.jumpsAhead pre.length < steps) :
    Settled pre a (follow pre.length steps a) := by
  -- Every hop uses up one step and at least one of the jumps ahead.
  induction steps generalizing a jump rest with
  | zero => exact absurd hsteps (Nat.not_lt_zero _)
  | succ steps ih =>
    rw [follow_succ_eq] at hl ⊢
    cases hr : a.redirect? pre.length with
    | none => exact ⟨.refl a, h, ⟨jump, rest, hcode, hj⟩, hr, .refl⟩
    | some b =>
      rw [hr, Option.elim_some] at hl
      rw [Option.elim_some]
      have hop := Hop.of_redirect? hcode hj (h.not_mem_before pre rest hcode hj) hr
      have hb := Nat.le_trans (labels_le_follow pre.length steps b) hl
      obtain ⟨jump', rest', hcode', hj'⟩ := hop.exists_jump
      have hlt := hop.jumpsAhead_lt h hb
      obtain ⟨hkept, hlabelled, hjump, hdone, hrun⟩ :=
        ih (hop.labelled h hb) hcode' hj' hl (by omega)
      have hget : a.code[pre.length]? = some jump := by
        rw [hcode]
        simp
      exact ⟨(hop.kept hb).trans hkept, hlabelled, hjump, hdone,
        .head (Pass.turn_redirect hget hj hr) hrun⟩

theorem jumpPlace?_eq {a : Assembly} {pre rest : List Insn} {jump : Insn}
    (hcode : a.code = pre ++ jump :: rest) (hj : jump.op.isJump = true) :
    a.jumpPlace? (pre.countP (·.op.isJump)) = some pre.length := by
  have hcount : (pre.zipIdx.filter (·.1.op.isJump)).length = pre.countP (·.op.isJump) := by
    conv_rhs => rw [← List.zipIdx_map_fst 0 pre]
    rw [List.countP_map, List.countP_eq_length_filter]
    rfl
  rw [jumpPlace?, hcode, List.zipIdx_append, List.filter_append, ← hcount,
    List.getElem?_append_right (Nat.le_refl _), Nat.sub_self, List.zipIdx_cons]
  simp [hj]

/-- Threading has come past `n` jumps of `a`, and what came out is `b`. -/
structure Progress (a : Assembly) (n : Nat) (b : Assembly) : Prop where
  kept : Kept a b
  labelled : b.Labelled
  place : ∃ pre rest, b.code = pre ++ rest ∧ pre.countP (·.op.isJump) = n ∧
    Pass.Run ⟨0, a⟩ ⟨pre.length, b⟩ ∧
    ∀ i ∈ pre, i.op.isJump = true → ∀ op, leadsTo b.code i.arg = some op → op.isJump = false

theorem Progress.start {a : Assembly} (h : a.Labelled) : Progress a 0 a :=
  ⟨.refl a, h, [], a.code, rfl, rfl, .refl, List.forall_mem_nil _⟩

theorem exists_first_jump {code : List Insn} (h : 0 < code.countP (·.op.isJump)) :
    ∃ others jump rest, code = others ++ jump :: rest ∧ jump.op.isJump = true ∧
      ∀ i ∈ others, i.op.isJump = false := by
  induction code with
  | nil => cases h
  | cons i code ih =>
    cases hi : i.op.isJump with
    | true => exact ⟨[], i, code, rfl, hi, List.forall_mem_nil _⟩
    | false =>
      rw [List.countP_cons, if_neg (by simp [hi])] at h
      obtain ⟨others, jump, rest, rfl, hj, hothers⟩ := ih h
      exact ⟨i :: others, jump, rest, rfl, hj, List.forall_mem_cons.2 ⟨hi, hothers⟩⟩

theorem leadsTo_of_redirect? {b : Assembly} {i : Nat} {jump : Insn}
    (hget : b.code[i]? = some jump) (h : b.redirect? i = none) :
    ∀ op, leadsTo b.code jump.arg = some op → op.isJump = false := by
  intro op hop
  obtain ⟨hit, hhit, rfl⟩ := Option.map_eq_some_iff.1 hop
  exact (redirect?_eq_none_iff hget).1 h hit hhit

/-- The next jump is threaded, and those before it stay as they are. -/
theorem Progress.next {a b : Assembly} {n : Nat} (h : Progress a n b) (hn : n < a.jumpCount)
    (hl : (b.threadJump n).labels ≤ 2 ^ 31) : Progress a (n + 1) (b.threadJump n) := by
  obtain ⟨hkept, hlabelled, pre, rest, hcode, rfl, hrun, hdirect⟩ := h
  have hjumps : 0 < rest.countP (·.op.isJump) := by
    rw [← hkept.jumpCount, jumpCount, hcode, List.countP_append] at hn
    omega
  obtain ⟨others, jump, rest, rfl, hj, hothers⟩ := exists_first_jump hjumps
  have hnone : others.countP (·.op.isJump) = 0 := List.countP_eq_zero.2 (by simpa using hothers)
  have hcount : (pre ++ others).countP (·.op.isJump) = pre.countP (·.op.isJump) := by
    rw [List.countP_append, hnone, Nat.add_zero]
  have hplace : b.jumpPlace? (pre.countP (·.op.isJump)) = some (pre ++ others).length := by
    rw [← hcount]
    exact jumpPlace?_eq (by rw [hcode, List.append_assoc]) hj
  rw [threadJump, hplace] at hl ⊢
  simp only at hl ⊢
  have hsettled := follow_settled (b.jumpCount + 1) hlabelled
    (by rw [hcode, List.append_assoc]) hj hl (Nat.lt_succ_of_le (b.jumpsAhead_le _))
  generalize follow (pre ++ others).length (b.jumpCount + 1) b = c at hl hsettled
  obtain ⟨hkept', hlabelled', ⟨jump', rest', hcode', hj'⟩, hdone, hrun'⟩ := hsettled
  have hget : c.code[(pre ++ others).length]? = some jump' := by
    rw [hcode']
    simp
  refine ⟨hkept.trans hkept', hlabelled', (pre ++ others) ++ [jump'], rest', by simp [hcode'],
    ?_, ?_, ?_⟩
  · rw [List.countP_append, hcount, List.countP_cons, if_pos hj']
    rfl
  · have hlen : (pre ++ others ++ [jump']).length = (pre ++ others).length + 1 :=
      List.length_append
    rw [hlen]
    exact ((hrun.trans (Pass.run_pass _ _ _ hcode hothers)).trans hrun').tail
      (Pass.turn_done hget hdone)
  · intro i hi hjump
    rcases List.mem_append.1 hi with hi | hi
    · have hpre : i ∈ pre := by
        rcases List.mem_append.1 hi with hi | hi
        · exact hi
        · rw [hothers i hi] at hjump
          cases hjump
      have hmem : i ∈ b.code := by
        rw [hcode]
        exact List.mem_append_left _ hpre
      rw [hkept'.leads i.arg (hlabelled.named i hmem (operand_of_isJump hjump))]
      exact hdirect i hpre hjump
    · obtain rfl := List.mem_singleton.1 hi
      exact leadsTo_of_redirect? hget hdone

theorem progress_foldl {a : Assembly} (h : a.Labelled) (n : Nat) (hn : n ≤ a.jumpCount)
    (hl : ((List.range n).foldl threadJump a).labels ≤ 2 ^ 31) :
    Progress a n ((List.range n).foldl threadJump a) := by
  induction n with
  | zero => exact .start h
  | succ n ih =>
    rw [List.range_succ, List.foldl_append, List.foldl_cons, List.foldl_nil] at hl ⊢
    exact (ih (by omega) (Nat.le_trans (labels_le_threadJump _ n) hl)).next hn hl

/-- A program without jumps that lead to others is left as it is. -/
theorem Direct.threadJumps_eq {a : Assembly} (h : Direct a.code) : a.threadJumps = a := by
  have hfollow {pre rest : List Insn} {jump : Insn} (hcode : a.code = pre ++ jump :: rest)
      (hj : jump.op.isJump = true) (steps : Nat) : follow pre.length (steps + 1) a = a := by
    have hget : a.code[pre.length]? = some jump := by
      rw [hcode]
      simp
    rw [follow_succ_eq, (redirect?_eq_none_iff hget).2 (h jump (by simp [hcode]) hj)]
    rfl
  have hone (k : Nat) : a.threadJump k = a := by
    unfold threadJump
    split
    · rfl
    · rename_i i hi
      obtain ⟨pre, jump, rest, hcode, rfl, hj⟩ := jumpPlace?_eq_some hi
      exact hfollow hcode hj _
  rw [threadJumps]
  generalize List.range a.jumpCount = ks
  induction ks with
  | nil => rfl
  | cons k ks ih => rw [List.foldl_cons, hone, ih]

/-- All jumps are done with in the end. -/
theorem Progress.finish {a b : Assembly} (h : Progress a a.jumpCount b) :
    Pass.Run ⟨0, a⟩ ⟨b.code.length, b⟩ ∧ Direct b.code := by
  obtain ⟨hkept, hlabelled, pre, rest, hcode, hcount, hrun, hdirect⟩ := h
  have hrest : ∀ i ∈ rest, i.op.isJump = false := by
    have htotal := hkept.jumpCount
    rw [jumpCount, hcode, List.countP_append, hcount] at htotal
    have hzero : rest.countP (·.op.isJump) = 0 := by omega
    simpa using List.countP_eq_zero.1 hzero
  constructor
  · have hpass := Pass.run_pass pre rest [] (by rw [hcode, List.append_nil]) hrest
    rw [← hcode] at hpass
    exact hrun.trans hpass
  · intro i hi hj hit hhit
    refine hdirect i ?_ hj hit.op (by rw [leadsTo, hhit]; rfl)
    rw [hcode] at hi
    rcases List.mem_append.1 hi with hi | hi
    · exact hi
    · rw [hrest i hi] at hj
      cases hj

theorem Forward.mem_placed {code : List Insn} (h : Forward code) {i : Insn} (hi : i ∈ code)
    (hj : i.op.isJump = true) : i.arg ∈ placed code := by
  obtain ⟨xs, ys, rfl⟩ := List.append_of_mem hi
  rw [placed_append, placed_cons (op_ne_label hj)]
  exact List.mem_append_right _ (h.of_append.1 hj)

/-- A jump that has its label ahead of it leads nowhere else if labels stand in one place only.
-/
theorem Forward.pairwise {code : List Insn} (h : Forward code) (hn : (placed code).Nodup) :
    code.Pairwise fun i j => j.op.isJump = true → i.places j.arg = false := by
  induction code with
  | nil => exact .nil
  | cons i code ih =>
    have htail : (placed code).Nodup := by
      refine List.Nodup.sublist ?_ hn
      exact (List.Sublist.filter _ (List.sublist_cons_self i code)).map _
    refine .cons (fun j hm hj => ?_) (ih h.2 htail)
    cases hp : i.places j.arg with
    | false => rfl
    | true =>
      rw [places_iff.1 hp, placed_cons_label] at hn
      exact absurd (Forward.mem_placed h.2 hm hj) (List.nodup_cons.1 hn).1

/-- What is written for a lock can be threaded. -/
theorem ofKey_labelled {key : Option Key} {a : Assembly} (h : ofKey key = .ok a)
    (hl : a.labels ≤ 2 ^ 31) : a.Labelled := by
  cases key with
  | none =>
    cases h
    exact ⟨List.forall_mem_nil _, List.nodup_nil, .nil⟩
  | some key =>
    have hw := wellFormed_ofKey h hl
    have hnodup : (placed a.code).Nodup := by
      obtain ⟨-, rfl⟩ := ofKey_eq_ok h
      rw [placed_append]
      exact (List.append_nil _).symm ▸ (write_fragment key [] 0).nodup hl
    refine ⟨fun i hi ht => hw.bounded i.arg ?_, hnodup, hw.linked.forward.pairwise hnodup⟩
    by_cases hlabel : i.op = .label
    · refine mem_placed.2 ?_
      rwa [← hlabel]
    · refine hw.linked.forward.mem_placed hi ?_
      obtain ⟨op, arg⟩ := i
      cases op with
      | jumpTrue => rfl
      | jumpFalse => rfl
      | label => exact absurd rfl hlabel
      | _ => cases ht

/-- Threading comes to an end on every program whose labels are named below the count, stand in
one place at most and are not led back to, as long as the count stays in 32 bits: the turns that
are taken from its first instruction on end with the program that threading gives. That program
is of the same kind, no jump in it leads to another, it differs from the first only in its
labels and in where jumps lead, and threading it again changes nothing. Whatever is written for
a lock is such a program. -/
theorem threadJumps_settles :
    (∀ a : Assembly, a.Labelled → a.threadJumps.labels < 2 ^ 31 →
      Pass.Run ⟨0, a⟩ ⟨a.threadJumps.code.length, a.threadJumps⟩ ∧
      Pass.turn ⟨a.threadJumps.code.length, a.threadJumps⟩ = none ∧
      a.threadJumps.Labelled ∧
      Direct a.threadJumps.code ∧
      outline a.threadJumps.code = outline a.code ∧
      a.threadJumps.pool = a.pool ∧
      a.threadJumps.threadJumps = a.threadJumps) ∧
    ∀ (key : Option Key) (a : Assembly), ofKey key = .ok a →
      (a.labels < 2 ^ 31 → a.Labelled) ∧
      (2 * a.labels < 2 ^ 31 → a.threadJumps.labels < 2 ^ 31) := by
  constructor
  · intro a h hl
    have hprogress := progress_foldl h a.jumpCount (Nat.le_refl _) (Nat.le_of_lt hl)
    obtain ⟨hrun, hdirect⟩ := hprogress.finish
    refine ⟨hrun, ?_, hprogress.labelled, hdirect, hprogress.kept.outline, hprogress.kept.pool,
      Direct.threadJumps_eq hdirect⟩
    simp [Pass.turn]
  · intro key a h
    refine ⟨fun hl => ofKey_labelled h (Nat.le_of_lt hl), fun hl => ?_⟩
    cases key with
    | none =>
      cases h
      exact hl
    | some key => exact Nat.lt_of_le_of_lt (labels_threadJumps_ofKey h (Nat.le_of_lt hl)) hl

/-- A program whose first jump leads past two others, one of each kind. -/
def knot : Assembly where
  code :=
    [⟨.jumpFalse, 0⟩, ⟨.label, 0⟩, ⟨.paren, 1⟩, ⟨.jumpTrue, 1⟩, ⟨.jumpFalse, 2⟩, ⟨.negate, 0⟩,
    ⟨.label, 1⟩, ⟨.jumpTrue, 3⟩, ⟨.label, 2⟩, ⟨.ret, 0⟩]
  pool := []
  labels := 4

theorem threadJumps_settles_knot :
    knot.threadJumps.labels = 5 ∧ Direct knot.threadJumps.code ∧
      knot.threadJumps.threadJumps = knot.threadJumps ∧
      (∃ a, ofKey (some Key.sample) = .ok a ∧ a.Labelled ∧ a.threadJumps.labels < 2 ^ 31) := by
  have hlabels : knot.threadJumps.labels = 5 := by decide
  have hknot : knot.Labelled := ⟨by decide, by decide, by decide⟩
  obtain ⟨-, -, -, hdirect, -, -, hagain⟩ :=
    threadJumps_settles.1 knot hknot (by rw [hlabels]; decide)
  obtain ⟨hsample, hbound⟩ := threadJumps_settles.2 (some Key.sample) _ rfl
  exact ⟨hlabels, hdirect, hagain, _, rfl, hsample (by decide), hbound (by decide)⟩

end Assembly
end Locksmith
