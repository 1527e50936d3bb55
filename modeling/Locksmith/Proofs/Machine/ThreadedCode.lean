import Locksmith.Machine.Lint
import Locksmith.Proofs.Machine.Decompile

namespace Locksmith

open Assembly (EndsInRet)
open Decompile (blank)

namespace Bytecode

variable {l l' : List Insn} {code code' after : Bytes} {pc : Nat} {i : Insn}

theorem textAt_append_congr {before before' : Bytes} (h : before'.length = before.length)
    {offset : Int32} (ho : before.length ≤ offset.toInt.toNat) :
    textAt (before' ++ after) offset = textAt (before ++ after) offset := by
  have hdrop {front : Bytes} (hf : front.length ≤ offset.toInt.toNat) :
      (front ++ after).drop offset.toInt.toNat =
        after.drop (offset.toInt.toNat - front.length) := by
    rw [List.drop_append, List.drop_eq_nil_of_le hf, List.nil_append]
  unfold textAt
  rw [hdrop ho, hdrop (h.trans_le ho), List.length_append, List.length_append, h]

theorem exists_split_blank (h : l'.map blank = l.map blank) {before rest : List Insn}
    (hl : l = before ++ i :: rest) :
    ∃ before' j rest', l' = before' ++ j :: rest' ∧ before'.length = before.length ∧
      blank j = blank i := by
  rw [hl, List.map_append, List.map_cons] at h
  obtain ⟨before', tail, rfl, hbefore, htail⟩ := List.map_eq_append_iff.1 h
  obtain ⟨j, rest', rfl, hj, -⟩ := List.map_eq_cons_iff.1 htail
  refine ⟨before', j, rest', rfl, ?_, hj⟩
  have := congrArg List.length hbefore
  rwa [List.length_map, List.length_map] at this

theorem op_eq_of_blank {j : Insn} (h : blank j = blank i) : j.op = i.op := by
  rw [← Decompile.op_blank j, h, Decompile.op_blank]

theorem eq_of_blank {j : Insn} (h : blank j = blank i) (hi : i.op.isJump = false) : j = i := by
  have hj : j.op.isJump = false := by rwa [op_eq_of_blank h]
  rwa [Decompile.blank_of_op hi, Decompile.blank_of_op hj] at h

/-- What is read of two programs that differ in the places that jumps lead to. -/
theorem fetch_blank (after : Bytes) (h : l'.map blank = l.map blank) {before rest : List Insn}
    (hl : l = before ++ i :: rest) :
    (∃ f, fetch (l.flatMap encodeInsn ++ after) (before.length * insnWidth) = .error f ∧
      fetch (l'.flatMap encodeInsn ++ after) (before.length * insnWidth) = .error f) ∨
    (fetch (l.flatMap encodeInsn ++ after) (before.length * insnWidth) = .ok i ∧
      ∃ j, blank j = blank i ∧
        fetch (l'.flatMap encodeInsn ++ after) (before.length * insnWidth) = .ok j) := by
  obtain ⟨before', j, rest', hl', hlen, hj⟩ := exists_split_blank h hl
  have hfetch := fetch_flatMap l after before i rest hl
  have hfetch' := fetch_flatMap l' after before' j rest' hl'
  rw [hlen, op_eq_of_blank hj] at hfetch'
  by_cases hi : i.op.isExecutable = true
  · rw [if_pos hi] at hfetch hfetch'
    exact .inr ⟨hfetch, j, hj, hfetch'⟩
  · rw [if_neg hi] at hfetch hfetch'
    exact .inl ⟨_, hfetch, hfetch'⟩

theorem instructionsFrom_of_error {f : Fault} (h : fetch code pc = .error f) :
    instructionsFrom code pc = .error f := by
  rw [instructionsFrom]
  split
  · rename_i f' h'
    cases h.symm.trans h'
    rfl
  · rename_i h'
    cases h.symm.trans h'

theorem instructionsFrom_blank (h : l'.map blank = l.map blank) (before rest : List Insn)
    (hl : l = before ++ rest) (hret : EndsInRet rest) :
    (instructionsFrom (l'.flatMap encodeInsn ++ after) (before.length * insnWidth)).map
    (List.map blank) =
      (instructionsFrom (l.flatMap encodeInsn ++ after) (before.length * insnWidth)).map
      (List.map blank) := by
  have hcons (k : Insn) (x : Except Fault (List Insn)) :
      (x.map (k :: ·)).map (List.map blank) = (x.map (List.map blank)).map (blank k :: ·) := by
    cases x with
    | error f => rfl
    | ok r => rfl
  induction rest generalizing before with
  | nil => exact absurd rfl hret.ne_nil
  | cons i rest ih =>
    obtain ⟨f, hf, hf'⟩ | ⟨hi, j, hj, hj'⟩ := fetch_blank after h hl
    · rw [instructionsFrom_of_error hf, instructionsFrom_of_error hf']
    · rw [instructionsFrom_of_fetch hi, instructionsFrom_of_fetch hj', op_eq_of_blank hj]
      by_cases hr : i.op = .ret
      · rw [hr]
        exact congrArg (fun k => Except.ok [k]) hj
      · have hne : ¬(i.op == .ret) = true := by simpa using hr
        have ih := ih (before ++ [i]) (by simpa using hl) (hret.tail hr)
        rw [List.length_append, List.length_singleton, Nat.succ_mul] at ih
        rw [if_neg hne, if_neg hne, hcons, hcons, ih, hj]

/-- Instructions are read from where they were written. -/
theorem mem_of_mem_instructionsFrom (before rest : List Insn) (hl : l = before ++ rest)
    (hret : EndsInRet rest) {r : List Insn}
    (hr : instructionsFrom (l.flatMap encodeInsn ++ after) (before.length * insnWidth) =
      .ok r) :
    ∀ i ∈ r, i ∈ l := by
  induction rest generalizing before r with
  | nil => exact absurd rfl hret.ne_nil
  | cons i rest ih =>
    have hmem : i ∈ l := by simp [hl]
    obtain ⟨f, hf, -⟩ | ⟨hi, -⟩ := fetch_blank after rfl hl
    · rw [instructionsFrom_of_error hf] at hr
      cases hr
    · rw [instructionsFrom_of_fetch hi] at hr
      by_cases hop : i.op = .ret
      · rw [hop] at hr
        cases hr
        simpa using hmem
      · rw [if_neg (by simpa using hop)] at hr
        cases hrest : instructionsFrom (l.flatMap encodeInsn ++ after)
            (before.length * insnWidth + insnWidth) with
        | error f =>
          rw [hrest] at hr
          cases hr
        | ok r' =>
          have ih := ih (before ++ [i]) (by simpa using hl) (hret.tail hop) (r := r')
          rw [List.length_append, List.length_singleton, Nat.succ_mul] at ih
          rw [hrest] at hr
          cases hr
          intro j hj
          rcases List.mem_cons.1 hj with rfl | hj
          · exact hmem
          · exact ih hrest j hj

end Bytecode

namespace Decompile

variable {style : Style} {code code' text : Bytes}

theorem splitGroup_subset {depth : Nat} {l inner after : List Insn}
    (h : splitGroup depth l = some (inner, after)) :
    (∀ i ∈ inner, i ∈ l) ∧ ∀ i ∈ after, i ∈ l := by
  induction l generalizing depth inner after with
  | nil => cases h
  | cons i rest ih =>
    have hkeep {depth : Nat}
        (h : (splitGroup depth rest).map (fun p => (i :: p.1, p.2)) = some (inner, after)) :
        (∀ k ∈ inner, k ∈ i :: rest) ∧ ∀ k ∈ after, k ∈ i :: rest := by
      obtain ⟨⟨inner', after'⟩, hsplit, he⟩ := Option.map_eq_some_iff.1 h
      obtain ⟨rfl, rfl⟩ := Prod.mk.inj he
      obtain ⟨hinner, hafter⟩ := ih hsplit
      refine ⟨fun k hk => ?_, fun k hk => List.mem_cons_of_mem i (hafter k hk)⟩
      rcases List.mem_cons.1 hk with rfl | hk
      · exact List.mem_cons_self
      · exact List.mem_cons_of_mem i (hinner k hk)
    by_cases hi : i.op = .paren
    · obtain ⟨op, arg⟩ := i
      cases hi
      by_cases harg : arg = 0
      · subst harg
        rw [splitGroup_open] at h
        exact hkeep h
      · rw [splitGroup_close harg] at h
        cases depth with
        | zero =>
          cases h
          exact ⟨nofun, fun k hk => List.mem_cons_of_mem _ hk⟩
        | succ d => exact hkeep h
    · rw [splitGroup_other hi] at h
      exact hkeep h

theorem renderTest_congr {i : Insn}
    (h : i.op.operand = .text → Bytecode.textAt code' i.arg = Bytecode.textAt code i.arg) :
    renderTest style code' text i = renderTest style code text i := by
  obtain ⟨op, arg⟩ := i
  cases op with
  | testAttr => simp only [renderTest, h rfl]
  | testEval => simp only [renderTest, h rfl]
  | testClass => simp only [renderTest, h rfl]
  | _ => rfl

/-- Of the code that instructions are shown from, only the texts matter that they name. -/
theorem render_congr {l : List Insn}
    (h : ∀ i ∈ l, i.op.operand = .text →
      Bytecode.textAt code' i.arg = Bytecode.textAt code i.arg) :
    render style code' text l = render style code text l := by
  induction hn : l.length using Nat.strongRecOn generalizing text l with
  | ind n ih =>
    subst hn
    rcases l with _ | ⟨i, rest⟩
    · rw [render, render]
    have hless (part : List Insn) (hsub : ∀ k ∈ part, k ∈ rest)
        (hlen : part.length ≤ rest.length) (text : Bytes) :
        render style code' text part = render style code text part :=
      ih part.length (Nat.lt_succ_of_le hlen)
        (fun k hk => h k (List.mem_cons_of_mem i (hsub k hk))) rfl
    have hrest := hless rest (fun k hk => hk) (Nat.le_refl _)
    have hdrop {part : List Insn} (hsub : ∀ k ∈ part, k ∈ rest)
        (hlen : part.length ≤ rest.length) :=
      have hsublist := List.dropWhile_sublist (l := part) negates
      hless (part.dropWhile negates) (fun k hk => hsub k (hsublist.subset hk))
        (Nat.le_trans hsublist.length_le hlen)
    have hi := h i List.mem_cons_self
    by_cases htest : i.op.isTest = true ∨ i.op.isExecutable = false
    · rw [render_test htest, render_test htest, renderTest_congr hi,
        hdrop (fun k hk => hk) (Nat.le_refl _)]
    · obtain ⟨op, arg⟩ := i
      cases op with
      | ret => rw [render, render]
      | jumpTrue => rw [render_jumpTrue, render_jumpTrue, hrest]
      | jumpFalse => rw [render_jumpFalse, render_jumpFalse, hrest]
      | negate => rw [render_negate, render_negate, hrest]
      | loadText =>
        have hi : Bytecode.textAt code' arg = Bytecode.textAt code arg := hi rfl
        cases ht : Bytecode.textAt code arg with
        | error f =>
          rw [render, render]
          simp only [hi, ht]
        | ok s => rw [render_loadText (hi.trans ht), render_loadText ht, hrest]
      | paren =>
        rw [render_paren, render_paren]
        split
        · rfl
        · cases hsplit : splitGroup 0 rest with
          | none => rfl
          | some parts =>
            obtain ⟨inner, after⟩ := parts
            have hlen := splitGroup_length hsplit
            obtain ⟨hinner, hafter⟩ := splitGroup_subset hsplit
            simp only [Option.bind_some]
            rw [hless inner hinner (by omega)]
            simp only [hdrop hafter (show after.length ≤ rest.length by omega)]
      | label | unassigned => exact absurd (.inr rfl) htest
      | _ => exact absurd (.inl rfl) htest

end Decompile

namespace Lint

variable {m : Type → Type} [Monad m] (w : World m) {code code' after text : Bytes}
  {target : Dbref} {pc : Nat} {i : Insn} {l l' : List Insn}

theorem checkFrom_of_error {f : Fault} (h : Bytecode.fetch code pc = .error f) :
    checkFrom w code target pc text = pure [.corrupt f] := by
  rw [checkFrom]
  split
  · rename_i f' h'
    cases h.symm.trans h'
    rfl
  · rename_i h'
    cases h.symm.trans h'

theorem checkFrom_of_fetch (h : Bytecode.fetch code pc = .ok i) :
    checkFrom w code target pc text =
      match i.op with
      | .ret => pure []
      | .loadText =>
        (match Bytecode.textAt code i.arg with
        | .error f => pure [.corrupt f]
        | .ok text => checkFrom w code target (pc + Bytecode.insnWidth) text)
      | _ =>
        checkInsn w target text i >>= fun found =>
          checkFrom w code target (pc + Bytecode.insnWidth) text >>= fun later =>
            pure (found ++ later) := by
  rw [checkFrom]
  split
  · rename_i h'
    cases h.symm.trans h'
  · rename_i i' h'
    cases h.symm.trans h'
    rfl

theorem checkInsn_blank (i : Insn) :
    checkInsn w target text (blank i) = checkInsn w target text i := by
  obtain ⟨op, arg⟩ := i
  cases op <;> rfl

/-- The places that jumps lead to are not checked. -/
theorem checkFrom_blank (h : l'.map blank = l.map blank)
    (htexts : ∀ i ∈ l, i.op.operand = .text →
      Bytecode.textAt (l'.flatMap Bytecode.encodeInsn ++ after) i.arg =
        Bytecode.textAt (l.flatMap Bytecode.encodeInsn ++ after) i.arg)
    (before rest : List Insn) (hl : l = before ++ rest) (hret : EndsInRet rest) (text : Bytes) :
    checkFrom w (l'.flatMap Bytecode.encodeInsn ++ after) target
      (before.length * Bytecode.insnWidth) text =
      checkFrom w (l.flatMap Bytecode.encodeInsn ++ after) target
        (before.length * Bytecode.insnWidth) text := by
  induction rest generalizing before text with
  | nil => exact absurd rfl hret.ne_nil
  | cons i rest ih =>
    obtain ⟨f, hf, hf'⟩ | ⟨hi, j, hj, hj'⟩ := Bytecode.fetch_blank after h hl
    · rw [checkFrom_of_error w hf, checkFrom_of_error w hf']
    · rw [checkFrom_of_fetch w hi, checkFrom_of_fetch w hj', Bytecode.op_eq_of_blank hj]
      have hnext (hr : i.op ≠ .ret) (text : Bytes) :=
        ih (before ++ [i]) (by simpa using hl) (hret.tail hr) text
      rw [List.length_append, List.length_singleton, Nat.succ_mul] at hnext
      have htext := htexts i (by simp [hl])
      rw [← checkInsn_blank w j, hj, checkInsn_blank w i]
      obtain ⟨op, arg⟩ := i
      cases op with
      | ret => rfl
      | loadText =>
        rw [Bytecode.eq_of_blank hj rfl]
        simp only [htext rfl, hnext (fun hop => Opcode.noConfusion hop)]
      | _ => simp only [hnext (fun hop => Opcode.noConfusion hop)]

end Lint

namespace Assembly

variable {a b : Assembly}

def listing (a : Assembly) : List Insn := (solid a.code).map a.resolve

theorem endsInRet_listing (h : EndsInRet a.code) : EndsInRet a.listing := by
  obtain ⟨init, arg, hcode⟩ := h
  refine ⟨(solid init).map a.resolve, arg, ?_⟩
  rw [listing, hcode, solid_append, List.map_append]
  rfl

theorem textOffset_of_text_operand {i : Insn} (hi : i ∈ a.listing)
    (htext : i.op.operand = .text) : ∃ k, i.arg = a.textOffset k := by
  obtain ⟨j, -, rfl⟩ := List.mem_map.1 hi
  rw [op_resolve] at htext
  exact ⟨j.arg, by simp only [resolve, htext]⟩

theorem le_textOffset (hsize : a.bytes.length < 2 ^ 31) (k : Int32) :
    insnCount a.code * Bytecode.insnWidth ≤ (a.textOffset k).toInt.toNat := by
  have hpool : (a.pool.flatMap (· ++ [0])).length =
      ((a.pool.take k.toInt.toNat).flatMap (· ++ [0])).length +
        ((a.pool.drop k.toInt.toNat).flatMap (· ++ [0])).length := by
    rw [← List.length_append, ← List.flatMap_append, List.take_append_drop]
  rw [length_bytes, hpool] at hsize
  rw [textOffset, Bytecode.toInt_ofNat (by omega), Int.toNat_natCast]
  exact Nat.le_add_right _ _

theorem Threaded.insnCount_eq (h : Threaded a b) : insnCount b.code = insnCount a.code := by
  rw [← length_outline, h.outline, length_outline]

theorem Threaded.textOffset_eq (h : Threaded a b) : b.textOffset = a.textOffset := by
  funext k
  rw [textOffset, textOffset, h.insnCount_eq, h.pool]

theorem Threaded.length_bytes_eq (h : Threaded a b) : b.bytes.length = a.bytes.length := by
  rw [length_bytes, length_bytes, h.insnCount_eq, h.pool]

theorem Threaded.textAt_eq (h : Threaded a b) (hsize : a.bytes.length < 2 ^ 31) (k : Int32) :
    Bytecode.textAt b.bytes (a.textOffset k) = Bytecode.textAt a.bytes (a.textOffset k) := by
  have hfront (c : Assembly) : (c.listing.flatMap Bytecode.encodeInsn).length =
      insnCount c.code * Bytecode.insnWidth := by
    rw [Bytecode.length_flatMap_encodeInsn, listing, List.length_map, length_solid]
  rw [bytes, bytes, h.pool]
  refine Bytecode.textAt_append_congr ?_ ?_
  · exact (hfront b).trans (h.insnCount_eq ▸ (hfront a).symm)
  · exact (hfront a).trans_le (le_textOffset hsize k)

theorem Threaded.listing_blank (h : Threaded a b) :
    b.listing.map blank = a.listing.map blank := by
  rw [listing, listing, Decompile.blank_resolve, Decompile.blank_resolve, Decompile.shown,
    Decompile.shown, h.outline, h.textOffset_eq]

theorem Threaded.listing_texts (h : Threaded a b) (hsize : a.bytes.length < 2 ^ 31) {i : Insn}
    (hi : i ∈ a.listing) (htext : i.op.operand = .text) :
    Bytecode.textAt b.bytes i.arg = Bytecode.textAt a.bytes i.arg := by
  obtain ⟨k, hk⟩ := textOffset_of_text_operand hi htext
  rw [hk, h.textAt_eq hsize]

theorem Threaded.verdict_eq (h : Threaded a b) (ha : a.WellFormed) (hb : b.WellFormed)
    (hsize : a.bytes.length < 2 ^ 31) {m : Type → Type} [Monad m] [LawfulMonad m]
    (v : Machine m)
    (subject target : Dbref) (st : EvalState) :
    v.verdict b.bytes subject target st = v.verdict a.bytes subject target st := by
  have hrun {c : Assembly} (hc : c.WellFormed) (hsize : c.bytes.length < 2 ^ 31) :
      v.verdict c.bytes subject target st =
        v.flow (fun object code st => v.run code subject object st)
          (fun k => Bytecode.textAt c.bytes (c.textOffset k)) subject target c.code 0
          false [] st :=
    verdictFrom_bytes v c hc.linked hsize (List.nil_append c.code).symm hc.ends false [] st
  have htexts : (fun k => Bytecode.textAt b.bytes (b.textOffset k)) =
      fun k => Bytecode.textAt a.bytes (a.textOffset k) := by
    funext k
    rw [h.textOffset_eq, h.textAt_eq hsize]
  refine (hrun hb (h.length_bytes_eq.trans_lt hsize)).trans (Eq.trans ?_ (hrun ha hsize).symm)
  rw [htexts]
  exact (h.run m v ..).symm

theorem Threaded.decompile_eq (h : Threaded a b) (hret : EndsInRet a.code)
    (hsize : a.bytes.length < 2 ^ 31) (viewer : Dbref) (mode : DisplayMode)
    (names : Option (Dbref → Bytes)) :
    LockCode.decompile (some b.bytes) viewer mode names =
      LockCode.decompile (some a.bytes) viewer mode names := by
  have hends := endsInRet_listing hret
  have hread : (Bytecode.instructions b.bytes).map (List.map blank) =
      (Bytecode.instructions a.bytes).map (List.map blank) := by
    rw [bytes, bytes, h.pool]
    exact Bytecode.instructionsFrom_blank h.listing_blank [] a.listing rfl hends
  simp only [LockCode.decompile]
  cases ha : Bytecode.instructions a.bytes with
  | error f =>
    rw [ha] at hread
    cases hb : Bytecode.instructions b.bytes with
    | error f' => rfl
    | ok r' =>
      rw [hb] at hread
      cases hread
  | ok r =>
    rw [ha] at hread
    cases hb : Bytecode.instructions b.bytes with
    | error f' =>
      rw [hb] at hread
      cases hread
    | ok r' =>
      rw [hb] at hread
      have hblank : r'.map blank = r.map blank := Except.ok.inj hread
      have hmem : ∀ i ∈ r, i ∈ a.listing :=
        Bytecode.mem_of_mem_instructionsFrom [] a.listing rfl hends ha
      have hrender : Decompile.render ⟨viewer, mode, names⟩ b.bytes [] r' =
          Decompile.render ⟨viewer, mode, names⟩ a.bytes [] r := by
        rw [← Decompile.render_blank r', hblank, Decompile.render_blank]
        exact Decompile.render_congr fun i hi htext => h.listing_texts hsize (hmem i hi) htext
      simp only [hrender]

theorem Threaded.check_eq (h : Threaded a b) (hret : EndsInRet a.code)
    (hsize : a.bytes.length < 2 ^ 31) {m : Type → Type} [Monad m] (w : World m)
    (owner target : Dbref) (lock : Bytes) :
    Lint.check w (some b.bytes) owner target lock =
      Lint.check w (some a.bytes) owner target lock := by
  have htexts : ∀ i ∈ a.listing, i.op.operand = .text →
      Bytecode.textAt b.bytes i.arg = Bytecode.textAt a.bytes i.arg := fun i hi =>
        h.listing_texts hsize hi
  have hcheck :
      Lint.checkFrom w b.bytes target 0 [] = Lint.checkFrom w a.bytes target 0 [] := by
    rw [bytes, bytes, h.pool] at htexts ⊢
    exact Lint.checkFrom_blank w h.listing_blank htexts [] a.listing rfl
      (endsInRet_listing hret) []
  simp only [Lint.check, hcheck]

theorem emit_eq_bytes (h : EndsInRet a.code) : a.emit = some a.bytes := by
  obtain ⟨init, arg, hcode⟩ := h
  rw [emit_eq, if_neg]
  rw [hcode, insnCount_append, insnCount_cons (by nofun)]
  exact Nat.succ_ne_zero _

/-- Threading does not show in emitted code but by the places that jumps lead to. Any assembly
will do that ends in `ret` and has the label of each jump once, ahead of the jump and below the
number of labels. -/
theorem threadJumps_emit (h : a.WellFormed) (hlabels : a.threadJumps.labels ≤ 2 ^ 31) :
    ∃ code code', a.emit = some code ∧ a.threadJumps.emit = some code' ∧
      code'.length = code.length ∧
      (∃ (l l' : List Insn) (texts : Bytes), code = l.flatMap Bytecode.encodeInsn ++ texts ∧
        code' = l'.flatMap Bytecode.encodeInsn ++ texts ∧ l'.map blank = l.map blank) ∧
      (code.length < 2 ^ 31 →
        (∀ (m : Type → Type) [Monad m] [LawfulMonad m] (v : Machine m)
            (subject target : Dbref) (st : EvalState),
          v.run (some code') subject target st = v.run (some code) subject target st ∧
          v.verdict code' subject target st = v.verdict code subject target st) ∧
        (∀ (viewer : Dbref) (mode : DisplayMode) (names : Option (Dbref → Bytes)),
          LockCode.decompile (some code') viewer mode names =
            LockCode.decompile (some code) viewer mode names) ∧
        ∀ (m : Type → Type) [Monad m] (w : World m) (owner target : Dbref) (lock : Bytes),
          Lint.check w (some code') owner target lock =
            Lint.check w (some code) owner target lock) := by
  obtain ⟨ht, hw⟩ := threadJumps_threaded h hlabels
  refine ⟨a.bytes, a.threadJumps.bytes, emit_eq_bytes h.ends, emit_eq_bytes hw.ends,
    ht.length_bytes_eq, ?_, ?_⟩
  · refine ⟨a.listing, a.threadJumps.listing, a.pool.flatMap (· ++ [0]), rfl, ?_,
      ht.listing_blank⟩
    rw [← ht.pool]
    rfl
  · intro hsize
    refine ⟨?_, ht.decompile_eq h.ends hsize, fun m _ w => ht.check_eq h.ends hsize w⟩
    intro m _ _ v subject target st
    have hverdict := ht.verdict_eq h hw hsize v subject target st
    refine ⟨?_, hverdict⟩
    rw [Machine.run_some, Machine.run_some, Machine.runCode, Machine.runCode]
    exact congrArg (· >>= _) hverdict

/-- The first jump leads to one that is not taken then, behind a group mark, and the second to
one that is. -/
def tangle : Assembly where
  code :=
    [⟨.paren, 0⟩, ⟨.loadText, 0⟩, ⟨.testAttr, 1⟩, ⟨.jumpFalse, 0⟩, ⟨.testIs, 5⟩, ⟨.label, 0⟩,
    ⟨.paren, 1⟩, ⟨.jumpTrue, 1⟩, ⟨.negate, 0⟩, ⟨.label, 1⟩, ⟨.jumpTrue, 2⟩, ⟨.testOwner, 7⟩,
    ⟨.label, 2⟩, ⟨.ret, 0⟩]
  pool := [[78], [120]]
  labels := 3

theorem threadJumps_emit_tangle :
    ∃ code code', tangle.emit = some code ∧ tangle.threadJumps.emit = some code' ∧
      code ≠ code' ∧ code.length < 2 ^ 31 ∧
      LockCode.decompile (some code') 1 .dbrefs none =
        LockCode.decompile (some code) 1 .dbrefs none ∧
      ∀ subject,
        Machine.run ⟨World.nowhere, .standard, defaultMaxDepth⟩ (some code') subject 7
          ⟨0, false⟩ =
        Machine.run ⟨World.nowhere, .standard, defaultMaxDepth⟩ (some code) subject 7
          ⟨0, false⟩ := by
  have hplaced : placed tangle.code = [0, 1, 2] := rfl
  have hw : tangle.WellFormed := by
    refine ⟨⟨?_, by decide⟩, ⟨tangle.code.dropLast, 0, rfl⟩, ?_⟩
    · simp [tangle, Forward, placed, Opcode.isJump]
    · rw [hplaced]
      simp [tangle]
  obtain ⟨code, code', hcode, hcode', -, -, hsame⟩ := threadJumps_emit hw (by decide)
  obtain rfl : code = tangle.bytes := Option.some.inj (hcode.symm.trans (emit_eq_bytes hw.ends))
  obtain rfl : code' = tangle.threadJumps.bytes := Option.some.inj (hcode'.symm.trans rfl)
  have hsize : tangle.bytes.length < 2 ^ 31 := by decide
  obtain ⟨hrun, hshow, -⟩ := hsame hsize
  refine ⟨_, _, hcode, hcode', by decide, hsize, hshow 1 .dbrefs none, fun subject => ?_⟩
  exact (hrun Id ⟨World.nowhere, .standard, defaultMaxDepth⟩ subject 7 ⟨0, false⟩).1

end Assembly
end Locksmith
