import Locksmith.Machine.Lint
import Locksmith.Proofs.Machine.EmittedCode

namespace Locksmith

def LockClass.ofVerdict : Bool → LockClass
  | true => unlocked
  | false => locked

/-- The lock is open, or its code sets the result and ends at once. -/
inductive LockCode.Constant : LockCode → Bool → Prop
  | opened : Constant none true
  | code {bytes : Bytes} {arg arg' : Int32}
      (load : Bytecode.fetch bytes 0 = .ok ⟨.loadResult, arg⟩)
      (ret : Bytecode.fetch bytes Bytecode.insnWidth = .ok ⟨.ret, arg'⟩) :
      Constant (some bytes) (arg != 0)

theorem Opcode.toByte_ofByte (b : UInt8) : (ofByte b).toByte = b := by
  have hall : ∀ n : Fin 256, (ofByte (UInt8.ofNat n)).toByte = UInt8.ofNat n := by
    decide +kernel
  simpa using hall ⟨b.toNat, b.toNat_lt⟩

namespace Bytecode

variable {code : Bytes}

/-- An instruction that can be read is there byte by byte. -/
theorem fetch_eq_ok {pc : Nat} {i : Insn} (h : fetch code pc = .ok i) :
    ∃ a b c d after, code.drop pc = i.op.toByte :: a :: b :: c :: d :: after ∧
      i.arg = Int32.ofNat (LittleEndian.toNat [a, b, c, d]) := by
  have hlength := fetch_length h
  unfold fetch at h
  split at h
  · cases h
  · split at h
    · rename_i first arg hdrop
      have hbytes : (code.drop pc).length = code.length - pc := List.length_drop
      rw [hdrop, List.length_cons] at hbytes
      dsimp only at h
      split at h
      · cases h
        obtain _ | ⟨a, _ | ⟨b, _ | ⟨c, _ | ⟨d, after⟩⟩⟩⟩ := arg
        all_goals simp only [List.length_cons, List.length_nil, insnWidth] at hbytes hlength
        · omega
        · omega
        · omega
        · omega
        · exact ⟨a, b, c, d, after, by rw [hdrop, Opcode.toByte_ofByte], rfl⟩
      · cases h
    · cases h

/-- Where an instruction was written no other is read. -/
theorem eq_of_fetch_flatMap (before : List Insn) {l rest : List Insn} {i j : Insn}
    {after : Bytes} (hl : l = before ++ i :: rest)
    (h : fetch (l.flatMap encodeInsn ++ after) (before.length * insnWidth) = .ok j) :
    i = j := by
  rw [fetch_flatMap l after before i rest hl] at h
  split at h
  · exact Except.ok.inj h
  · cases h

/-- An operand is zero if its bytes are. -/
theorem ofNat_eq_zero_iff {a b c d : UInt8} :
    Int32.ofNat (LittleEndian.toNat [a, b, c, d]) = 0 ↔
    LittleEndian.toNat [a, b, c, d] = 0 := by
  have hsmall : LittleEndian.toNat [a, b, c, d] < 2 ^ 32 := by
    have := a.toNat_lt
    have := b.toNat_lt
    have := c.toNat_lt
    have := d.toNat_lt
    simp only [LittleEndian.toNat]
    omega
  generalize LittleEndian.toNat [a, b, c, d] = n at hsmall
  constructor
  · intro h
    have hword : (UInt32.ofNat n).toNat = 0 := congrArg (fun x : Int32 => x.toUInt32.toNat) h
    rwa [UInt32.toNat_ofNat_of_lt' hsmall] at hword
  · rintro rfl
    rfl

end Bytecode

namespace LockCode

open Bytecode (fetch insnWidth)

/-- Looking at single bytes is as good as reading the first two instructions. -/
theorem classify_eq_iff (code : LockCode) (value : Bool) :
    code.classify = .ofVerdict value ↔ code.Constant value := by
  constructor
  · intro h
    unfold classify at h
    split at h
    · cases value with
      | true => exact .opened
      | false => cases h
    · split at h
      · rename_i a b c d e f g k after
        have hload : fetch (4 :: a :: b :: c :: d :: 0 :: e :: f :: g :: k :: after) 0 =
            .ok ⟨.loadResult, Int32.ofNat (LittleEndian.toNat [a, b, c, d])⟩ := by
          rw [fetch, if_neg (by simp only [List.length_cons, insnWidth]; omega)]
          rfl
        have hret : fetch (4 :: a :: b :: c :: d :: 0 :: e :: f :: g :: k :: after) insnWidth =
            .ok ⟨.ret, Int32.ofNat (LittleEndian.toNat [e, f, g, k])⟩ := by
          rw [fetch, if_neg (by simp only [List.length_cons, insnWidth]; omega)]
          rfl
        have hconstant := Constant.code hload hret
        split at h
        · rename_i hzero
          rw [hzero] at hconstant
          cases value with
          | true => cases h
          | false => exact hconstant
        · rename_i hzero
          rw [bne_iff_ne.2 (mt Bytecode.ofNat_eq_zero_iff.1 hzero)] at hconstant
          cases value with
          | true => exact hconstant
          | false => cases h
      · cases value with
        | true => cases h
        | false => cases h
  · intro h
    cases h with
    | opened => rfl
    | @code bytes arg arg' load ret =>
      obtain ⟨a, b, c, d, after, hbytes, rfl⟩ := Bytecode.fetch_eq_ok load
      obtain ⟨e, f, g, k, after', hafter, -⟩ := Bytecode.fetch_eq_ok ret
      rw [List.drop_zero] at hbytes
      rw [hbytes] at hafter ⊢
      cases hafter
      change (if LittleEndian.toNat [a, b, c, d] = 0 then LockClass.locked else .unlocked) = _
      by_cases hzero : LittleEndian.toNat [a, b, c, d] = 0
      · rw [if_pos hzero, hzero]
        rfl
      · rw [if_neg hzero, bne_iff_ne.2 (mt Bytecode.ofNat_eq_zero_iff.1 hzero)]
        rfl

theorem Constant.unique {code : LockCode} {value value' : Bool} (h : code.Constant value)
    (h' : code.Constant value') : value = value' := by
  have hinj : ∀ a b : Bool, LockClass.ofVerdict a = .ofVerdict b → a = b := by decide
  exact hinj value value'
    (((classify_eq_iff code value).2 h).symm.trans ((classify_eq_iff code value').2 h'))

/-- Of constant code nothing but the constant comes, and nothing else happens. -/
theorem Constant.evaluate {code : LockCode} {value : Bool} (h : code.Constant value)
    {m : Type → Type} [Monad m] [LawfulMonad m] (v : Machine m) (subject target : Dbref) :
    v.evaluate code subject target = pure value := by
  cases h with
  | opened =>
    rw [Machine.evaluate, v.run_none, pure_bind]
  | code load ret =>
    rw [Machine.evaluate, v.run_some, Machine.runCode, v.verdictFrom_of_fetch load]
    simp only [Machine.execute, pure_bind, Machine.resume, Nat.zero_add]
    rw [v.verdictFrom_of_fetch ret]
    simp only [Machine.execute, pure_bind, Machine.resume]

end LockCode

namespace Assembly

/-- The opcodes that become code. -/
def ops (code : List Insn) : List Opcode := (code.map (·.op)).filter (· != .label)

theorem ops_append (xs ys : List Insn) : ops (xs ++ ys) = ops xs ++ ops ys := by
  rw [ops, List.map_append, List.filter_append]
  rfl

theorem ops_listing (a : Assembly) : a.listing.map (·.op) = ops a.code := by
  rw [listing, List.map_map, ops, List.filter_map]
  exact List.map_congr_left fun i _ => a.op_resolve i

theorem ops_retarget (a : Assembly) (i : Nat) (l : Int32) :
    ops (a.retarget i l).code = ops a.code := by
  have hops (code : List Insn) (i : Nat) :
      (code.modify i fun j => { j with arg := l }).map (·.op) = code.map (·.op) := by
    induction code generalizing i with
    | nil => rw [List.modify_nil]
    | cons j code ih =>
      cases i with
      | zero => rfl
      | succ i => rw [List.modify_succ_cons, List.map_cons, List.map_cons, ih]
  rw [ops, retarget, hops]
  rfl

theorem ops_labelAfter (a : Assembly) (i : Nat) : ops (a.labelAfter i).code = ops a.code := by
  have hlabel (code : List Insn) :
      ops (⟨.label, Int32.ofNat a.labels⟩ :: code) = ops code := rfl
  rw [labelAfter, ops_append, hlabel, ← ops_append, List.take_append_drop]

theorem ops_follow (i steps : Nat) (a : Assembly) :
    ops (follow i steps a).code = ops a.code := by
  fun_induction follow i steps a with
  | case6 a steps jump _ next _ hit _ _ _ ih => rwa [ops_retarget] at ih
  | case7 a steps jump _ next _ hit _ _ _ ih => rwa [ops_retarget, ops_labelAfter] at ih
  | _ => rfl

/-- Threading changes no opcode, whatever the labels are. -/
theorem ops_threadJumps (a : Assembly) : ops a.threadJumps.code = ops a.code := by
  have hone (b : Assembly) (k : Nat) : ops (b.threadJump k).code = ops b.code := by
    unfold threadJump
    split
    · rfl
    · exact ops_follow ..
  unfold threadJumps
  generalize List.range a.jumpCount = ks
  induction ks generalizing a with
  | nil => rfl
  | cons k ks ih => rw [List.foldl_cons, ih, hone]

theorem ret_notMem_ops_write (key : Key) : .ret ∉ ops (write key [] 0).1 := by
  intro hret
  obtain ⟨i, hi, hop⟩ := List.mem_map.1 (List.mem_of_mem_filter hret)
  exact ((write_written key [] 0).ops i hi).1 hop

/-- Every key but a constant is written with an opcode that does something else than set the
result. -/
theorem exists_op_write (key : Key) (pool : List Bytes) (labels : Nat) :
    (∃ pos value, key = .bool pos value) ∨ ∃ op ∈ ops (write key pool labels).1,
      op ≠ .loadResult := by
  have hmem {op : Opcode} {arg : Int32} {code : List Insn} (hi : ⟨op, arg⟩ ∈ code)
      (hop : op ≠ .label ∧ op ≠ .loadResult) : ∃ op ∈ ops code, op ≠ .loadResult :=
    ⟨op, List.mem_filter.2 ⟨List.mem_map_of_mem hi, bne_iff_ne.2 hop.1⟩, hop.2⟩
  cases key with
  | and pos left right =>
    have hjump :
        ⟨.jumpFalse, Int32.ofNat labels⟩ ∈ (write (.and pos left right) pool labels).1 := by
      simp [write]
    exact .inr (hmem hjump (by decide))
  | or pos left right =>
    have hjump :
        ⟨.jumpTrue, Int32.ofNat labels⟩ ∈ (write (.or pos left right) pool labels).1 := by
      simp [write]
    exact .inr (hmem hjump (by decide))
  | not pos operand =>
    have hnegate : ⟨.negate, 0⟩ ∈ (write (.not pos operand) pool labels).1 := by simp [write]
    exact .inr (hmem hnegate (by decide))
  | bool pos value => exact .inl ⟨pos, value, rfl⟩
  | _ => exact .inr (hmem List.mem_cons_self (by decide))

end Assembly

namespace Lock

open Assembly (ops write)

/-- A key with constant code is a constant itself. -/
theorem eq_bool_of_constant {key : Key} {code : LockCode} {value : Bool}
    (h : Lock.ofKey (some key) = .ok code) (hconstant : code.Constant value) :
    ∃ pos value, key = .bool pos value := by
  rcases ha : Assembly.ofKey (some key) with d | a
  · rw [Lock.ofKey, ha] at h
    cases h
  rw [Lock.ofKey, ha] at h
  cases h
  change LockCode.Constant a.threadJumps.emit value at hconstant
  rw [Assembly.emit_ofKey ha] at hconstant
  have hops : a.threadJumps.listing.map (·.op) = ops (write key [] 0).1 ++ [.ret] := by
    rw [Assembly.ops_listing, Assembly.ops_threadJumps, (Assembly.ofKey_eq_ok ha).2,
      Assembly.ops_append]
    rfl
  have hret := Assembly.ret_notMem_ops_write key
  rcases Assembly.exists_op_write key [] 0 with hbool | ⟨op, hop, hne⟩
  · exact hbool
  generalize ops (write key [] 0).1 = own at hops hret hop
  generalize a.threadJumps = b at hconstant hops
  cases hconstant with
  | @code _ arg arg' hload hend =>
    -- the first opcode is one of the key's own; if the second ends the run, there are no others
    obtain _ | ⟨first, own⟩ := own
    · cases hop
    rcases hlisting : b.listing with _ | ⟨i, _ | ⟨j, rest⟩⟩
    · rw [hlisting] at hops
      cases hops
    · rw [hlisting] at hops
      cases own with
      | nil => cases hops
      | cons => cases hops
    · rw [hlisting, Bytecode.eq_of_fetch_flatMap [] hlisting hload,
        Bytecode.eq_of_fetch_flatMap [i] hlisting hend] at hops
      obtain ⟨rfl, htail⟩ := List.cons.inj hops
      obtain _ | ⟨second, own⟩ := own
      · exact absurd (List.mem_singleton.1 hop) hne
      · obtain ⟨rfl, -⟩ := List.cons.inj htail
        exact absurd (List.mem_cons_of_mem _ List.mem_cons_self) hret

/-- Only open locks and constants alone have constant code. -/
theorem constant_iff {key : Option Key} {code : LockCode} (h : Lock.ofKey key = .ok code)
    {value : Bool} :
    code.Constant value ↔ key = none ∧ value = true ∨ ∃ pos, key = some (.bool pos value) := by
  have hbool (pos : Nat) (value : Bool) :
      ∃ code, Lock.ofKey (some (.bool pos value)) = .ok code ∧
      code.Constant value := by
    cases value with
    | true => exact ⟨_, rfl, @LockCode.Constant.code _ 1 0 rfl rfl⟩
    | false => exact ⟨_, rfl, @LockCode.Constant.code _ 0 0 rfl rfl⟩
  rcases key with _ | key
  · cases h
    constructor
    · intro hconstant
      cases hconstant
      exact .inl ⟨rfl, rfl⟩
    · rintro (⟨-, rfl⟩ | ⟨pos, hkey⟩)
      · exact .opened
      · cases hkey
  · constructor
    · intro hconstant
      obtain ⟨pos, value', rfl⟩ := eq_bool_of_constant h hconstant
      obtain ⟨code', hcode, hconstant'⟩ := hbool pos value'
      cases hcode.symm.trans h
      rw [hconstant.unique hconstant']
      exact .inr ⟨pos, rfl⟩
    · rintro (⟨hnone, -⟩ | ⟨pos, hkey⟩)
      · cases hnone
      · cases hkey
        obtain ⟨code', hcode, hconstant⟩ := hbool pos value
        cases hcode.symm.trans h
        exact hconstant

/-- Whatever some code is, a lock that is called constant is: in every world everybody passes
it, or nobody. A lock that was made from a key is called so just if there is no key or the key
is a constant alone. -/
theorem classification_exact :
    (∀ (code : LockCode) (m : Type → Type) [Monad m] [LawfulMonad m] (v : Machine m)
        (subject target : Dbref),
      (code.classify = .unlocked → v.evaluate code subject target = pure true) ∧
      (code.classify = .locked → v.evaluate code subject target = pure false)) ∧
    ∀ (key : Option Key) (code : LockCode), Lock.ofKey key = .ok code →
      (code.classify = .unlocked ↔ key = none ∨ ∃ pos, key = some (.bool pos true)) ∧
      (code.classify = .locked ↔ ∃ pos, key = some (.bool pos false)) ∧
      (code.classify = .conditional ↔
        key ≠ none ∧ ∀ pos value, key ≠ some (.bool pos value)) := by
  have hunlocked (code : LockCode) : code.classify = .unlocked ↔ code.Constant true :=
    code.classify_eq_iff true
  have hlocked (code : LockCode) : code.classify = .locked ↔ code.Constant false :=
    code.classify_eq_iff false
  refine ⟨fun code m _ _ v subject target => ⟨?_, ?_⟩, fun key code h => ?_⟩
  · exact fun hclass => ((hunlocked code).1 hclass).evaluate v subject target
  · exact fun hclass => ((hlocked code).1 hclass).evaluate v subject target
  · have hopen :
        code.classify = .unlocked ↔ key = none ∨ ∃ pos, key = some (.bool pos true) := by
      rw [hunlocked, constant_iff h, and_iff_left rfl]
    have hclosed : code.classify = .locked ↔ ∃ pos, key = some (.bool pos false) := by
      rw [hlocked, constant_iff h, or_iff_right fun hnone => Bool.false_ne_true hnone.2]
    refine ⟨hopen, hclosed, ?_⟩
    have hother :
        code.classify = .conditional ↔
        ¬code.classify = .unlocked ∧ ¬code.classify = .locked := by
      cases code.classify with
      | unlocked | locked | conditional => decide
    rw [hother, hopen, hclosed, not_or, not_exists, not_exists]
    constructor
    · rintro ⟨⟨hsome, htrue⟩, hfalse⟩
      refine ⟨hsome, fun pos value => ?_⟩
      cases value with
      | true => exact htrue pos
      | false => exact hfalse pos
    · rintro ⟨hsome, hvaried⟩
      exact ⟨⟨hsome, fun pos => hvaried pos true⟩, fun pos => hvaried pos false⟩

/-- Code that ends at once, with an operand to spare and bytes behind it. -/
def ragged : Bytes := [4, 0, 7, 0, 0, 0, 9, 9, 9, 9, 255]

theorem classification_exact_ragged :
    LockCode.classify (some ragged) = .unlocked ∧
      Machine.evaluate ⟨World.nowhere, .standard, 0⟩ (some ragged) 1 2 = pure true ∧
      ∃ code, Lock.ofKey (some (.not 0 (.bool 1 false))) = .ok code ∧
        code.classify = .conditional := by
  obtain ⟨hsound, hexact⟩ := classification_exact
  have hragged : LockCode.classify (some ragged) = .unlocked := by decide
  refine ⟨hragged, (hsound (some ragged) Id _ 1 2).1 hragged, _, rfl, ?_⟩
  exact (hexact (some (.not 0 (.bool 1 false))) _ rfl).2.2.2
    ⟨Option.some_ne_none _, fun pos value hkey => Key.noConfusion (Option.some.inj hkey)⟩

end Lock
end Locksmith
