import Locksmith.Proofs.Lock.RoundTrip
import Locksmith.Proofs.Machine.EmittedCode

namespace Locksmith

def Insn.ofLeaf (i : Insn) : Bool := i.op.isTest || i.op == .loadText

namespace Key

def leaves : Key → List Key
  | .and _ left right | .or _ left right => left.leaves ++ right.leaves
  | .not _ operand => operand.leaves
  | leaf => [leaf]

def curtail : Key → Key
  | .and pos left right => .and pos left.curtail right.curtail
  | .or pos left right => .or pos left.curtail right.curtail
  | .not pos operand => .not pos operand.curtail
  | .indirect pos d lock => .indirect pos d lock.upToZero
  | .attr pos name pattern => .attr pos name.upToZero pattern.upToZero
  | .eval pos name pattern => .eval pos name.upToZero pattern.upToZero
  | .flagClass pos name pattern => .flagClass pos name.upToZero pattern.upToZero
  | leaf => leaf

/-- The instructions test the key, which has no operators. -/
inductive Stands (texts : Int32 → Except Fault Bytes) : Key → List Insn → Prop
  | const (pos : Nat) (arg : Int32) :
      Stands texts (.const pos (Machine.operandObject arg)) [⟨.testConst, arg⟩]
  | is (pos : Nat) (arg : Int32) :
      Stands texts (.is pos (Machine.operandObject arg)) [⟨.testIs, arg⟩]
  | carry (pos : Nat) (arg : Int32) :
      Stands texts (.carry pos (Machine.operandObject arg)) [⟨.testCarry, arg⟩]
  | owner (pos : Nat) (arg : Int32) :
      Stands texts (.owner pos (Machine.operandObject arg)) [⟨.testOwner, arg⟩]
  | indirect (pos : Nat) (arg : Int32) {i : Int32} {lock : Bytes} (hlock : texts i = .ok lock) :
      Stands texts (.indirect pos (Machine.operandObject arg) lock)
        [⟨.loadText, i⟩, ⟨.testIndirect, arg⟩]
  | attr (pos : Nat) {i j : Int32} {name pattern : Bytes} (hname : texts i = .ok name)
      (hpattern : texts j = .ok pattern) :
      Stands texts (.attr pos name pattern) [⟨.loadText, i⟩, ⟨.testAttr, j⟩]
  | eval (pos : Nat) {i j : Int32} {name pattern : Bytes} (hname : texts i = .ok name)
      (hpattern : texts j = .ok pattern) :
      Stands texts (.eval pos name pattern) [⟨.loadText, i⟩, ⟨.testEval, j⟩]
  | flagClass (pos : Nat) {i j : Int32} {name pattern : Bytes} (hname : texts i = .ok name)
      (hpattern : texts j = .ok pattern) :
      Stands texts (.flagClass pos name pattern) [⟨.loadText, i⟩, ⟨.testClass, j⟩]
  | bool (pos : Nat) (arg : Int32) : Stands texts (.bool pos (arg != 0)) [⟨.loadResult, arg⟩]

theorem texts_leaves (key : Key) : key.leaves.flatMap texts = key.texts := by
  induction key with
  | and pos left right ihl ihr => rw [leaves, List.flatMap_append, ihl, ihr, texts]
  | or pos left right ihl ihr => rw [leaves, List.flatMap_append, ihl, ihr, texts]
  | not pos operand ih => exact ih
  | _ => exact List.append_nil _

theorem leaves_curtail (key : Key) : key.curtail.leaves = key.leaves.map curtail := by
  induction key with
  | and pos left right ihl ihr => rw [curtail, leaves, leaves, List.map_append, ihl, ihr]
  | or pos left right ihl ihr => rw [curtail, leaves, leaves, List.map_append, ihl, ihr]
  | not pos operand ih => exact ih
  | _ => rfl

theorem texts_curtail (key : Key) : key.curtail.texts = key.texts.map Bytes.upToZero := by
  induction key with
  | and pos left right ihl ihr => rw [curtail, texts, texts, List.map_append, ihl, ihr]
  | or pos left right ihl ihr => rw [curtail, texts, texts, List.map_append, ihl, ihr]
  | not pos operand ih => exact ih
  | _ => rfl

theorem curtail_eq_self {key : Key} (h : ∀ s ∈ key.texts, 0 ∉ s) : key.curtail = key := by
  have hkept {s : Bytes} (hs : s ∈ key.texts) : s.upToZero = s :=
    Bytes.upToZero_eq_self.2 (h s hs)
  induction key with
  | and pos left right ihl ihr =>
    have hl := List.forall_mem_append.1 h
    rw [curtail, ihl hl.1 fun hs => hkept (List.mem_append_left _ hs),
      ihr hl.2 fun hs => hkept (List.mem_append_right _ hs)]
  | or pos left right ihl ihr =>
    have hl := List.forall_mem_append.1 h
    rw [curtail, ihl hl.1 fun hs => hkept (List.mem_append_left _ hs),
      ihr hl.2 fun hs => hkept (List.mem_append_right _ hs)]
  | not pos operand ih => rw [curtail, ih h hkept]
  | indirect pos d lock => rw [curtail, hkept (List.mem_singleton_self lock)]
  | attr pos name pattern => rw [curtail, hkept (by simp [texts]), hkept (by simp [texts])]
  | eval pos name pattern => rw [curtail, hkept (by simp [texts]), hkept (by simp [texts])]
  | flagClass pos name pattern => rw [curtail, hkept (by simp [texts]), hkept (by simp [texts])]
  | _ => rfl

/-- Instructions do not test keys with different texts. -/
theorem Stands.texts_eq {texts : Int32 → Except Fault Bytes} {leaf leaf' : Key}
    {piece : List Insn} (h : Stands texts leaf piece) (h' : Stands texts leaf' piece) :
    leaf.texts = leaf'.texts := by
  have hsame {k : Int32} {s t : Bytes} (hs : texts k = .ok s) (ht : texts k = .ok t) : s = t :=
    Except.ok.inj (hs.symm.trans ht)
  cases h with
  | indirect pos arg hlock =>
    cases h' with
    | indirect pos' arg' hlock' => rw [Key.texts, Key.texts, hsame hlock hlock']
  | attr pos hname hpattern =>
    cases h' with
    | attr pos' hname' hpattern' =>
      rw [Key.texts, Key.texts, hsame hname hname', hsame hpattern hpattern']
  | eval pos hname hpattern =>
    cases h' with
    | eval pos' hname' hpattern' =>
      rw [Key.texts, Key.texts, hsame hname hname', hsame hpattern hpattern']
  | flagClass pos hname hpattern =>
    cases h' with
    | flagClass pos' hname' hpattern' =>
      rw [Key.texts, Key.texts, hsame hname hname', hsame hpattern hpattern']
  | _ =>
    cases h'
    rfl

theorem Stands.ofLeaf {texts : Int32 → Except Fault Bytes} {leaf : Key} {piece : List Insn}
    (h : Stands texts leaf piece) : piece.filter (·.ofLeaf) = piece := by
  cases h <;> rfl

end Key

namespace Assembly

open Decompile (blank shown)

variable {offset : Int32 → Int32} {texts : Int32 → Except Fault Bytes}

def leafCode (offset : Int32 → Int32) (code : List Insn) : List Insn :=
  (shown offset code).filter (·.ofLeaf)

theorem leafCode_append (xs ys : List Insn) :
    leafCode offset (xs ++ ys) = leafCode offset xs ++ leafCode offset ys := by
  rw [leafCode, Decompile.shown_append, List.filter_append]
  rfl

theorem leafCode_grouped (mark : Bool) (code : List Insn) :
    leafCode offset (grouped mark code) = leafCode offset code := by
  cases mark with
  | false => rfl
  | true =>
    rw [grouped, if_pos rfl, leafCode_append]
    exact List.append_nil _

theorem leafCode_branch {op : Opcode} (hop : op.isJump = true) (xs ys : List Insn) (l : Int32) :
    leafCode offset (xs ++ ⟨op, l⟩ :: ys ++ [⟨.label, l⟩]) =
      leafCode offset xs ++ leafCode offset ys := by
  rw [leafCode_append, leafCode_append]
  rcases isJump_iff.1 hop with rfl | rfl
  · exact List.append_nil _
  · exact List.append_nil _

theorem blank_ofLeaf (l : List Insn) :
    (l.map blank).filter (·.ofLeaf) = l.filter (·.ofLeaf) := by
  induction l with
  | nil => rfl
  | cons i l ih =>
    obtain ⟨op, arg⟩ := i
    rw [List.map_cons, List.filter_cons, List.filter_cons, ih]
    cases op <;> rfl

open Machine (Reads) in
theorem reads_upToZero {pool : List Bytes} {s : Bytes}
    (h : Reads texts ((addText pool s).1.map Bytes.upToZero)) :
    texts (addText pool s).2 = .ok s.upToZero := by
  obtain ⟨-, k, hk, he⟩ := addText_spec pool s
  rw [he]
  exact h k s.upToZero (by rw [List.getElem?_map, hk]; rfl)

theorem exists_piece {leaf : Key} {code : List Insn} (hleaves : leaf.leaves = [leaf])
    (h : leaf.curtail.Stands texts (shown offset code)) :
    ∃ pieces, leafCode offset code = pieces.flatten ∧
      List.Forall₂ (Key.Stands texts) (leaf.leaves.map Key.curtail) pieces := by
  refine ⟨[shown offset code], ?_, ?_⟩
  · rw [leafCode, h.ofLeaf]
    exact (List.append_nil _).symm
  · rw [hleaves]
    exact .cons h .nil

/-- The code written for a key has the leaves of the key in their order. -/
theorem exists_pieces_write (key : Key) (pool : List Bytes) (labels : Nat)
    (hr :
      Machine.Reads (fun k => texts (offset k))
        ((write key pool labels).2.1.map Bytes.upToZero))
    (hd : ∀ d ∈ objects key, d.fitsOperand = true) :
    ∃ pieces, leafCode offset (write key pool labels).1 = pieces.flatten ∧
      List.Forall₂ (Key.Stands texts) (key.leaves.map Key.curtail) pieces := by
  have hobject {d : Dbref} (h : d ∈ objects key) : Machine.operandObject (objectArg d) = d :=
    Machine.operandObject_objectArg (hd d h)
  have hbranch {op : Opcode} (hop : op.isJump = true) {xs ys : List Insn} {left right : Key}
      (l : Int32) (hl : ∃ pieces, leafCode offset xs = pieces.flatten ∧
        List.Forall₂ (Key.Stands texts) (left.leaves.map Key.curtail) pieces)
      (hr : ∃ pieces, leafCode offset ys = pieces.flatten ∧
        List.Forall₂ (Key.Stands texts) (right.leaves.map Key.curtail) pieces) :
      ∃ pieces, leafCode offset (xs ++ ⟨op, l⟩ :: ys ++ [⟨.label, l⟩]) = pieces.flatten ∧
        List.Forall₂ (Key.Stands texts) ((left.leaves ++ right.leaves).map Key.curtail)
          pieces := by
    obtain ⟨before, hbefore, hleft⟩ := hl
    obtain ⟨after, hafter, hright⟩ := hr
    refine ⟨before ++ after, ?_, ?_⟩
    · rw [leafCode_branch hop, hbefore, hafter, List.flatten_append]
    · rw [List.map_append]
      exact List.rel_append hleft hright
  have hpair {name pattern : Bytes} {pool : List Bytes}
      (h : Machine.Reads (fun k => texts (offset k))
        ((addText (addText pool name).1 pattern).1.map Bytes.upToZero)) :
      texts (offset (addText pool name).2) = .ok name.upToZero ∧
        texts (offset (addText (addText pool name).1 pattern).2) = .ok pattern.upToZero :=
    ⟨reads_upToZero (h.mono ((addText_spec _ pattern).1.map _)), reads_upToZero h⟩
  induction key generalizing pool labels with
  | and pos left right ihl ihr =>
    have hleft := ihl pool (labels + 1) (hr.mono ((pool_prefix_write right _ _).map _))
      (fun d hm => hd d (List.mem_append_left _ hm))
      (fun hm => hobject (List.mem_append_left _ hm))
    have hright := ihr _ _ hr (fun d hm => hd d (List.mem_append_right _ hm))
      (fun hm => hobject (List.mem_append_right _ hm))
    rw [← leafCode_grouped left.isOr] at hleft
    rw [← leafCode_grouped right.isOr] at hright
    exact hbranch rfl _ hleft hright
  | or pos left right ihl ihr =>
    have hleft := ihl pool (labels + 1) (hr.mono ((pool_prefix_write right _ _).map _))
      (fun d hm => hd d (List.mem_append_left _ hm))
      (fun hm => hobject (List.mem_append_left _ hm))
    have hright := ihr _ _ hr (fun d hm => hd d (List.mem_append_right _ hm))
      (fun hm => hobject (List.mem_append_right _ hm))
    exact hbranch rfl _ hleft hright
  | not pos operand ih =>
    obtain ⟨pieces, hpieces, hleaves⟩ := ih pool labels hr hd hobject
    refine ⟨pieces, ?_, hleaves⟩
    rw [write, leafCode_append, leafCode_grouped, hpieces]
    exact List.append_nil _
  | const pos d =>
    have hstands : Key.Stands texts _ _ := .const pos (objectArg d)
    rw [hobject (List.mem_singleton_self d)] at hstands
    exact exists_piece rfl hstands
  | is pos d =>
    have hstands : Key.Stands texts _ _ := .is pos (objectArg d)
    rw [hobject (List.mem_singleton_self d)] at hstands
    exact exists_piece rfl hstands
  | carry pos d =>
    have hstands : Key.Stands texts _ _ := .carry pos (objectArg d)
    rw [hobject (List.mem_singleton_self d)] at hstands
    exact exists_piece rfl hstands
  | owner pos d =>
    have hstands : Key.Stands texts _ _ := .owner pos (objectArg d)
    rw [hobject (List.mem_singleton_self d)] at hstands
    exact exists_piece rfl hstands
  | indirect pos d lock =>
    have hlock : texts (offset (addText pool lock).2) = .ok lock.upToZero := reads_upToZero hr
    have hstands := Key.Stands.indirect pos (objectArg d) hlock
    rw [hobject (List.mem_singleton_self d)] at hstands
    exact exists_piece rfl hstands
  | attr pos name pattern => exact exists_piece rfl (.attr pos (hpair hr).1 (hpair hr).2)
  | eval pos name pattern => exact exists_piece rfl (.eval pos (hpair hr).1 (hpair hr).2)
  | flagClass pos name pattern =>
    exact exists_piece rfl (.flagClass pos (hpair hr).1 (hpair hr).2)
  | bool pos value =>
    refine exists_piece rfl ?_
    cases value with
    | false => exact .bool pos 0
    | true => exact .bool pos 1

theorem exists_pieces {key : Key} {a : Assembly} (h : ofKey (some key) = .ok a)
    (hsize : a.threadJumps.bytes.length < 2 ^ 31) :
    ∃ pieces, a.threadJumps.listing.filter (·.ofLeaf) = pieces.flatten ∧
      List.Forall₂ (Key.Stands (Bytecode.textAt a.threadJumps.bytes))
        (key.leaves.map Key.curtail) pieces := by
  have hpool : a.threadJumps.pool = (write key [] 0).2.1 := by
    rw [(insnCount_threadJumps a).2, (ofKey_eq_ok h).2]
  have hr : Machine.Reads
      (fun k => Bytecode.textAt a.threadJumps.bytes (a.threadJumps.textOffset k))
      ((write key [] 0).2.1.map Bytes.upToZero) := by
    intro k s hk
    rw [List.getElem?_map] at hk
    obtain ⟨t, ht, rfl⟩ := Option.map_eq_some_iff.1 hk
    exact textAt_bytes_upToZero (by rwa [hpool]) hsize
  obtain ⟨hw, hl⟩ := ofKey_wellFormed h (length_bytes_threadJumps a ▸ hsize)
  have houtline := (threadJumps_threaded hw hl).1.outline
  obtain ⟨hd, rfl⟩ := ofKey_eq_ok h
  obtain ⟨pieces, hpieces, hleaves⟩ := exists_pieces_write key [] 0 hr hd
  refine ⟨pieces, ?_, hleaves⟩
  rw [← blank_ofLeaf, listing, Decompile.blank_resolve, shown, houtline, outline_append,
    List.map_append, List.filter_append, ← hpieces]
  exact List.append_nil _

end Assembly

namespace Key

/-- A text is read back whole just if it has no zero byte. -/
theorem forall₂_stands_iff {texts : Int32 → Except Fault Bytes} {key : Key}
    {pieces : List (List Insn)}
    (h : List.Forall₂ (Stands texts) (key.leaves.map curtail) pieces) :
    List.Forall₂ (Stands texts) key.leaves pieces ↔ ∀ s ∈ key.texts, 0 ∉ s := by
  rw [← texts_leaves]
  generalize key.leaves = leaves at h ⊢
  induction leaves generalizing pieces with
  | nil =>
    cases h
    exact ⟨fun _ => List.forall_mem_nil _, fun _ => .nil⟩
  | cons leaf leaves ih =>
    cases h with
    | @cons _ piece _ rest hleaf hrest =>
      rw [List.forall₂_cons, ih hrest, List.flatMap_cons, List.forall_mem_append]
      refine and_congr_left fun _ => ⟨fun hstands => ?_, fun hnone => ?_⟩
      · have htexts := hstands.texts_eq hleaf
        rw [texts_curtail] at htexts
        intro s hs
        rw [← List.map_id leaf.texts, List.map_map, List.map_inj_left] at htexts
        exact Bytes.upToZero_eq_self.1 (htexts s hs).symm
      · rwa [curtail_eq_self hnone] at hleaf

end Key

namespace Lock

theorem ofKey_eq_ok {key : Key} {lock : LockCode} (h : ofKey (some key) = .ok lock) :
    ∃ a, Assembly.ofKey (some key) = .ok a ∧ lock = some a.threadJumps.bytes := by
  rw [ofKey] at h
  cases ha : Assembly.ofKey (some key) with
  | error d =>
    rw [ha] at h
    cases h
  | ok a =>
    rw [ha] at h
    cases h
    exact ⟨a, rfl, Assembly.emit_ofKey ha⟩

theorem exists_leaves {key : Key} {lock : LockCode} (h : ofKey (some key) = .ok lock)
    (hsize : lock.size < 2 ^ 31) :
    ∃ code insns pool pieces, lock = some code ∧ Bytecode.WellFormed code insns pool ∧
      insns.filter (·.ofLeaf) = pieces.flatten ∧
      List.Forall₂ (Key.Stands (Bytecode.textAt code)) (key.leaves.map Key.curtail) pieces := by
  obtain ⟨a, ha, rfl⟩ := ofKey_eq_ok h
  obtain ⟨hw, hlabels⟩ :=
    Assembly.ofKey_wellFormed ha (Assembly.length_bytes_threadJumps a ▸ hsize)
  obtain ⟨ht, hw'⟩ := Assembly.threadJumps_threaded hw hlabels
  obtain ⟨pieces, hpieces, hleaves⟩ := Assembly.exists_pieces ha hsize
  exact ⟨_, _, _, pieces, rfl, ht.wellFormed_bytes (Assembly.ofKey_complete ha) hw' hsize,
    hpieces, hleaves⟩

/-- What becomes of the texts of a lock. In the code of a text that is accepted the leaves of
its key stand one after another, each with the object that it had and with its texts up to their
first zero bytes. So what is read there is what the key has just if no name, pattern or class of
it has a zero byte. -/
theorem texts_in_code {ctx : ParseContext} {source : Bytes} {lock : LockCode}
    (h : compileWith ctx source = .ok lock) (hsize : lock.size < 2 ^ 31) :
    (Key.parse ctx source = .ok none ∧ lock = none) ∨
      ∃ key code insns pieces, Key.parse ctx source = .ok (some key) ∧ lock = some code ∧
        Bytecode.instructions code = .ok insns ∧ insns.filter (·.ofLeaf) = pieces.flatten ∧
        List.Forall₂ (Key.Stands (Bytecode.textAt code)) (key.leaves.map Key.curtail) pieces ∧
        (List.Forall₂ (Key.Stands (Bytecode.textAt code)) key.leaves pieces ↔
          ∀ s ∈ key.texts, 0 ∉ s) := by
  obtain ⟨key, hparse, hkey⟩ := compileWith_eq_ok h
  cases key with
  | none =>
    cases hkey
    exact .inl ⟨hparse, rfl⟩
  | some key =>
    obtain ⟨code, insns, pool, pieces, rfl, hcode, hpieces, hleaves⟩ := exists_leaves hkey hsize
    exact .inr ⟨key, code, insns, pieces, hparse, rfl, hcode.read, hpieces, hleaves,
      Key.forall₂_stands_iff hleaves⟩

/-- The text `A:b`, a zero byte and `c`. -/
def zeroed : Bytes := [65, 58, 98, 0, 99]

def zeroedCode : Bytes := [3, 15, 0, 0, 0, 13, 17, 0, 0, 0, 0, 0, 0, 0, 0, 65, 0, 98, 0, 99, 0]

theorem parse_zeroed (lockType : Bytes) :
    Key.parse (Compiler.standard.loadContext lockType) zeroed =
      .ok (some (.attr 0 [65] [98, 0, 99])) := by
  have hread : Parser.readOr (Compiler.standard.loadContext lockType) ⟨0, zeroed, []⟩ =
      .ok (.attr 0 [65] [98, 0, 99], ⟨5, [], []⟩) := by
    rw [Parser.readOr, Parser.outcome_parseOr, Parser.outcome_parseAnd, Parser.outcome_parseNot]
    rfl
  exact Parser.parse_of_outcome rfl hread rfl

theorem compileLoad_zeroed (lockType : Bytes) :
    Compiler.standard.compileLoad zeroed lockType = .ok (some zeroedCode) :=
  Compiler.standard.compileLoad_eq (parse_zeroed lockType) rfl

/-- A pattern with a zero byte is cut short there. -/
theorem pattern_not_whole :
    Key.parse (Compiler.standard.loadContext []) zeroed =
      .ok (some (.attr 0 [65] [98, 0, 99])) ∧
    Compiler.standard.compileLoad zeroed [] = .ok (some zeroedCode) ∧
    zeroedCode.length < 2 ^ 31 ∧
    Bytecode.instructions zeroedCode = .ok [⟨.loadText, 15⟩, ⟨.testAttr, 17⟩, ⟨.ret, 0⟩] ∧
    Bytecode.textAt zeroedCode 17 = .ok [98] := by
  refine ⟨parse_zeroed [], compileLoad_zeroed [], by decide, ?_, by decide⟩
  cbv

theorem texts_in_code_zeroed :
    Compiler.standard.compileLoad zeroed [] = .ok (some zeroedCode) ∧
    LockCode.size (some zeroedCode) < 2 ^ 31 ∧
      ∃ key insns pieces, Key.parse (Compiler.standard.loadContext []) zeroed = .ok (some key) ∧
        Bytecode.instructions zeroedCode = .ok insns ∧
        insns.filter (·.ofLeaf) = pieces.flatten ∧
        List.Forall₂ (Key.Stands (Bytecode.textAt zeroedCode))
          (key.leaves.map Key.curtail) pieces ∧
        (List.Forall₂ (Key.Stands (Bytecode.textAt zeroedCode)) key.leaves pieces ↔
          ∀ s ∈ key.texts, 0 ∉ s) := by
  have hsize : LockCode.size (some zeroedCode) < 2 ^ 31 := by decide
  refine ⟨compileLoad_zeroed [], hsize, ?_⟩
  rcases texts_in_code (compileLoad_zeroed []) hsize with
    ⟨-, hnone⟩ | ⟨key, code, insns, pieces, hparse, hcode, hrest⟩
  · cases hnone
  · cases hcode
    exact ⟨key, insns, pieces, hparse, hrest⟩

end Lock
end Locksmith
