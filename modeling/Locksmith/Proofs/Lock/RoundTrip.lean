import Locksmith.Proofs.Lock.ReadBack
import Locksmith.Proofs.Machine.Decompile

namespace Locksmith

namespace Key

structure Alike (a b : Key) : Prop where
  isOr : a.isOr = b.isOr
  isAnd : a.isAnd = b.isAnd
  texts : a.texts = b.texts
  objects : Assembly.objects a = Assembly.objects b
  size : a.size = b.size
  spell : a.spell = b.spell
  answer : ∀ (m : Type → Type) [Monad m] [LawfulMonad m] (v : Machine m)
    (nested : Dbref → LockCode → EvalState → m (Bool × EvalState)) (subject target : Dbref)
    (pc : Nat) (st : EvalState),
      v.answer nested subject target a pc st = v.answer nested subject target b pc st

namespace Alike

variable {a a' b b' c : Key}

theorem refl (a : Key) : Alike a a :=
  ⟨rfl, rfl, rfl, rfl, rfl, rfl, fun _ _ _ _ _ _ _ _ _ => rfl⟩

theorem symm (h : Alike a b) : Alike b a :=
  ⟨h.isOr.symm, h.isAnd.symm, h.texts.symm, h.objects.symm, h.size.symm, h.spell.symm,
    fun m _ _ v nested subject target pc st => (h.answer m v nested subject target pc st).symm⟩

theorem trans (h : Alike a b) (h' : Alike b c) : Alike a c :=
  ⟨h.isOr.trans h'.isOr, h.isAnd.trans h'.isAnd, h.texts.trans h'.texts,
    h.objects.trans h'.objects, h.size.trans h'.size, h.spell.trans h'.spell,
    fun m _ _ v nested subject target pc st =>
      (h.answer m v nested subject target pc st).trans
      (h'.answer m v nested subject target pc st)⟩

theorem and (ha : Alike a a') (hb : Alike b b') (p q : Nat) :
    Alike (.and p a b) (.and q a' b') := by
  refine ⟨rfl, rfl, ?_, ?_, ?_, ?_, ?_⟩
  · rw [Key.texts, Key.texts, ha.texts, hb.texts]
  · rw [Assembly.objects, Assembly.objects, ha.objects, hb.objects]
  · rw [Key.size, Key.size, ha.isOr, ha.size, hb.isOr, hb.size]
  · rw [Key.spell, Key.spell, ha.isOr, ha.spell, hb.isOr, hb.spell]
  · intro m _ _ v nested subject target pc st
    simp only [Machine.answer, ha.isOr, ha.size, hb.isOr, ha.answer m v, hb.answer m v]

theorem or (ha : Alike a a') (hb : Alike b b') (p q : Nat) :
    Alike (.or p a b) (.or q a' b') := by
  refine ⟨rfl, rfl, ?_, ?_, ?_, ?_, ?_⟩
  · rw [Key.texts, Key.texts, ha.texts, hb.texts]
  · rw [Assembly.objects, Assembly.objects, ha.objects, hb.objects]
  · rw [Key.size, Key.size, ha.size, hb.size]
  · rw [Key.spell, Key.spell, ha.spell, hb.spell]
  · intro m _ _ v nested subject target pc st
    simp only [Machine.answer, ha.size, ha.answer m v, hb.answer m v]

theorem not (ha : Alike a a') (p q : Nat) : Alike (.not p a) (.not q a') := by
  refine ⟨rfl, rfl, ha.texts, ha.objects, ?_, ?_, ?_⟩
  · rw [Key.size, Key.size, ha.isOr, ha.isAnd, ha.size]
  · rw [Key.spell, Key.spell, ha.isOr, ha.isAnd, ha.spell]
  · intro m _ _ v nested subject target pc st
    simp only [Machine.answer, ha.isOr, ha.isAnd, ha.answer m v]

theorem offset_add (pc x y w : Nat) :
    pc + (x + 1 + y + 1) * w = pc + (x + 1) * w + (y + 1) * w := by
  ring

theorem and_assoc (a b c : Key) (p q r s : Nat) :
    Alike (.and p (.and q a b) c) (.and r a (.and s b c)) := by
  have hor (p : Nat) (a b : Key) : (Key.and p a b).isOr = false := rfl
  have hgroup (n : Nat) : groupSize false n = n := rfl
  refine ⟨rfl, rfl, List.append_assoc .., List.append_assoc .., ?_, ?_, ?_⟩
  · simp only [Key.size, hor, hgroup]
    omega
  · simp only [Key.spell, hor, enclosed, Bool.false_eq_true, if_false, List.append_assoc,
      List.cons_append]
  · intro m _ _ v nested subject target pc st
    simp only [Machine.answer, hor, Key.size, hgroup, Bool.false_eq_true, if_false,
      Machine.andThen_assoc]
    refine congrArg (Machine.andThen _) (funext fun result => funext fun st => ?_)
    cases result with
    | false => simp [Machine.andThen_pure]
    | true =>
      simp only [if_true, offset_add]

theorem or_assoc (a b c : Key) (p q r s : Nat) :
    Alike (.or p (.or q a b) c) (.or r a (.or s b c)) := by
  refine ⟨rfl, rfl, List.append_assoc .., List.append_assoc .., ?_, ?_, ?_⟩
  · simp only [Key.size]
    omega
  · simp only [Key.spell, List.append_assoc, List.cons_append]
  · intro m _ _ v nested subject target pc st
    simp only [Machine.answer, Key.size, Machine.andThen_assoc]
    refine congrArg (Machine.andThen _) (funext fun result => funext fun st => ?_)
    cases result with
    | true => simp [Machine.andThen_pure]
    | false =>
      simp only [Bool.false_eq_true, if_false, offset_add]

theorem erase (a : Key) : Alike a.erase a := by
  induction a with
  | and pos left right ihl ihr => exact ihl.and ihr _ _
  | or pos left right ihl ihr => exact ihl.or ihr _ _
  | not pos operand ih => exact ih.not _ _
  | _ => exact ⟨rfl, rfl, rfl, rfl, rfl, rfl, fun _ _ _ _ _ _ _ _ _ => rfl⟩

theorem joinAnd (a b : Key) (p : Nat) : Alike (joinAnd a b) (.and p a b) := by
  induction a with
  | and pos left right _ ih =>
    exact ((refl left).and ih pos pos).trans (and_assoc left right b p pos pos p).symm
  | _ => exact (refl _).and (refl b) _ _

theorem joinOr (a b : Key) (p : Nat) : Alike (joinOr a b) (.or p a b) := by
  induction a with
  | or pos left right _ ih =>
    exact ((refl left).or ih pos pos).trans (or_assoc left right b p pos pos p).symm
  | _ => exact (refl _).or (refl b) _ _

theorem reassoc (a : Key) : Alike a.reassoc a := by
  induction a with
  | and pos left right ihl ihr => exact (joinAnd _ _ pos).trans (ihl.and ihr _ _)
  | or pos left right ihl ihr => exact (joinOr _ _ pos).trans (ihl.or ihr _ _)
  | not pos operand ih => exact ih.not _ _
  | _ => exact refl _

end Alike
end Key

namespace Assembly

theorem length_bytes_ofKey {key : Key} {a : Assembly} (h : ofKey (some key) = .ok a) :
    a.threadJumps.bytes.length = (key.size + 1) * Bytecode.insnWidth +
      ((key.texts.foldl (fun pool s => (addText pool s).1) []).flatMap (· ++ [0])).length := by
  obtain ⟨-, rfl⟩ := ofKey_eq_ok h
  rw [length_bytes_threadJumps, length_bytes, insnCount_append, (write_fragment key [] 0).size,
    pool_write]
  rfl

theorem exists_ofKey {key : Key} (h : ∀ d ∈ objects key, d.fitsOperand = true) :
    ∃ a, ofKey (some key) = .ok a := by
  have hnone : (objects key).find? (!·.fitsOperand) = none := by
    rw [List.find?_eq_none]
    intro d hd
    rw [h d hd]
    decide
  rw [ofKey, hnone]
  exact ⟨_, rfl⟩

end Assembly

theorem Key.Alike.length_bytes {key key' : Key} (h : Key.Alike key key') {a a' : Assembly}
    (ha : Assembly.ofKey (some key) = .ok a) (ha' : Assembly.ofKey (some key') = .ok a') :
    a.threadJumps.bytes.length = a'.threadJumps.bytes.length := by
  rw [Assembly.length_bytes_ofKey ha', ← h.texts, ← h.size, ← Assembly.length_bytes_ofKey ha]

/-- The code of keys that are alike does the same. -/
theorem Key.Alike.run_eq {key key' : Key} (h : Key.Alike key key') {a a' : Assembly}
    (ha : Assembly.ofKey (some key) = .ok a) (ha' : Assembly.ofKey (some key') = .ok a')
    (htexts : ∀ s ∈ key.texts, 0 ∉ s) (hsize : a.threadJumps.bytes.length < 2 ^ 31)
    {m : Type → Type} [Monad m] [LawfulMonad m] (v : Machine m) (subject target : Dbref)
    (st : EvalState) :
    v.run (some a'.threadJumps.bytes) subject target st =
      v.run (some a.threadJumps.bytes) subject target st := by
  have hsize' : a'.threadJumps.bytes.length < 2 ^ 31 := h.length_bytes ha ha' ▸ hsize
  rw [v.run_some, v.run_some, Machine.runCode, Machine.runCode,
    v.verdictFrom_ofKey ha htexts hsize, v.verdictFrom_ofKey ha' (h.texts ▸ htexts) hsize',
    h.answer m v]

namespace Lock

theorem compileWith_eq {ctx : ParseContext} {source : Bytes} {key : Key} {a : Assembly}
    (hparse : Key.parse ctx source = .ok (some key)) (ha : Assembly.ofKey (some key) = .ok a) :
    compileWith ctx source = .ok (some a.threadJumps.bytes) := by
  have hemit : ofKey (some key) = .ok (some a.threadJumps.bytes) := by
    rw [ofKey, ha]
    exact congrArg Except.ok (Assembly.emit_ofKey ha)
  rw [compileWith, hparse]
  simp only [hemit]

theorem compileWith_eq_ok {ctx : ParseContext} {source : Bytes} {code : LockCode}
    (h : compileWith ctx source = .ok code) :
    ∃ key, Key.parse ctx source = .ok key ∧ ofKey key = .ok code := by
  rw [compileWith] at h
  split at h
  · cases h
  · rename_i key hkey
    split at h
    · cases h
    · rename_i code' hcode
      cases h
      exact ⟨key, hkey, hcode⟩

end Lock

namespace Lock.Compiler

def loadContext (c : Compiler) (lockType : Bytes) : ParseContext :=
  ⟨none, some c.classes.contains, .nothing, lockType, true⟩

theorem compileLoad_eq (c : Compiler) {source lockType : Bytes} {key : Key} {a : Assembly}
    (hparse : Key.parse (c.loadContext lockType) source = .ok (some key))
    (ha : Assembly.ofKey (some key) = .ok a) :
    c.compileLoad source lockType = .ok (some a.threadJumps.bytes) :=
  compileWith_eq hparse ha

theorem compileLoad_eq_ok {c : Compiler} {source lockType : Bytes} {code : LockCode}
    (h : c.compileLoad source lockType = .ok code) :
    ∃ key, Key.parse (c.loadContext lockType) source = .ok key ∧ ofKey key = .ok code :=
  compileWith_eq_ok h

end Lock.Compiler

theorem Parser.parse_ne_none {ctx : ParseContext} {source : Bytes}
    (h : ∃ b ∈ source, Escape.isSpace b = false) : Key.parse ctx source ≠ .ok none := by
  obtain ⟨b, hb, hspace⟩ := h
  have hne : ¬(Cursor.skipSpace ⟨0, source, []⟩).rest.isEmpty = true := by
    rw [List.isEmpty_iff]
    intro hnil
    have := List.dropWhile_eq_nil_iff.1 hnil b hb
    rw [hspace] at this
    cases this
  rw [Key.parse, parseAll]
  dsimp only
  rw [if_neg hne]
  rcases parseOr ctx _ with e | r
  · intro hnone
    cases hnone
  · dsimp only
    intro hnone
    split at hnone
    · rename_i key asked hkey
      split at hkey
      · cases hkey
        cases hnone
      · cases hkey
    · cases hnone

theorem Key.Sound.texts {known : Bytes → Bool} {last : Bool} {key : Key}
    (h : key.Sound known last) : ∀ s ∈ key.texts, 0 ∉ s := by
  have hpair {name pattern : Bytes} {last : Bool} (hname : IsName name)
      (hpattern : IsPattern last pattern) :
      ∀ s ∈ [name, pattern], 0 ∉ s := by
    intro s hs
    rcases List.mem_cons.1 hs with rfl | hs
    · exact hname.plain.1
    · cases List.mem_singleton.1 hs
      exact hpattern.plain
  induction key generalizing last with
  | and pos left right ihl ihr =>
    exact fun s hs => (List.mem_append.1 hs).elim (ihl h.1 s) (ihr h.2 s)
  | or pos left right ihl ihr =>
    exact fun s hs => (List.mem_append.1 hs).elim (ihl h.1 s) (ihr h.2 s)
  | not pos operand ih => exact ih h
  | indirect pos d lock =>
    intro s hs
    cases List.mem_singleton.1 hs
    exact fun hm => (h.2.plain 0 hm).1 rfl
  | attr pos name pattern => exact hpair h.1 h.2
  | eval pos name pattern => exact hpair h.1 h.2
  | flagClass pos name pattern => exact hpair h.2.1 h.2.2
  | _ => exact nofun

/-- A lock that was loaded is shown by a text that loads as the same lock: its key is the one
loaded, associated to the right, its code does the same in every world and in every state of a
run, and it is shown by the same text. Texts must be free of zero bytes, which end a text in
code, and code must be short enough for the offsets in it. -/
theorem Lock.Compiler.compileLoad_decompile (c : Compiler) {source lockType : Bytes}
    {code : LockCode} (hcode : c.compileLoad source lockType = .ok code)
    (hblank : ∃ b ∈ source, Escape.isSpace b = false) (hzero : 0 ∉ source)
    (hnames : ∀ key, Key.parse (c.loadContext lockType) source = .ok (some key) →
      ∀ s ∈ key.lockNames, Key.IsLockName s)
    (hsize : code.size < 2 ^ 31) (viewer : Dbref) :
    ∃ key key' code', Key.parse (c.loadContext lockType) source = .ok (some key) ∧
      c.compileLoad (code.decompile viewer .dbrefs none) lockType = .ok code' ∧
      Key.parse (c.loadContext lockType) (code.decompile viewer .dbrefs none) =
        .ok (some key') ∧
      key'.erase = key.erase.reassoc ∧
      (∀ (m : Type → Type) [Monad m] [LawfulMonad m] (v : Machine m) (subject target : Dbref)
        (st : EvalState), v.run code' subject target st = v.run code subject target st) ∧
      ∀ viewer', code'.decompile viewer' .dbrefs none = code.decompile viewer .dbrefs none := by
  obtain ⟨_ | key, hparse, hkey⟩ := compileLoad_eq_ok hcode
  · exact absurd hparse (Parser.parse_ne_none hblank)
  have hsound := Parser.parse_sound hparse hzero (hnames key hparse)
  obtain ⟨a, ha⟩ := Assembly.exists_ofKey hsound.objects
  obtain rfl : code = some a.threadJumps.bytes :=
    Except.ok.inj (hcode.symm.trans (c.compileLoad_eq hparse ha))
  have hshown := LockCode.decompile_ofKey ha hsound.texts hsize
  have hnumbers :
      (if (c.loadContext lockType).loading then none else (c.loadContext lockType).matcher) =
      none := rfl
  obtain ⟨key', hparse', herase⟩ := Parser.parse_spell hnumbers hsound
  have halike : Key.Alike key key' :=
    ((Key.Alike.erase key').symm.trans
      (herase ▸ (Key.Alike.reassoc _).trans (Key.Alike.erase key))).symm
  obtain ⟨a', ha'⟩ := Assembly.exists_ofKey (halike.objects ▸ hsound.objects)
  have hsize' : a'.threadJumps.bytes.length < 2 ^ 31 := halike.length_bytes ha ha' ▸ hsize
  rw [hshown viewer]
  refine ⟨key, key', some a'.threadJumps.bytes, hparse, c.compileLoad_eq hparse' ha',
    hparse', herase, ?_, ?_⟩
  · intro m _ _ v subject target st
    exact halike.run_eq ha ha' hsound.texts hsize v subject target st
  · intro viewer'
    rw [LockCode.decompile_ofKey ha' (halike.texts ▸ hsound.texts) hsize', halike.spell]

/-- An offset that an operand cannot hold wraps round to a negative one, where there is no text.
-/
theorem Bytecode.textAt_wrapped {m : Nat} (hlow : 2 ^ 31 ≤ m) (hhigh : m < 2 ^ 32)
    (code : Bytes) :
    ∃ f, textAt code (Int32.ofNat m) = .error f := by
  have hneg : Int32.ofNat m < 0 := by
    have hsize : Int32.size = 2 ^ 32 := rfl
    rw [Int32.lt_iff_toInt_lt, Int32.toInt_ofNat', hsize, Int.bmod_def, if_neg (by omega)]
    change _ < (0 : Int)
    omega
  exact ⟨_, by rw [textAt, if_pos (.inl hneg)]⟩

namespace Lock

def Compiler.standard : Compiler := ⟨.standard, none⟩

theorem isName_replicate {n : Nat} (hn : 0 < n) : Key.IsName (List.replicate n 65) := by
  have hmem {b : UInt8} (hb : b ∈ List.replicate n 65) : b = 65 := List.eq_of_mem_replicate hb
  have hnot {b : UInt8} (hb : b ≠ 65) : b ∉ List.replicate n 65 := fun hm => hb (hmem hm)
  refine ⟨by simpa using Nat.ne_of_gt hn, Bytes.toUpper_eq_self ?_,
    Escape.clear_of_forall ?_ false, Escape.pending_of_not_mem (hnot (by decide)),
    .of_forall ?_,
    ⟨hnot (by decide), hnot (by decide), hnot (by decide)⟩, ?_⟩
  · intro b hb
    rw [hmem hb]
    decide
  · intro b hb
    rw [hmem hb]
    rfl
  · intro b hb
    rw [hmem hb]
    rfl
  · intro b r hs
    obtain rfl : b = 65 := hmem (by rw [hs]; exact List.mem_cons_self ..)
    rfl

/-- Behind a name of that length, no text of the code can be named. -/
theorem decompile_longName {n : Nat} (hlow : 2 ^ 31 ≤ n + 16) (hhigh : n + 16 < 2 ^ 32)
    (pos : Nat) :
    ∃ a, Assembly.ofKey (some (.attr pos (List.replicate n 65) [100])) = .ok a ∧
      ∀ viewer, LockCode.decompile (some a.threadJumps.bytes) viewer .dbrefs none =
        corruptText := by
  have hpool : Assembly.write (.attr pos (List.replicate n 65) [100]) [] 0 =
      ([⟨.loadText, 0⟩, ⟨.testAttr, 1⟩], [List.replicate n 65, [100]], 0) := by
    have hne : ((List.replicate n 65 : Bytes) == [100]) = false := by
      refine beq_false_of_ne fun he => ?_
      have := congrArg List.length he
      simp at this
      omega
    simp [Assembly.write, Assembly.textTest, Assembly.addText, hne]
  let a : Assembly :=
    ⟨[⟨.loadText, 0⟩, ⟨.testAttr, 1⟩, ⟨.ret, 0⟩], [List.replicate n 65, [100]], 0⟩
  have ha : Assembly.ofKey (some (.attr pos (List.replicate n 65) [100])) = .ok a := by
    rw [Assembly.ofKey, hpool]
    rfl
  have hthread : a.threadJumps = a := rfl
  obtain ⟨f, htext⟩ : ∃ f, Bytecode.textAt a.bytes (a.textOffset 1) = .error f := by
    have hoffset : a.textOffset 1 = Int32.ofNat (n + 16) := by
      have hone : (1 : Int32).toInt.toNat = 1 := by decide
      rw [Assembly.textOffset, hone]
      refine congrArg Int32.ofNat ?_
      simp [a, Assembly.insnCount, Bytecode.insnWidth]
      omega
    rw [hoffset]
    exact Bytecode.textAt_wrapped hlow hhigh a.bytes
  have hinsns : Bytecode.instructions a.bytes =
      .ok ([⟨.loadText, a.textOffset 0⟩, ⟨.testAttr, a.textOffset 1⟩] ++ [⟨.ret, 0⟩]) := by
    refine Bytecode.instructionsFrom_flatMap _ [] (List.nil_append _).symm rfl ?_
    intro i hi
    simp only [List.mem_cons, List.not_mem_nil, or_false] at hi
    rcases hi with rfl | rfl
    · exact ⟨rfl, fun h => Opcode.noConfusion h⟩
    · exact ⟨rfl, fun h => Opcode.noConfusion h⟩
  refine ⟨a, ha, fun viewer => ?_⟩
  have hnone (text : Bytes) : Decompile.render ⟨viewer, .dbrefs, none⟩ a.bytes text
      [⟨.testAttr, a.textOffset 1⟩, ⟨.ret, 0⟩] = none := by
    rw [Decompile.render_test (.inl rfl), Decompile.renderTest]
    simp only [htext]
    rfl
  rw [hthread, LockCode.decompile, hinsns]
  simp only [List.cons_append, List.nil_append]
  rcases hload : Bytecode.textAt a.bytes (a.textOffset 0) with f | text
  · rw [Decompile.render]
    simp only [hload]
  · rw [Decompile.render_loadText hload, hnone]

/-- The text that stands for corrupt code does not load. -/
theorem Compiler.compileLoad_corruptText (lockType : Bytes) :
    ∃ e, Compiler.standard.compileLoad corruptText lockType = .error e := by
  have hfail : Parser.readOr (Compiler.standard.loadContext lockType) ⟨0, corruptText, []⟩ =
      .error ⟨⟨0, .badDbref corruptText⟩, []⟩ := by
    rw [Parser.readOr, Parser.outcome_parseOr, Parser.outcome_parseAnd, Parser.outcome_parseNot]
    rfl
  have hparse : Key.parse (Compiler.standard.loadContext lockType) corruptText =
      .error ⟨0, .badDbref corruptText⟩ := by
    refine (Parser.parse_cons (b := 42) rfl).trans ?_
    rw [show
      Parser.readOr (Compiler.standard.loadContext lockType) ⟨0, 42 :: _, []⟩ = _ from hfail]
  rcases hload : Compiler.standard.compileLoad corruptText lockType with e | code
  · exact ⟨e, rfl⟩
  · obtain ⟨key, hkey, -⟩ := compileLoad_eq_ok hload
    rw [hparse] at hkey
    cases hkey

/-- A lock with such a name has code, whatever the lock is read against. -/
theorem compileWith_longName (ctx : ParseContext) {n : Nat} (hlow : 2 ^ 31 ≤ n + 16)
    (hhigh : n + 16 < 2 ^ 32) :
    ∃ (source code : Bytes) (key : Key), compileWith ctx source = .ok (some code) ∧
      (∃ b ∈ source, Escape.isSpace b = false) ∧ 0 ∉ source ∧
      Key.parse ctx source = .ok (some key) ∧
      key.lockNames = [] ∧ ∀ viewer,
        LockCode.decompile (some code) viewer .dbrefs none = corruptText := by
  have hname : Key.IsName (List.replicate n 65) := isName_replicate (by omega)
  have hpattern : Key.IsPattern true [100] := by
    refine ⟨⟨rfl, trivial⟩, fun h => ?_, .of_forall (by decide +kernel), by decide +kernel⟩
    cases h
  have hsound : (Key.attr 0 (List.replicate n 65) [100]).Sound ctx.knows true :=
    ⟨hname, hpattern⟩
  obtain ⟨key, hparse, hkey⟩ := Parser.parse_spellAs Dbref.render (List.forall_mem_nil _) hsound
  obtain ⟨pos, rfl⟩ : ∃ pos, key = .attr pos (List.replicate n 65) [100] := by
    cases key <;> cases hkey
    exact ⟨_, rfl⟩
  obtain ⟨a, ha, hshown⟩ := decompile_longName hlow hhigh pos
  refine ⟨_, _, _, compileWith_eq hparse ha, ?_, ?_, hparse, rfl, hshown⟩
  · obtain ⟨b, r, hb, hspace⟩ := Parser.spellAs_head Dbref.render (List.forall_mem_nil _) hsound
    exact ⟨b, hb ▸ List.mem_cons_self .., hspace⟩
  · simp [Key.spellAs]

theorem Compiler.exists_longName {n : Nat} (hlow : 2 ^ 31 ≤ n + 16) (hhigh : n + 16 < 2 ^ 32) :
    ∃ (source lockType code : Bytes) (key : Key) (e : CompileError),
      Compiler.standard.compileLoad source lockType = .ok (some code) ∧
      (∃ b ∈ source, Escape.isSpace b = false) ∧ 0 ∉ source ∧
      Key.parse (Compiler.standard.loadContext lockType) source = .ok (some key) ∧
      key.lockNames = [] ∧
      Compiler.standard.compileLoad (LockCode.decompile (some code) 0 .dbrefs none) lockType =
        .error e := by
  obtain ⟨source, code, key, hcode, hblank, hzero, hparse, hlocks, hshown⟩ :=
    compileWith_longName (Compiler.standard.loadContext []) hlow hhigh
  obtain ⟨e, he⟩ := compileLoad_corruptText []
  refine ⟨source, [], code, key, e, hcode, hblank, hzero, hparse, hlocks, ?_⟩
  rw [hshown, he]

/-- The text `(@#1&!@#2/b)&@#3`. -/
def sampleText : Bytes := [40, 64, 35, 49, 38, 33, 64, 35, 50, 47, 98, 41, 38, 64, 35, 51]

/-- The key of `(@#1&!@#2/b)&@#3`, where `@#1` means `@#1/a`. -/
def sampleKey : Key :=
  .and 12 (.and 4 (.indirect 1 1 [97]) (.not 5 (.indirect 6 2 [98]))) (.indirect 13 3 [97])

theorem parse_sampleText :
    Key.parse (Compiler.standard.loadContext [97]) sampleText = .ok (some sampleKey) := by
  have hb : Parser.readNot (Compiler.standard.loadContext [97])
      ⟨6, [64, 35, 50, 47, 98, 41, 38, 64, 35, 51], []⟩ =
        .ok (.indirect 6 2 [98], ⟨11, [41, 38, 64, 35, 51], []⟩) := by
    rw [Parser.readNot, Parser.outcome_parseNot]
    rfl
  have hnot : Parser.readAnd (Compiler.standard.loadContext [97])
      ⟨5, [33, 64, 35, 50, 47, 98, 41, 38, 64, 35, 51], []⟩ =
        .ok (.not 5 (.indirect 6 2 [98]), ⟨11, [41, 38, 64, 35, 51], []⟩) := by
    rw [Parser.readAnd, Parser.outcome_parseAnd, Parser.outcome_parseNot]
    change (Parser.readNot (Compiler.standard.loadContext [97])
      ⟨6, [64, 35, 50, 47, 98, 41, 38, 64, 35, 51], []⟩).map _ >>= _ = _
    rw [hb]
    rfl
  have hinner : Parser.readOr (Compiler.standard.loadContext [97]) ⟨1, sampleText.tail, []⟩ =
      .ok (.and 4 (.indirect 1 1 [97]) (.not 5 (.indirect 6 2 [98])),
        ⟨11, [41, 38, 64, 35, 51], []⟩) := by
    rw [Parser.readOr, Parser.outcome_parseOr, Parser.outcome_parseAnd, Parser.outcome_parseNot]
    change (Parser.readAnd (Compiler.standard.loadContext [97])
      ⟨5, [33, 64, 35, 50, 47, 98, 41, 38, 64, 35, 51], []⟩).map _ >>= _ = _
    rw [hnot]
    rfl
  have hlast : Parser.readAnd (Compiler.standard.loadContext [97]) ⟨13, [64, 35, 51], []⟩ =
      .ok (.indirect 13 3 [97], ⟨16, [], []⟩) := by
    rw [Parser.readAnd, Parser.outcome_parseAnd, Parser.outcome_parseNot]
    rfl
  have hall : Parser.readOr (Compiler.standard.loadContext [97]) ⟨0, sampleText, []⟩ =
      .ok (sampleKey, ⟨16, [], []⟩) := by
    rw [Parser.readOr, Parser.outcome_parseOr, Parser.outcome_parseAnd, Parser.outcome_parseNot]
    change ((Parser.readOr (Compiler.standard.loadContext [97])
      ⟨1, sampleText.tail, []⟩ >>= fun p =>
      Parser.closeOutcome p.1 p.2.skipSpace p.2.skipSpace.rest) >>= _) >>= _ = _
    rw [hinner]
    change (Parser.readAnd (Compiler.standard.loadContext [97]) ⟨13, [64, 35, 51], []⟩).map
      _ >>= _ = _
    rw [hlast]
    rfl
  exact Parser.parse_of_outcome rfl hall rfl

/-- `(@#1&!@#2/b)&@#3` is shown as `@#1/a&!@#2/b&@#3/a`, and that text loads as the same lock.
-/
theorem Compiler.compileLoad_decompile_sample :
    ∃ code code', Compiler.standard.compileLoad sampleText [97] = .ok code ∧
      code.decompile 0 .dbrefs none =
        [64, 35, 49, 47, 97, 38, 33, 64, 35, 50, 47, 98, 38, 64, 35, 51, 47, 97] ∧
      Compiler.standard.compileLoad (code.decompile 0 .dbrefs none) [97] = .ok code' ∧
      ∀ v : Machine Id, v.run code' 5 7 ⟨0, false⟩ = v.run code 5 7 ⟨0, false⟩ := by
  obtain ⟨a, ha⟩ : ∃ a, Assembly.ofKey (some sampleKey) = .ok a := ⟨_, rfl⟩
  have hcode := Compiler.standard.compileLoad_eq parse_sampleText ha
  have hsize : a.threadJumps.bytes.length < 2 ^ 31 := by
    rw [Assembly.length_bytes_ofKey ha]
    decide +kernel
  have hnames :
      ∀ key, Key.parse (Compiler.standard.loadContext [97]) sampleText = .ok (some key) →
      ∀ s ∈ key.lockNames, Key.IsLockName s := by
    intro key hkey
    rw [parse_sampleText] at hkey
    cases hkey
    have hshort : Key.IsLockName [97] ∧ Key.IsLockName [98] :=
      ⟨⟨nofun, by decide +kernel, rfl, rfl⟩, ⟨nofun, by decide +kernel, rfl, rfl⟩⟩
    simp [sampleKey, Key.lockNames, hshort]
  obtain ⟨key, key', code', -, hload, -, -, hrun, -⟩ :=
    Compiler.standard.compileLoad_decompile hcode
    ⟨40, List.mem_cons_self .., rfl⟩ (by decide +kernel) hnames hsize 0
  have hspell : sampleKey.spell =
      [64, 35, 49, 47, 97, 38, 33, 64, 35, 50, 47, 98, 38, 64, 35, 51, 47, 97] := by
    cbv
  exact ⟨_, code', hcode, (LockCode.decompile_ofKey ha (by decide) hsize 0).trans hspell, hload,
    fun v => hrun Id v 5 7 ⟨0, false⟩⟩

/-- Without the two conditions a lock is not shown whole. The name of a lock ends where it holds
a zero byte, as the name that `@#1` means may do. And in code that is too long some texts cannot
be named, so that it is shown as corrupt; that text does not load. -/
theorem Compiler.decompile_not_whole :
    (∃ (source lockType code : Bytes) (key key' : Key),
      Compiler.standard.compileLoad source lockType = .ok (some code) ∧
      (∃ b ∈ source, Escape.isSpace b = false) ∧ 0 ∉ source ∧ code.length < 2 ^ 31 ∧
      Key.parse (Compiler.standard.loadContext lockType) source = .ok (some key) ∧
      (∀ s ∈ key.lockNames, s ≠ [] ∧
        (∀ b ∈ s, b ≠ Escape.backslash ∧ Escape.endsKey b = false) ∧
        s.head?.any Escape.isSpace = false ∧ s.getLast?.any Escape.isSpace = false) ∧
      Key.parse (Compiler.standard.loadContext lockType)
        (LockCode.decompile (some code) 0 .dbrefs none) = .ok (some key') ∧
      key'.erase ≠ key.erase.reassoc) ∧
    ∃ (source lockType code : Bytes) (key : Key) (e : CompileError),
      Compiler.standard.compileLoad source lockType = .ok (some code) ∧
      (∃ b ∈ source, Escape.isSpace b = false) ∧ 0 ∉ source ∧
      Key.parse (Compiler.standard.loadContext lockType) source = .ok (some key) ∧
      key.lockNames = [] ∧
      Compiler.standard.compileLoad (LockCode.decompile (some code) 0 .dbrefs none) lockType =
        .error e := by
  refine ⟨?_, exists_longName (n := 2 ^ 31) (by decide) (by decide)⟩
  have hread : Parser.readOr (Compiler.standard.loadContext [97, 0, 98]) ⟨0, [64, 35, 49], []⟩ =
      .ok (.indirect 0 1 [97, 0, 98], ⟨3, [], []⟩) := by
    rw [Parser.readOr, Parser.outcome_parseOr, Parser.outcome_parseAnd, Parser.outcome_parseNot]
    rfl
  have hread' :
      Parser.readOr (Compiler.standard.loadContext [97, 0, 98]) ⟨0, [64, 35, 49, 47, 97], []⟩ =
      .ok (.indirect 0 1 [97], ⟨5, [], []⟩) := by
    rw [Parser.readOr, Parser.outcome_parseOr, Parser.outcome_parseAnd, Parser.outcome_parseNot]
    rfl
  have hparse := Parser.parse_of_outcome rfl hread rfl
  have hshown : LockCode.decompile
      (some [3, 15, 0, 0, 0, 12, 1, 0, 0, 0, 0, 0, 0, 0, 0, 97, 0, 98, 0]) 0 .dbrefs none =
        [64, 35, 49, 47, 97] := by
    cbv
  refine ⟨[64, 35, 49], [97, 0, 98],
    [3, 15, 0, 0, 0, 12, 1, 0, 0, 0, 0, 0, 0, 0, 0, 97, 0, 98, 0], _, .indirect 0 1 [97],
    Compiler.standard.compileLoad_eq hparse rfl, ⟨64, List.mem_cons_self .., rfl⟩,
    by decide +kernel, by decide, hparse, ?_, ?_, ?_⟩
  · intro s hs
    cases List.mem_singleton.1 hs
    exact ⟨List.cons_ne_nil _ _, by decide +kernel, rfl, rfl⟩
  · rw [hshown]
    exact Parser.parse_of_outcome rfl hread' rfl
  · intro h
    cases h

end Lock

end Locksmith
