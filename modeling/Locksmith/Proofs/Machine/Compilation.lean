import Locksmith.Lock.Compile
import Locksmith.Proofs.Machine.Generation

namespace Locksmith

namespace Key

def texts : Key → List Bytes
  | .and _ left right | .or _ left right => left.texts ++ right.texts
  | .not _ operand => operand.texts
  | .indirect _ _ lock => [lock]
  | .attr _ name pattern | .eval _ name pattern | .flagClass _ name pattern => [name, pattern]
  | .const .. | .is .. | .carry .. | .owner .. | .bool .. => []

def classNames : Key → List Bytes
  | .and _ left right | .or _ left right => left.classNames ++ right.classNames
  | .not _ operand => operand.classNames
  | .flagClass _ name _ => [name]
  | _ => []

end Key

namespace Assembly

theorem ofKey_eq_ok {key : Key} {a : Assembly} (h : ofKey (some key) = .ok a) :
    (∀ d ∈ objects key, d.fitsOperand = true) ∧
      a = ⟨(write key [] 0).1 ++ [⟨.ret, 0⟩], (write key [] 0).2.1, (write key [] 0).2.2⟩ := by
  simp only [ofKey] at h
  split at h
  · cases h
  · rename_i hnone
    cases h
    exact ⟨by simpa using hnone, rfl⟩

theorem ofKey_eq_error_iff (key : Key) :
    (∃ d, ofKey (some key) = .error d) ↔
      ∃ d ∈ objects key, d.num.toInt < -2 ^ 31 ∨ 2 ^ 31 ≤ d.num.toInt := by
  have hwide (d : Dbref) :
      d.fitsOperand = false ↔ d.num.toInt < -2 ^ 31 ∨ 2 ^ 31 ≤ d.num.toInt := by
    rw [Dbref.fitsOperand, Bool.and_eq_false_iff, decide_eq_false_iff_not,
      decide_eq_false_iff_not]
    omega
  simp only [ofKey]
  split
  · rename_i d hd
    have hmem := List.mem_of_find?_eq_some hd
    have hfit := List.find?_some hd
    exact ⟨fun _ => ⟨d, hmem, (hwide d).1 (by simpa using hfit)⟩, fun _ => ⟨d, rfl⟩⟩
  · rename_i hnone
    constructor
    · rintro ⟨d, hd⟩
      cases hd
    · rintro ⟨d, hd, hw⟩
      have hfit : d.fitsOperand = true := by simpa using List.find?_eq_none.1 hnone d hd
      rw [(hwide d).2 hw] at hfit
      cases hfit

theorem pool_write (key : Key) (pool : List Bytes) (labels : Nat) :
    (write key pool labels).2.1 = key.texts.foldl (fun pool s => (addText pool s).1) pool := by
  induction key generalizing pool labels with
  | and pos left right ihl ihr =>
    rw [Key.texts, List.foldl_append, ← ihl pool (labels + 1), ← ihr]
    rfl
  | or pos left right ihl ihr =>
    rw [Key.texts, List.foldl_append, ← ihl pool (labels + 1), ← ihr]
    rfl
  | not pos operand ih => exact ih pool labels
  | _ => rfl

theorem mem_pool_write {key : Key} {pool : List Bytes} {labels : Nat} {s : Bytes}
    (h : s ∈ (write key pool labels).2.1) : s ∈ pool ∨ s ∈ key.texts := by
  have hadd {pool : List Bytes} {t : Bytes} (h : s ∈ (addText pool t).1) :
      s ∈ pool ∨ s = t := by
    unfold addText at h
    split at h
    · exact .inl h
    · simpa using h
  have hpair {pool : List Bytes} {name pattern : Bytes}
      (h : s ∈ (addText (addText pool name).1 pattern).1) : s ∈ pool ∨ s ∈ [name, pattern] := by
    rcases hadd h with h | rfl
    · rcases hadd h with h | rfl
      · exact .inl h
      · exact .inr (List.mem_cons_self ..)
    · exact .inr (by simp)
  induction key generalizing pool labels with
  | and pos left right ihl ihr =>
    rcases ihr h with h | h
    · exact (ihl h).imp id (List.mem_append_left _)
    · exact .inr (List.mem_append_right _ h)
  | or pos left right ihl ihr =>
    rcases ihr h with h | h
    · exact (ihl h).imp id (List.mem_append_left _)
    · exact .inr (List.mem_append_right _ h)
  | not pos operand ih => exact ih h
  | indirect pos d lock => exact (hadd h).imp id List.mem_singleton.2
  | attr pos name pattern => exact hpair h
  | eval pos name pattern => exact hpair h
  | flagClass pos name pattern => exact hpair h
  | _ => exact .inl h

theorem Linked.of_nodup {code : List Insn} (h : Forward code) (hn : (placed code).Nodup) :
    Linked code := by
  refine ⟨h, fun i hi hj => ?_⟩
  obtain ⟨xs, ys, rfl⟩ := List.append_of_mem hi
  refine List.count_eq_one_of_mem hn ?_
  rw [placed_append, placed_cons (op_ne_label hj)]
  exact List.mem_append_right _ (h.of_append.1 hj)

theorem jumpCount_ofKey {key : Key} {a : Assembly} (h : ofKey (some key) = .ok a) :
    a.jumpCount = a.labels := by
  obtain ⟨-, rfl⟩ := ofKey_eq_ok h
  have hjumps := (write_fragment key [] 0).jumps
  rw [Nat.zero_add] at hjumps
  rw [jumpCount, List.countP_append, ← hjumps]
  rfl

theorem wellFormed_ofKey {key : Key} {a : Assembly} (h : ofKey (some key) = .ok a)
    (hl : a.labels ≤ 2 ^ 31) : a.WellFormed := by
  obtain ⟨-, rfl⟩ := ofKey_eq_ok h
  have hf := write_fragment key [] 0
  have hplaced : placed ((write key [] 0).1 ++ [⟨.ret, 0⟩]) = placed (write key [] 0).1 := by
    rw [placed_append]
    exact List.append_nil _
  have hforward : Forward ((write key [] 0).1 ++ [⟨.ret, 0⟩]) := by
    refine hf.forward.append ⟨?_, trivial⟩
    intro h
    cases h
  refine ⟨.of_nodup hforward ?_, ⟨_, 0, rfl⟩, ?_⟩
  · rw [hplaced]
    exact hf.nodup hl
  · intro l hm
    rw [hplaced] at hm
    exact (hf.range hl l hm).2

/-- Threading what was written for a key names at most one label more for each operator. -/
theorem labels_threadJumps_ofKey {key : Key} {a : Assembly} (h : ofKey (some key) = .ok a)
    (hl : 2 * a.labels ≤ 2 ^ 31) : a.threadJumps.labels ≤ 2 * a.labels := by
  have hw := wellFormed_ofKey h (by omega)
  have hcount := jumpCount_ofKey h
  have hspaced : Spaced a.code := by
    obtain ⟨-, rfl⟩ := ofKey_eq_ok h
    rw [Spaced, effectiveOps_append]
    exact ((write_fragment key [] 0).spaced.snoc rfl).chain
  have := labels_threadJumps_le hw hspaced (by omega)
  omega

/-- Assembly that was written for a key can be threaded, and no label runs out. -/
theorem ofKey_wellFormed {key : Key} {a : Assembly} (h : ofKey (some key) = .ok a)
    (hsize : a.bytes.length < 2 ^ 31) : a.WellFormed ∧ a.threadJumps.labels ≤ 2 ^ 31 := by
  have hcount := jumpCount_ofKey h
  have hfew : a.jumpCount ≤ insnCount a.code :=
    List.countP_mono_left fun i _ hi => by simpa using op_ne_label hi
  rw [length_bytes, Bytecode.insnWidth] at hsize
  have := labels_threadJumps_ofKey h (by omega)
  exact ⟨wellFormed_ofKey h (by omega), by omega⟩

theorem emit_ofKey {key : Key} {a : Assembly} (h : ofKey (some key) = .ok a) :
    a.threadJumps.emit = some a.threadJumps.bytes := by
  obtain ⟨-, rfl⟩ := ofKey_eq_ok h
  rw [emit_eq, if_neg]
  rw [(insnCount_threadJumps _).1, insnCount_append]
  exact Nat.succ_ne_zero _

end Assembly

namespace Machine

variable {m : Type → Type} [Monad m] (v : Machine m)

/-- The outcome of a key, read from left to right, with operators read only as far as needed.
Classes that the machine does not know are not passed. -/
def evaluateKey (subject target : Dbref) : Key → EvalState → m (Bool × EvalState)
  | .and _ left right, st => do
    let (passed, st) ← evaluateKey subject target left st
    if passed then evaluateKey subject target right st else pure (false, st)
  | .or _ left right, st => do
    let (passed, st) ← evaluateKey subject target left st
    if passed then pure (true, st) else evaluateKey subject target right st
  | .not _ operand, st => do
    let (passed, st) ← evaluateKey subject target operand st
    pure (!passed, st)
  | .const _ d, st => do return (← v.testConst subject d, st)
  | .is _ d, st => pure (d == subject, st)
  | .carry _ d, st => do return (← v.testCarry subject d, st)
  | .owner _ d, st => do return (← v.testOwner subject d, st)
  | .indirect _ d lock, st =>
    v.testIndirect (fun object code st => v.run code subject object st) subject target d lock st
  | .attr _ name pattern, st => do return (← v.testAttr subject target name pattern, st)
  | .eval _ name pattern, st => v.testEval subject target name pattern st
  | .flagClass _ name pattern, st =>
    match v.classes.get? name with
    | none => pure (false, st)
    | some kind => do return (← v.testClass kind name pattern subject target, st)
  | .bool _ value, st => pure (value, st)

variable [LawfulMonad m]

theorem andThen_pure_right (x : m (Except Fault Bool × EvalState)) :
    (andThen x fun result st => pure (.ok result, st)) = x := by
  refine Eq.trans (bind_congr fun p => ?_) (bind_pure x)
  rcases p with ⟨f | result, st⟩
  · rfl
  · rfl

/-- The texts of a key can be read in its code. -/
theorem reads_ofKey {key : Key} {a : Assembly} (h : Assembly.ofKey (some key) = .ok a)
    (htexts : ∀ s ∈ key.texts, 0 ∉ s) (hsize : a.threadJumps.bytes.length < 2 ^ 31) :
    Reads (fun k => Bytecode.textAt a.threadJumps.bytes (a.threadJumps.textOffset k))
      (Assembly.write key [] 0).2.1 := by
  have hpool : a.threadJumps.pool = (Assembly.write key [] 0).2.1 := by
    rw [(Assembly.insnCount_threadJumps a).2, (Assembly.ofKey_eq_ok h).2]
  intro k s hk
  refine Assembly.textAt_bytes (by rwa [hpool]) (htexts s ?_) hsize
  exact (Assembly.mem_pool_write (List.mem_of_getElem? hk)).resolve_left List.not_mem_nil

/-- The code of a key gives the key's answer. -/
theorem verdictFrom_ofKey {nested : Dbref → LockCode → EvalState → m (Bool × EvalState)}
    {subject target : Dbref} {key : Key} {a : Assembly} (h : Assembly.ofKey (some key) = .ok a)
    (htexts : ∀ s ∈ key.texts, 0 ∉ s) (hsize : a.threadJumps.bytes.length < 2 ^ 31)
    (st : EvalState) :
    v.verdictFrom nested a.threadJumps.bytes subject target 0 false [] st =
      v.answer nested subject target key 0 st := by
  have hr := reads_ofKey h htexts hsize
  obtain ⟨hw, hl⟩ := Assembly.ofKey_wellFormed h (Assembly.length_bytes_threadJumps a ▸ hsize)
  obtain ⟨ht, hw'⟩ := Assembly.threadJumps_threaded hw hl
  obtain ⟨hd, rfl⟩ := Assembly.ofKey_eq_ok h
  have hlabels := (Assembly.labels_le_threadJumps _).trans hl
  generalize Assembly.threadJumps _ = t at *
  have hret (pc : Nat) (result : Bool) (text : Bytes) (st : EvalState) :
      v.flow nested (fun k => Bytecode.textAt t.bytes (t.textOffset k)) subject target
        [⟨.ret, 0⟩] pc result text st = pure (.ok result, st) := by
    rw [v.flow_cons (i := ⟨.ret, 0⟩) nofun, execute, pure_bind]
    rfl
  refine Eq.trans (Assembly.verdictFrom_bytes v t hw'.linked hsize (List.nil_append t.code).symm
    hw'.ends false [] st) ?_
  rw [← ht.run m v]
  refine Eq.trans (computes_write key [] 0 hr hd hlabels [⟨.ret, 0⟩] ?_ _ _ _ _) ?_
  · intro pc result text text' st
    rw [hret, hret]
  · simp only [hret]
    exact andThen_pure_right _

theorem andThen_map (x : m (Bool × EvalState))
    (k : Bool → EvalState → m (Except Fault Bool × EvalState)) :
    andThen ((fun p => (.ok p.1, p.2)) <$> x) k = x >>= fun p => k p.1 p.2 := by
  rw [andThen, bind_map_left]

/-- Where all classes are known, nothing is wrong with the code of a key. -/
theorem answer_eq {subject target : Dbref} (key : Key) (pc : Nat) (st : EvalState)
    (h : ∀ name ∈ key.classNames, v.classes.contains name = true) :
    v.answer (fun object code st => v.run code subject object st) subject target key pc st =
      (fun p => (.ok p.1, p.2)) <$> v.evaluateKey subject target key st := by
  induction key generalizing pc st with
  | and pos left right ihl ihr =>
    rw [answer, evaluateKey]
    simp only
    rw [ihl _ _ fun name hn => h name (List.mem_append_left _ hn), andThen_map, map_bind]
    refine bind_congr ?_
    rintro ⟨passed, st⟩
    cases passed with
    | false => simp
    | true => exact ihr _ _ fun name hn => h name (List.mem_append_right _ hn)
  | or pos left right ihl ihr =>
    rw [answer, evaluateKey]
    rw [ihl _ _ fun name hn => h name (List.mem_append_left _ hn), andThen_map, map_bind]
    refine bind_congr ?_
    rintro ⟨passed, st⟩
    cases passed with
    | false => exact ihr _ _ fun name hn => h name (List.mem_append_right _ hn)
    | true => simp
  | not pos operand ih =>
    rw [answer, evaluateKey]
    simp only
    rw [ih _ _ h, andThen_map, map_bind]
    refine bind_congr ?_
    rintro ⟨passed, st⟩
    simp
  | flagClass pos name pattern =>
    obtain ⟨kind, hk⟩ := Option.isSome_iff_exists.1 (h name (List.mem_singleton_self name))
    simp [answer, answerClass, evaluateKey, hk]
  | _ => simp [answer, evaluateKey]

theorem verdict_ofKey {key : Key} {a : Assembly} (h : Assembly.ofKey (some key) = .ok a)
    (htexts : ∀ s ∈ key.texts, 0 ∉ s) (hsize : a.threadJumps.bytes.length < 2 ^ 31)
    (hclass : ∀ name ∈ key.classNames, v.classes.contains name = true) (subject target : Dbref)
    (st : EvalState) :
    v.verdict a.threadJumps.bytes subject target st =
      (fun p => (.ok p.1, p.2)) <$> v.evaluateKey subject target key st := by
  rw [verdict, v.verdictFrom_ofKey h htexts hsize, v.answer_eq key 0 st hclass]

/-- A run whose code is not bad gives its verdict. -/
theorem run_eq_of_verdict {code : Bytes} {subject target : Dbref} {st : EvalState}
    {x : m (Bool × EvalState)}
    (h : v.verdict code subject target st = (fun p => (.ok p.1, p.2)) <$> x) :
    v.run (some code) subject target st = x := by
  rw [run_some, runCode, show v.verdictFrom _ _ _ _ _ _ _ _ = _ from h, bind_map_left]
  exact bind_pure x

end Machine

/-- Writing assembly for a key fails exactly if an object of the key does not fit in an operand
of 32 bits. Otherwise the code that is emitted after threading does what the key says: for every
machine and world, as computations of whatever monad the world lives in, so with the same calls
in the same order. Without a key the lock is open. -/
theorem Lock.compilation_correct :
    (∀ key : Key,
      ((∃ d, Assembly.ofKey (some key) = .error d) ↔
        ∃ d ∈ Assembly.objects key, d.num.toInt < -2 ^ 31 ∨ 2 ^ 31 ≤ d.num.toInt) ∧
      ∀ a, Assembly.ofKey (some key) = .ok a → ∃ code, a.threadJumps.emit = some code ∧
        ((∀ s ∈ key.texts, 0 ∉ s) → code.length < 2 ^ 31 →
          ∀ (m : Type → Type) [Monad m] [LawfulMonad m] (v : Machine m),
            (∀ name ∈ key.classNames, v.classes.contains name = true) →
              ∀ (subject target : Dbref) (st : EvalState),
                v.run (some code) subject target st = v.evaluateKey subject target key st ∧
                v.verdict code subject target st =
                  (fun p => (.ok p.1, p.2)) <$> v.evaluateKey subject target key st)) ∧
    (∃ a, Assembly.ofKey none = .ok a ∧ a.threadJumps.emit = none) ∧
    ∀ (m : Type → Type) [Monad m] (v : Machine m) (subject target : Dbref) (st : EvalState),
      v.run none subject target st = pure (true, st) := by
  refine ⟨fun key => ⟨Assembly.ofKey_eq_error_iff key, fun a ha => ?_⟩, ?_, ?_⟩
  · refine ⟨a.threadJumps.bytes, Assembly.emit_ofKey ha, ?_⟩
    intro htexts hsize m _ _ v hclass subject target st
    have hverdict := v.verdict_ofKey ha htexts hsize hclass subject target st
    exact ⟨v.run_eq_of_verdict hverdict, hverdict⟩
  · exact ⟨Assembly.empty, rfl, rfl⟩
  · intro m _ v subject target st
    exact v.run_none subject target st

def World.nowhere : World Id where
  isValid _ := false
  owner _ := .nothing
  carries _ _ := false
  lock _ _ := .ok none
  canReadLock _ _ _ := false
  canReadAttribute _ _ _ := false
  attr _ _ := none
  evalAttribute _ _ _ := .ok []
  hasFlagClass _ _ _ _ := false
  canSeeConnection _ _ := false
  leastIdle _ := none
  canSeeChannel _ _ := false
  onChannel _ _ := false
  notify _ _ := ()
  log _ := ()

/-- The key `(=#5|N:x)&!FLAG^W`. -/
def Key.sample : Key :=
  .and 8 (.or 3 (.is 1 5) (.attr 4 [78] [120]))
    (.not 9 (.flagClass 10 ClassTable.flagName [87]))

theorem Lock.compilation_correct_sample :
    ∃ code, Lock.ofKey (some Key.sample) = .ok (some code) ∧ code.length < 2 ^ 31 ∧
      (∀ s ∈ Key.sample.texts, 0 ∉ s) ∧
      Machine.run ⟨World.nowhere, .standard, defaultMaxDepth⟩ (some code) 5 7 ⟨0, false⟩ =
        (true, ⟨0, false⟩) := by
  obtain ⟨code, hemit, hrun⟩ := (Lock.compilation_correct.1 Key.sample).2 _ rfl
  have hlen : code.length < 2 ^ 31 := by
    rw [← Option.some.inj hemit]
    decide
  have htexts : ∀ s ∈ Key.sample.texts, 0 ∉ s := by decide
  refine ⟨code, congrArg Except.ok hemit, hlen, htexts, ?_⟩
  exact (hrun htexts hlen Id ⟨World.nowhere, .standard, defaultMaxDepth⟩ (by decide) 5 7
    ⟨0, false⟩).1

end Locksmith
