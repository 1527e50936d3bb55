import Locksmith.Proofs.Data.SortedMap
import Locksmith.Proofs.Database.History
import Locksmith.Proofs.Database.Likeness
import Locksmith.Proofs.Lock.RoundTrip

namespace Locksmith

/-- Whether the machine asks its world about a class of this kind. -/
def ClassKind.leftToWorld : ClassKind → Bool
  | flag | power | type | objId => true
  | channel | ip | hostname | dbrefList | unassigned _ => false

namespace ClassTable

variable {name : Bytes} {kind : ClassKind}

/-- The kind that a database takes a class for: the one under its name in the standard table. -/
def worldKind (name : Bytes) : Option ClassKind := (standard.get? name).filter (·.leftToWorld)

theorem leftToWorld_of_worldKind (h : worldKind name = some kind) : kind.leftToWorld = true :=
  (Option.filter_eq_some_iff.1 h).2

theorem worldKind_eq_some : worldKind name = some kind ↔
    (name.toUpper, kind) ∈
      [(flagName, .flag), (objIdName, .objId), (powerName, .power), (typeName, .type)] := by
  have hstandard : standard.byName.toList.filter (·.2.leftToWorld) =
      [(flagName, .flag), (objIdName, .objId), (powerName, .power), (typeName, .type)] := by
    decide +kernel
  rw [worldKind, Option.filter_eq_some_iff, get?, ← SortedMap.mem_toList, ← hstandard,
    List.mem_filter]

def worldNames : List Bytes := [[], flagName, powerName, typeName, objIdName]

theorem exists_worldName (name : Bytes) :
    ∃ known ∈ worldNames, worldKind name = worldKind known := by
  rcases hname : worldKind name with _ | kind
  · exact ⟨[], by decide, by decide +kernel⟩
  · rw [worldKind_eq_some] at hname
    simp only [List.mem_cons, Prod.mk.injEq, List.not_mem_nil, or_false] at hname
    rcases hname with ⟨-, rfl⟩ | ⟨-, rfl⟩ | ⟨-, rfl⟩ | ⟨-, rfl⟩
    · exact ⟨flagName, by decide, (worldKind_eq_some.2 (by decide)).symm⟩
    · exact ⟨objIdName, by decide, (worldKind_eq_some.2 (by decide)).symm⟩
    · exact ⟨powerName, by decide, (worldKind_eq_some.2 (by decide)).symm⟩
    · exact ⟨typeName, by decide, (worldKind_eq_some.2 (by decide)).symm⟩

end ClassTable

namespace Assembly

def ofClass (name pattern : Bytes) : Assembly :=
  let (pool, i) := addText [name] pattern
  ⟨[⟨.loadText, 0⟩, ⟨.testClass, i⟩, ⟨.ret, 0⟩], pool, 0⟩

variable {name pattern : Bytes}

theorem ofKey_class (pos : Nat) (name pattern : Bytes) :
    ofKey (some (.flagClass pos name pattern)) = .ok (ofClass name pattern) := rfl

theorem pool_ofClass (name pattern : Bytes) :
    ∃ rest, (ofClass name pattern).pool = name :: rest ∧ rest.length ≤ 1 := by
  change ∃ rest, (addText [name] pattern).1 = _ ∧ _
  rw [addText]
  split
  · exact ⟨[], rfl, Nat.zero_le 1⟩
  · exact ⟨[pattern], rfl, Nat.le_refl 1⟩

/-- The texts of a key for a class can be read up to their first zero bytes, however long the
pattern is. -/
theorem textAt_ofClass (hname : name.length + 16 < 2 ^ 31) {k : Nat} {s : Bytes}
    (hk : (ofClass name pattern).pool[k]? = some s) :
    Bytecode.textAt (ofClass name pattern).bytes
      ((ofClass name pattern).textOffset (Int32.ofNat k)) =
      .ok s.upToZero := by
  apply textAt_bytes_of_offset hk
  have hbefore : (ofClass name pattern).pool.take k <+: [name] := by
    obtain ⟨rest, hpool, hrest⟩ := pool_ofClass name pattern
    obtain ⟨hlt, -⟩ := List.getElem?_eq_some_iff.1 hk
    rw [hpool, List.length_cons] at hlt
    rw [hpool, List.prefix_cons_iff]
    cases k with
    | zero => exact .inl rfl
    | succ k =>
      have hk : k = 0 := by omega
      exact .inr ⟨[], by rw [hk]; rfl, List.prefix_rfl⟩
  have hlength := (hbefore.flatMap (· ++ [0])).length_le
  have hcount : insnCount (ofClass name pattern).code * Bytecode.insnWidth = 15 := rfl
  rw [List.flatMap_singleton, List.length_append, List.length_singleton] at hlength
  omega

end Assembly

theorem Lock.ofKey_class (pos : Nat) (name pattern : Bytes) :
    ofKey (some (.flagClass pos name pattern)) =
      .ok (some (Assembly.ofClass name pattern).bytes) := by
  rw [ofKey, Assembly.ofKey_class]
  exact congrArg Except.ok (Assembly.emit_ofKey (Assembly.ofKey_class pos name pattern))

namespace Machine

variable {m : Type → Type} [Monad m] [LawfulMonad m] (v : Machine m)

/-- The code of a key for a class tests the class. -/
theorem verdictFrom_ofClass {nested : Dbref → LockCode → EvalState → m (Bool × EvalState)}
    {subject target : Dbref} {name : Bytes} (hname : name.length + 16 < 2 ^ 31)
    (pattern : Bytes) (st : EvalState) :
    v.verdictFrom nested (Assembly.ofClass name pattern).bytes subject target 0 false [] st =
      v.answerClass subject target name.upToZero pattern.upToZero Bytecode.insnWidth st := by
  obtain ⟨-, k, hk, hindex⟩ := Assembly.addText_spec [name] pattern
  obtain ⟨rest, hpool, -⟩ := Assembly.pool_ofClass name pattern
  have htext : Bytecode.textAt (Assembly.ofClass name pattern).bytes
      ((Assembly.ofClass name pattern).textOffset 0) = .ok name.upToZero :=
    Assembly.textAt_ofClass hname (k := 0) (by rw [hpool]; rfl)
  have hpattern : Bytecode.textAt (Assembly.ofClass name pattern).bytes
      ((Assembly.ofClass name pattern).textOffset (Int32.ofNat k)) = .ok pattern.upToZero :=
    Assembly.textAt_ofClass hname hk
  have hcode : (Assembly.ofClass name pattern).code =
      [⟨.loadText, 0⟩, ⟨.testClass, Int32.ofNat k⟩, ⟨.ret, 0⟩] := by
    rw [← hindex]
    rfl
  generalize Assembly.ofClass name pattern = a at htext hpattern hcode ⊢
  have hload : Bytecode.fetch a.bytes 0 = .ok ⟨.loadText, a.textOffset 0⟩ :=
    Assembly.fetch_bytes (hcode.trans (List.nil_append _).symm) (by decide)
  have htest :
      Bytecode.fetch a.bytes Bytecode.insnWidth =
        .ok ⟨.testClass, a.textOffset (Int32.ofNat k)⟩ :=
    Assembly.fetch_bytes (hcode.trans List.singleton_append.symm)
      (fun h => Opcode.noConfusion h)
  have hret :
      Bytecode.fetch a.bytes (Bytecode.insnWidth + Bytecode.insnWidth) = .ok ⟨.ret, 0⟩ :=
    Assembly.fetch_bytes (hcode.trans (List.append_cons [_] _ _)) (by decide)
  rw [v.verdictFrom_of_fetch hload]
  simp only [execute, htext, pure_bind, resume, Nat.zero_add]
  rw [v.verdictFrom_of_fetch htest, answerClass]
  simp only [execute, hpattern]
  cases v.classes.get? name.upToZero with
  | none => simp only [pure_bind, resume]
  | some kind =>
    simp only [bind_assoc, pure_bind, resume]
    refine bind_congr fun result => ?_
    rw [v.verdictFrom_of_fetch hret]
    simp only [execute, pure_bind, resume]

omit [LawfulMonad m] in
theorem isListed_congr {v v' : Machine m} (h : v.world = v'.world) (subject target : Dbref)
    (fields : List Bytes) :
    v.isListed subject target fields = v'.isListed subject target fields := by
  induction fields with
  | nil => rfl
  | cons field rest ih => simp only [isListed, h, ih]

omit [LawfulMonad m] in
/-- A test of a class depends on the world alone. -/
theorem testClass_world {v v' : Machine m} (h : v.world = v'.world) :
    v.testClass = v'.testClass := by
  funext kind name pattern subject target
  simp only [testClass, h, isListed_congr h]

/-- A key for a class is passed as its kind says. -/
theorem evaluate_ofClass {name : Bytes} {kind : ClassKind} (hname : name.length + 16 < 2 ^ 31)
    (hzero : 0 ∉ name) (hkind : v.classes.get? name = some kind) (pattern : Bytes)
    (subject target : Dbref) :
    v.evaluate (some (Assembly.ofClass name pattern).bytes) subject target =
      v.testClass kind name pattern.upToZero subject target := by
  rw [evaluate, run_some, runCode, v.verdictFrom_ofClass hname, answerClass,
    Bytes.upToZero_eq_self.2 hzero, hkind]
  simp only [bind_assoc, pure_bind, bind_pure]

end Machine

namespace Database
namespace Store

open ClassTable (worldKind)

variable {s : Store} {name name' : Bytes} {kind : ClassKind}

def withClasses (s : Store) (t : ClassTable) : Store :=
  { s with settings := { s.settings with classes := t } }

/-- The answers of a database do not depend on its classes. -/
theorem world_withClasses (s : Store) (t : ClassTable) : (s.withClasses t).world = s.world := by
  have halike : Alike s (s.withClasses t) := fun _ => rfl
  have heval (d : Dbref) (name : Bytes) (enactor : Dbref) :
      (s.withClasses t).evalAttribute d name enactor = s.evalAttribute d name enactor :=
    halike.evalAttribute rfl enactor
  rw [world]
  simp only [heval]
  rfl

theorem testClass_withClasses (s : Store) (t : ClassTable) :
    (s.withClasses t).machine.testClass = s.machine.testClass :=
  Machine.testClass_world (s.world_withClasses t)

/-- For the kinds that are left to the database, the test does not depend on the kind. -/
theorem testClass_leftToWorld (hkind : kind.leftToWorld = true) (s : Store)
    (name pattern : Bytes) (subject target : Dbref) :
    s.machine.testClass kind name pattern subject target =
      pure (s.hasFlagClass name subject target pattern) := by
  cases kind with
  | flag | power | type | objId => rfl
  | channel | ip | hostname | dbrefList | unassigned => cases hkind

/-- A database goes by the names that it knows. -/
theorem hasFlagClass_congr (h : worldKind name = worldKind name') :
    s.hasFlagClass name = s.hasFlagClass name' := by
  have hsame (kind : ClassKind) :
      worldKind name = some kind ↔ worldKind name' = some kind := by rw [h]
  have hflag := hsame .flag
  have hpower := hsame .power
  have htype := hsame .type
  have hobjId := hsame .objId
  simp only [ClassTable.worldKind_eq_some, List.mem_cons, Prod.mk.injEq, List.not_mem_nil,
    reduceCtorEq, and_false, and_true, or_false, false_or] at hflag hpower htype hobjId
  funext subject viewer pattern
  simp only [hasFlagClass, hflag, hpower, htype, hobjId]

theorem testClass_congr (h : kind.leftToWorld = true → worldKind name = worldKind name') :
    s.machine.testClass kind name = s.machine.testClass kind name' := by
  funext pattern subject target
  cases hkind : kind.leftToWorld with
  | true =>
    rw [testClass_leftToWorld hkind, testClass_leftToWorld hkind, hasFlagClass_congr (h hkind)]
  | false =>
    cases kind with
    | flag | power | type | objId => cases hkind
    | channel | ip | hostname | dbrefList | unassigned => rfl

def wizard : Object :=
  { Object.new 1 1 with
    type := .player, flags := .wizard, powers := SortedMap.empty.insert "BUILDER" () }

def tower : Store :=
  (Operation.performAll (Operation.start .standard .none) [.add wizard rfl]).store

/-- What the wizard is in the class of this kind only. -/
def towerPattern : ClassKind → Bytes
  | .flag => "wizard"
  | .power => "builder"
  | .objId => "#1"
  | _ => "player"

theorem upToZero_towerPattern (kind : ClassKind) :
    (towerPattern kind).upToZero = towerPattern kind := by
  rw [Bytes.upToZero_eq_self]
  cases kind with
  | unassigned => exact (by decide : 0 ∉ Bytes.ofString "player")
  | _ => decide

/-- For each kind that is left to the database, there is a pattern that the wizard fits in that
class only. -/
theorem hasFlagClass_tower (hkind : kind.leftToWorld = true) (name : Bytes) :
    tower.hasFlagClass name 1 1 (towerPattern kind) = decide (worldKind name = some kind) := by
  have hnames :
      ∀ known ∈ ClassTable.worldNames, ∀ kind ∈ [ClassKind.flag, .power, .type, .objId],
      tower.hasFlagClass known 1 1 (towerPattern kind) =
        decide (worldKind known = some kind) := by
    decide +kernel
  obtain ⟨known, hknown, hsame⟩ := ClassTable.exists_worldName name
  rw [hasFlagClass_congr hsame, hsame]
  apply hnames known hknown
  cases kind with
  | flag | power | type | objId => decide
  | channel | ip | hostname | dbrefList | unassigned => cases hkind

/-- Two names of one kind mean the same in every database just if the machine decides about the
kind, or the database takes them for the same class. -/
theorem classKeys_agree_iff {t t' : ClassTable} (hkind : t.get? name = some kind)
    (hkind' : t'.get? name' = some kind) (hname : name.length + 16 < 2 ^ 31 ∧ 0 ∉ name)
    (hname' : name'.length + 16 < 2 ^ 31 ∧ 0 ∉ name') :
    (∀ (s : Store) (pos : Nat) (pattern : Bytes), ∃ code code',
      Lock.ofKey (some (.flagClass pos name pattern)) = .ok code ∧
      Lock.ofKey (some (.flagClass pos name' pattern)) = .ok code' ∧
      ∀ subject target, (s.withClasses t).machine.evaluate code subject target =
        (s.withClasses t').machine.evaluate code' subject target) ↔
    (kind.leftToWorld = true → worldKind name = worldKind name') := by
  have heval (s : Store) (pattern : Bytes) (subject target : Dbref) :=
    (s.withClasses t).machine.evaluate_ofClass hname.1 hname.2 hkind pattern subject target
  have heval' (s : Store) (pattern : Bytes) (subject target : Dbref) :=
    (s.withClasses t').machine.evaluate_ofClass hname'.1 hname'.2 hkind' pattern subject target
  constructor
  · intro hagree hworld
    refine Option.ext fun known => ?_
    cases hknown : known.leftToWorld with
    | true =>
      obtain ⟨code, code', hcode, hcode', hsame⟩ := hagree tower 0 (towerPattern known)
      cases (Lock.ofKey_class _ _ _).symm.trans hcode
      cases (Lock.ofKey_class _ _ _).symm.trans hcode'
      have hanswer := hsame 1 1
      rw [heval, heval', testClass_withClasses, testClass_withClasses, upToZero_towerPattern,
        testClass_leftToWorld hworld, testClass_leftToWorld hworld, hasFlagClass_tower hknown,
        hasFlagClass_tower hknown] at hanswer
      exact decide_eq_decide.1 (congrArg (fun x : Journaled Bool => (x []).1) hanswer)
    | false =>
      have hnone {name : Bytes} : worldKind name ≠ some known := by
        intro h
        cases hknown.symm.trans (ClassTable.leftToWorld_of_worldKind h)
      exact iff_of_false hnone hnone
  · intro hworld s pos pattern
    refine ⟨_, _, Lock.ofKey_class pos name pattern, Lock.ofKey_class pos name' pattern, ?_⟩
    intro subject target
    rw [heval, heval', testClass_withClasses, testClass_withClasses, testClass_congr hworld]

def raceTable : ClassTable := .ofList [("TYPE", .type), ("race", .type)]

/-- The second name is of the same kind, but no player is of the race of players. -/
theorem race_not_type :
    raceTable.get? "TYPE" = some .type ∧ raceTable.get? "RACE" = some .type ∧
    ∃ code code', Lock.ofKey (some (.flagClass 0 "TYPE" "player")) = .ok code ∧
      Lock.ofKey (some (.flagClass 0 "RACE" "player")) = .ok code' ∧
      ((tower.withClasses raceTable).machine.evaluate code 1 1 []).1 = true ∧
      ((tower.withClasses raceTable).machine.evaluate code' 1 1 []).1 = false := by
  have hevaluate {name : Bytes} (hname : name.length + 16 < 2 ^ 31) (hzero : 0 ∉ name)
      (hkind : raceTable.get? name = some .type) :
      ((tower.withClasses raceTable).machine.evaluate
        (some (Assembly.ofClass name "player").bytes) 1 1 []).1 =
        decide (worldKind name = some .type) := by
    rw [(tower.withClasses raceTable).machine.evaluate_ofClass hname hzero hkind,
      testClass_withClasses, testClass_leftToWorld rfl, ← hasFlagClass_tower rfl]
    rfl
  refine ⟨by decide +kernel, by decide +kernel, _, _, Lock.ofKey_class _ _ _,
    Lock.ofKey_class _ _ _, ?_, ?_⟩
  · rw [hevaluate (by decide) (by decide) (by decide +kernel)]
    decide +kernel
  · rw [hevaluate (by decide) (by decide) (by decide +kernel)]
    decide +kernel

/-- Any name will do for the class of addresses, whereas types need their own. -/
theorem classKeys_agree_iff_address :
    (∀ (s : Store) (pos : Nat) (pattern : Bytes), ∃ code code',
      Lock.ofKey (some (.flagClass pos "IP" pattern)) = .ok code ∧
      Lock.ofKey (some (.flagClass pos "address" pattern)) = .ok code' ∧
      ∀ subject target, (s.withClasses .standard).machine.evaluate code subject target =
        (s.withClasses (.ofList [("Address", .ip)])).machine.evaluate code' subject target) ∧
    ¬∀ (s : Store) (pos : Nat) (pattern : Bytes), ∃ code code',
      Lock.ofKey (some (.flagClass pos "type" pattern)) = .ok code ∧
      Lock.ofKey (some (.flagClass pos "RACE" pattern)) = .ok code' ∧
      ∀ subject target, (s.withClasses raceTable).machine.evaluate code subject target =
        (s.withClasses raceTable).machine.evaluate code' subject target := by
  have hip : ClassTable.standard.get? "IP" = some .ip := by decide +kernel
  have htype : raceTable.get? "type" = some .type := by decide +kernel
  constructor
  · refine (classKeys_agree_iff hip (by decide +kernel) (by decide) (by decide)).2 fun hworld =>
      ?_
    cases hworld
  · rw [classKeys_agree_iff htype (by decide +kernel) (by decide) (by decide)]
    decide +kernel

end Store
end Database
end Locksmith
