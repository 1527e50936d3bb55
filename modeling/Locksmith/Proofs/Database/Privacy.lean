import Mathlib
import Locksmith.Proofs.Database.Likeness
import Locksmith.Proofs.Machine.Layout
import Locksmith.Proofs.Machine.Lockstep

namespace Locksmith
namespace Database

/-- `s'` is `s` with other code, under `ref`, for the lock `l` that the object `o` at `x` keeps
under `key`. -/
structure Recoded (s s' : Store) (x : Dbref) (key : Bytes) (o : Object) (l : LockRecord)
    (ref : ChunkRef) : Prop where
  object : s.get? x = some o
  lock : o.locks.get? key = some l
  settings : s'.settings = s.settings
  channels : s'.channels = s.channels
  slots : s'.slots =
    s.slots.insert x (.live { o with locks := o.locks.insert key { l with ref } })
  /-- All other locks have the code they had. -/
  fetch : ∀ d o k l, s.get? d = some o → o.locks.get? k = some l → (d, k) ≠ (x, key) →
    s'.chunks.fetch l.ref = s.chunks.fetch l.ref

/-- What must not be noted for the lock that `x` keeps under `key` to stay hidden. The empty
name is a way in for everybody: the permission is asked for a lock without a name, but the
default lock is run. -/
def Reveals (s : Store) (x : Dbref) (key : Bytes) : Mark → Prop
  | .entered viewer object name =>
    object = x ∧ (lockName name).toLower = key ∧ (s.oversees viewer x = true ∨ name = [])
  | _ => False

namespace Recoded

variable {s s' : Store} {x : Dbref} {key : Bytes} {o : Object} {l : LockRecord} {ref : ChunkRef}
  (h : Recoded s s' x key o l ref)
include h

theorem get?_holder :
    s'.get? x = some { o with locks := o.locks.insert key { l with ref } } := by
  rw [Store.get?, h.slots, SortedMap.get?_insert_self]

theorem get?_of_ne {d : Dbref} (hd : d ≠ x) : s'.get? d = s.get? d := by
  rw [Store.get?, h.slots, SortedMap.get?_insert_of_ne _ _ hd, Store.get?]

theorem sameUnlocked : Store.SameUnlocked s s' := by
  intro d
  by_cases hd : d = x
  · rw [hd, h.get?_holder, h.object]
    rfl
  · rw [h.get?_of_ne hd]

theorem alike : Store.Alike s s' := h.sameUnlocked.alike

theorem attribute?_eq (d : Dbref) (name : Bytes) : s'.attribute? d name = s.attribute? d name :=
  Store.attribute?_congr (h.sameUnlocked.map (fun _ => rfl) d)

theorem canReadAttribute_eq (viewer d : Dbref) (name : Bytes) :
    s'.canReadAttribute viewer d name = s.canReadAttribute viewer d name :=
  h.alike.canReadAttribute (h.sameUnlocked.map (fun _ => rfl) d) viewer

theorem canReadLock_eq (viewer d : Dbref) (name : Bytes) :
    s'.canReadLock viewer d name = s.canReadLock viewer d name := by
  apply h.alike.canReadLock
  by_cases hd : d = x
  · rw [hd, h.get?_holder, h.object, Option.map_some, Option.map_some, Object.lock?,
      Object.lock?]
    by_cases hk : name.toLower = key
    · rw [hk, SortedMap.get?_insert_self, h.lock]
      rfl
    · rw [SortedMap.get?_insert_of_ne _ _ hk]
  · rw [h.get?_of_ne hd]

/-- Only the lock that was given other code can have other code. -/
theorem findLock_code_eq {d : Dbref} {name : Bytes}
    (hne : (d, (lockName name).toLower) ≠ (x, key)) :
    (s'.findLock d name).code = (s.findLock d name).code := by
  have hcode (o' : Object) (l' : LockRecord) (ho : s.get? d = some o')
      (hl : o'.locks.get? (lockName name).toLower = some l') :
      s'.codeOf d (lockName name) l' = s.codeOf d (lockName name) l' := by
    rw [Store.codeOf, Store.codeOf, h.fetch d o' _ l' ho hl hne]
  simp only [Store.findLock, Object.lock?]
  by_cases hd : d = x
  · subst hd
    have hk : (lockName name).toLower ≠ key := fun hk => hne (by rw [hk])
    rw [h.get?_holder, h.object]
    simp only [SortedMap.get?_insert_of_ne _ _ hk]
    cases hl : o.locks.get? (lockName name).toLower with
    | none => rfl
    | some l' => exact hcode o l' h.object hl
  · rw [h.get?_of_ne hd]
    cases ho : s.get? d with
    | none => rfl
    | some o' =>
      simp only
      cases hl : o'.locks.get? (lockName name).toLower with
      | none => rfl
      | some l' => exact hcode o' l' ho hl

theorem machine_eq : s'.machine = s.machine.relock s'.world.lock := by
  simp only [Store.machine, Machine.relock, Store.world, Store.notify, Store.canSeeConnection,
    Store.onChannel, Store.channel?, h.settings, h.channels, h.alike.isValid, h.alike.owner,
    h.alike.carries, h.canReadLock_eq, h.canReadAttribute_eq, h.attribute?_eq,
    h.alike.evalAttribute (h.attribute?_eq _ _), h.alike.hasFlagClass, h.alike.oversees,
    h.alike.leastIdle, h.alike.canSeeChannel h.channels]

/-- A private lock can be read under its name by those only who oversee its holder. -/
theorem canReadLock_eq_false (hp : l.flags.has .privately = true) {viewer : Dbref}
    {name : Bytes} (hk : name.toLower = key) (hv : s.oversees viewer x = false) :
    s.canReadLock viewer x name = false := by
  rw [Store.canReadLock, h.object]
  simp only [Option.any_some, Object.lock?, hk, h.lock, hp, hv, Bool.not_true, Bool.or_false]

theorem stepsAlike (hp : l.flags.has .privately = true) :
    Machine.StepsAlike (Reveals s x key) s.machine s'.machine := by
  rw [h.machine_eq]
  refine Machine.stepsAlike_of_lock fun target object name => ?_
  by_cases hne : (object, (lockName name).toLower) = (x, key)
  · obtain ⟨rfl, hk⟩ := Prod.mk.inj hne
    by_cases hn : name = []
    · exact .inr (.inl ⟨rfl, hk, .inr hn⟩)
    cases hv : s.oversees target object with
    | true => exact .inr (.inl ⟨rfl, hk, .inl hv⟩)
    | false =>
      rw [lockName_of_ne_nil hn] at hk
      exact .inl fun _ => h.canReadLock_eq_false hp hk hv
  · refine .inr (.inr ?_)
    change pure _ = pure _
    rw [h.findLock_code_eq hne]

/-- The code of the lock makes no difference as long as it is run for those only who do not
oversee its holder, and under its name. -/
theorem evaluate_eq (hp : l.flags.has .privately = true) {code : LockCode}
    {subject target : Dbref} {journal : List Event}
    (hclean : ∀ viewer name,
      .entered viewer x name ∈ (s.machine.transcribe code subject target journal).1.2 →
        (lockName name).toLower = key → s.oversees viewer x = false ∧ name ≠ []) :
    s'.machine.evaluate code subject target journal =
      s.machine.evaluate code subject target journal := by
  have hmax : s'.machine.maxDepth = s.machine.maxDepth := congrArg Settings.maxDepth h.settings
  refine Machine.evaluate_eq_of_lockstep (h.stepsAlike hp) rfl hmax fun k hk hbad => ?_
  cases k with
  | entered viewer object name =>
    obtain ⟨rfl, hkey, hway⟩ := hbad
    obtain ⟨hv, hn⟩ := hclean viewer name hk hkey
    rcases hway with hway | rfl
    · exact Bool.false_ne_true (hv.symm.trans hway)
    · exact hn rfl
  | _ => exact hbad

end Recoded
end Database

namespace Machine

variable {m : Type → Type} [Monad m] [LawfulMonad m]

/-- The code of an indirect key that names no lock. -/
def probe (arg : Int32) : Bytes := [⟨.testIndirect, arg⟩, ⟨.ret, 0⟩].flatMap Bytecode.encodeInsn

theorem fetch_probe (arg : Int32) :
    Bytecode.fetch (probe arg) 0 = .ok ⟨.testIndirect, arg⟩ ∧
      Bytecode.fetch (probe arg) Bytecode.insnWidth = .ok ⟨.ret, 0⟩ := by
  have hfirst := Bytecode.fetch_flatMap [⟨.testIndirect, arg⟩, ⟨.ret, 0⟩] [] [] _ _ rfl
  have hsecond := Bytecode.fetch_flatMap [⟨.testIndirect, arg⟩, ⟨.ret, 0⟩] []
    [⟨.testIndirect, arg⟩] _ _ rfl
  rw [List.append_nil] at hfirst hsecond
  exact ⟨hfirst, hsecond⟩

theorem evaluate_probe (v : Machine m) (arg : Int32) (subject target : Dbref) :
    v.evaluate (some (probe arg)) subject target =
      Prod.fst <$> v.testIndirect (fun object code st => v.run code subject object st)
        subject target (operandObject arg) [] ⟨0, false⟩ := by
  obtain ⟨hfirst, hsecond⟩ := fetch_probe arg
  have hret (result : Bool) (st : EvalState) :
      v.verdictFrom (fun object code st => v.run code subject object st) (probe arg)
        subject target Bytecode.insnWidth result [] st = pure (.ok result, st) := by
    rw [v.verdictFrom_of_fetch hsecond]
    simp only [execute, pure_bind, resume]
  rw [evaluate, run_some, runCode, v.verdictFrom_of_fetch hfirst]
  simp only [execute, bind_assoc, pure_bind, resume, Nat.zero_add, hret, map_eq_pure_bind]

end Machine

namespace Database

variable {s s' : Store} {x : Dbref} {key : Bytes} {o : Object} {l : LockRecord} {ref : ChunkRef}

/-- The default lock is run, private or not, by an indirect key that names no lock. -/
theorem Recoded.evaluate_probe (h : Recoded s s' x key o l ref)
    (hkey : key = Bytes.toLower defaultLock) (hx : s.isValid x = true)
    (ho : o.locks.get? [] = none)
    (hmax : 0 < s.settings.maxDepth) {arg : Int32} (harg : Machine.operandObject arg = x)
    {code : LockCode} (hcode : s.codeOf x defaultLock l = .ok code) (subject target : Dbref) :
    s.machine.evaluate (some (Machine.probe arg)) subject target =
      Prod.fst <$> s.machine.run code subject x ⟨1, false⟩ := by
  have hread : s.canReadLock target x [] = true := by
    have hnone : o.lock? [] = none := ho
    simp only [Store.canReadLock, h.object, Option.any_some, hnone]
  have hlock : (s.findLock x []).code = .ok code := by
    have hsome : o.lock? defaultLock = some l := by rw [← h.lock, hkey]; rfl
    have hname : lockName [] = defaultLock := rfl
    simp only [Store.findLock, hname, h.object, hsome, hcode]
  have henter : s.machine.enter subject ⟨0, false⟩ = pure (true, ⟨1, false⟩) := if_pos hmax
  have hworld : s.machine.world = s.world := rfl
  rw [s.machine.evaluate_probe, harg, Machine.testIndirect]
  simp only [hworld, Store.world, hx, hread, hlock, henter, pure_bind, Except.mapError,
    Bool.not_true, Bool.false_eq_true, ↓reduceIte, map_bind, map_pure]
  exact bind_pure_comp _ _

/-- The code of a private lock makes no difference to an evaluation in which no key leads to the
lock from an object that oversees its holder, and none by the empty name. By the empty name,
everybody gets what a private default lock gives. -/
theorem Store.private_lock (h : Recoded s s' x key o l ref)
    (hp : l.flags.has .privately = true) :
    (∀ code subject target journal,
      (∀ viewer name,
        .entered viewer x name ∈ (s.machine.transcribe code subject target journal).1.2 →
          (lockName name).toLower = key → s.oversees viewer x = false ∧ name ≠ []) →
      s'.machine.evaluate code subject target journal =
        s.machine.evaluate code subject target journal) ∧
    (key = Bytes.toLower defaultLock → s.isValid x = true → o.locks.get? [] = none →
      0 < s.settings.maxDepth → ∀ arg code, Machine.operandObject arg = x →
      s.codeOf x defaultLock l = .ok code → ∀ subject target,
        s.machine.evaluate (some (Machine.probe arg)) subject target =
          Prod.fst <$> s.machine.run code subject x ⟨1, false⟩) := by
  constructor
  · intro code subject target journal hclean
    exact h.evaluate_eq hp hclean
  · intro hkey hx ho hmax arg code harg hcode subject target
    exact h.evaluate_probe hkey hx ho hmax harg hcode subject target

/-- A private default lock. -/
def vaultLock : LockRecord := ⟨defaultLock, 1, .privately, ⟨1⟩⟩

def vaultObject : Object := (Object.new 1 1).putLock vaultLock

def Store.vault (chunks : Chunk.Store) : Store :=
  ⟨.standard, (SortedMap.empty.insert 1 (.live vaultObject)).insert 2 (.live (Object.new 2 2)),
    .empty, chunks⟩

def vaultChunks (code : Bytes) : Chunk.Store :=
  ⟨.memory, .none, ⟨2⟩,
    SortedMap.empty.insert ⟨1⟩ ⟨.none, Int64.ofNat code.length, Digest.ofChunk code, some code⟩⟩

theorem Store.recoded_vault (chunks chunks' : Chunk.Store) :
    Recoded (vault chunks) (vault chunks') 1 (Bytes.toLower defaultLock) vaultObject
      vaultLock ⟨1⟩ where
  object := rfl
  lock := SortedMap.get?_insert_self _ _ _
  settings := rfl
  channels := rfl
  slots := by
    have hlocks :
        vaultObject.locks.insert (Bytes.toLower defaultLock) vaultLock = vaultObject.locks := by
      refine SortedMap.ext_get? fun k => ?_
      simp only [vaultObject, Object.putLock, SortedMap.get?_insert]
      split
      · rename_i hk
        exact (if_pos hk).symm
      · rfl
    change _ = (vault chunks).slots.insert 1 (.live { vaultObject with
      locks := vaultObject.locks.insert (Bytes.toLower defaultLock) vaultLock })
    rw [hlocks]
    rfl
  fetch := by
    intro d o k l ho hl hne
    have hslot : (vault chunks).slots.get? d = some (.live o) := by
      unfold get? at ho
      split at ho
      · cases ho
        assumption
      · cases ho
    rw [vault, SortedMap.get?_insert] at hslot
    split at hslot
    · cases hslot
      cases hl
    · rw [SortedMap.get?_insert] at hslot
      split at hslot
      · rename_i hd
        cases hslot
        refine absurd ?_ hne
        change (SortedMap.empty.insert (Bytes.toLower defaultLock) vaultLock).get? k =
          some l at hl
        rw [SortedMap.get?_insert] at hl
        split at hl
        · rename_i hk
          exact Prod.ext (Std.LawfulEqOrd.eq_of_compare hd) (Std.LawfulEqOrd.eq_of_compare hk)
        · cases hl
      · cases hslot

theorem fetch_vaultChunks (code : Bytes) (h : code.length ≤ maxChunkSize) :
    (vaultChunks code).fetch ⟨1⟩ = .ok (some code) := by
  have hsize : (Int64.ofNat code.length).toInt = code.length := by
    refine Int64.toInt_ofNat_of_lt ?_
    unfold maxChunkSize at h
    omega
  have hrange : ¬ ((code.length : Int) < 0 ∨ (maxChunkSize : Int) < code.length) := by omega
  have hunpack :
      (⟨.none, Int64.ofNat code.length, Digest.ofChunk code, some code⟩ : Packed).unpack =
      .ok (some code) := by
    simp only [Packed.unpack, Compression.decompress, hsize]
    rw [if_neg hrange]
    simp [Compression.none, Compression.ofSize, Except.mapError, bind, Except.bind, pure,
      Except.pure]
  have hget : (vaultChunks code).chunks.get? ⟨1⟩ = some _ := SortedMap.get?_insert_self _ _ _
  rw [Chunk.Store.fetch, hget]
  simp only [hunpack]
  rfl

theorem Store.codeOf_vault (code : Bytes) (h : code.length ≤ maxChunkSize) :
    (Store.vault (vaultChunks code)).codeOf 1 defaultLock vaultLock = .ok (some code) := by
  have hfetch : (vault (vaultChunks code)).chunks.fetch vaultLock.ref = .ok (some code) :=
    fetch_vaultChunks code h
  rw [codeOf, hfetch]
  rfl

/-- The code of a lock that everybody passes, or nobody. -/
def constantCode (passes : Bool) : Bytes := [4, if passes then 1 else 0, 0, 0, 0, 0, 0, 0, 0, 0]

/-- The code of `@#1/Basic`. -/
def knockCode : Bytes :=
  [3, 15, 0, 0, 0, 12, 1, 0, 0, 0, 0, 0, 0, 0, 0, 66, 97, 115, 105, 99, 0]

theorem Store.transcribe_vault (chunks : Chunk.Store) :
    (vault chunks).machine.transcribe (some knockCode) 2 2 [] =
      ((false, [.started 2, .reached 0, .reached 0, .answered false, .reached 0]), []) := by
  cbv

theorem run_constantCode {m : Type → Type} [Monad m] [LawfulMonad m] (v : Machine m)
    (passes : Bool) (subject target : Dbref) (st : EvalState) :
    v.run (some (constantCode passes)) subject target st = pure (passes, st) := by
  have hload : Bytecode.fetch (constantCode passes) 0 =
      .ok ⟨.loadResult, if passes then 1 else 0⟩ := by
    cases passes with
    | true => rfl
    | false => rfl
  have hret : Bytecode.fetch (constantCode passes) Bytecode.insnWidth = .ok ⟨.ret, 0⟩ := by
    cases passes with
    | true => rfl
    | false => rfl
  rw [v.run_some, Machine.runCode, v.verdictFrom_of_fetch hload]
  simp only [Machine.execute, pure_bind, Machine.resume, Nat.zero_add]
  rw [v.verdictFrom_of_fetch hret]
  simp only [Machine.execute, pure_bind, Machine.resume]
  cases passes with
  | true => rfl
  | false => rfl

def Store.constantVault (passes : Bool) : Store := vault (vaultChunks (constantCode passes))

theorem Store.probe_vault (passes : Bool) :
    (constantVault passes).machine.evaluate (some (Machine.probe 1)) 2 2 [] = (passes, []) := by
  have h :=
    recoded_vault (vaultChunks (constantCode passes)) (vaultChunks (constantCode passes))
  have hcode := codeOf_vault (constantCode passes) (by simp [constantCode, maxChunkSize])
  have hmax : 0 < defaultMaxDepth := by decide
  rw [constantVault, h.evaluate_probe rfl rfl rfl hmax rfl hcode 2 2, run_constantCode]
  rfl

/-- A stranger who knocks learns nothing, but one who leaves out the name gets in. -/
theorem Store.private_lock_vault :
    Recoded (constantVault true) (constantVault false) 1 (Bytes.toLower defaultLock) vaultObject
      vaultLock ⟨1⟩ ∧
    vaultLock.flags.has .privately = true ∧
    (constantVault false).machine.evaluate (some knockCode) 2 2 [] =
      (constantVault true).machine.evaluate (some knockCode) 2 2 [] ∧
    (constantVault true).machine.evaluate (some (Machine.probe 1)) 2 2 [] = (true, []) := by
  have h := recoded_vault (vaultChunks (constantCode true)) (vaultChunks (constantCode false))
  obtain ⟨hsame, hprobe⟩ := private_lock h rfl
  refine ⟨h, rfl, ?_, ?_⟩
  · refine hsame (some knockCode) 2 2 [] fun viewer name hk => ?_
    rw [transcribe_vault] at hk
    simp at hk
  · rw [constantVault, hprobe rfl rfl rfl (by decide) 1 (some (constantCode true)) rfl
      (codeOf_vault _ (by decide)) 2 2, run_constantCode]
    rfl

/-- Two databases that differ in the code of a private lock only, and a stranger who may not
read that lock but evaluates to another result in each. -/
theorem Store.private_lock_probed :
    Recoded (constantVault true) (constantVault false) 1 (Bytes.toLower defaultLock) vaultObject
      vaultLock ⟨1⟩ ∧
    vaultLock.flags.has .privately = true ∧
    ∀ passes, (constantVault passes).oversees 2 1 = false ∧
      (constantVault passes).canReadLock 2 1 defaultLock = false ∧
      (constantVault passes).machine.evaluate (some (Machine.probe 1)) 2 2 [] =
        (passes, []) := by
  refine ⟨recoded_vault _ _, rfl, fun passes => ⟨rfl, ?_, probe_vault passes⟩⟩
  have h :=
    recoded_vault (vaultChunks (constantCode passes)) (vaultChunks (constantCode passes))
  exact h.canReadLock_eq_false rfl rfl rfl

end Database
end Locksmith
