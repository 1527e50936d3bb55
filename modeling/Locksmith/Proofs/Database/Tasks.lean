import Locksmith.Proofs.Database.History

namespace Locksmith
namespace Database

/-- Work in steps. What is left after a step depends on what the step found. -/
inductive Task (α : Type) where
  | done (out : Except Error α)
  | step (f : Session → Session) (next : Session → Task α)

namespace Task

variable {α β : Type}

def andThen : Task α → (α → Task β) → Task β
  | done (.ok a), g => g a
  | done (.error e), _ => done (.error e)
  | step f next, g => step f fun σ => (next σ).andThen g

instance : Monad Task where
  pure a := done (.ok a)
  bind := andThen

def atomic (x : Db Error α) : Task α :=
  step (fun σ => (x.run.run σ).2) fun σ => done (x.run.run σ).1

def alone : Task α → Db Error α
  | done out => Db.ofExcept out
  | step f next => ExceptT.mk fun σ => (next σ).alone.run.run (f σ)

theorem alone_bind (t : Task α) (g : α → Task β) :
    (t >>= g).alone = t.alone >>= fun a => (g a).alone := by
  induction t with
  | done out =>
    cases out with
    | error e => rfl
    | ok a => rfl
  | step f next ih =>
    funext σ
    exact congrFun (ih σ) (f σ)

theorem alone_atomic (x : Db Error α) : (atomic x).alone = x := by
  funext σ
  change (Db.ofExcept (x.run.run σ).1).run.run (x.run.run σ).2 = x.run.run σ
  rcases x.run.run σ with ⟨_ | _, _⟩
  · rfl
  · rfl

def each {γ : Type} (f : γ → Task Unit) : List γ → Task Unit
  | [] => pure ()
  | a :: rest => do
    f a
    each f rest

theorem alone_each {γ : Type} (f : γ → Task Unit) (l : List γ) :
    (each f l).alone = (do for a in l do (f a).alone) := by
  induction l with
  | nil => rfl
  | cons a rest ih =>
    rw [each, alone_bind, List.forIn_cons]
    simp only [bind_assoc, pure_bind]
    apply bind_congr
    intro _
    exact ih

def release (l : LockRecord) : Task Unit := atomic (Db.release l)

def freeLock (d : Dbref) (name : Bytes) : Task Unit := do
  match ← atomic (Db.step (·.takeLock d name)) with
  | none => return
  | some l =>
    atomic (Db.log ⟨.debug, "lock freed",
      [("object", .object d), ("lock", .text l.name), ("chunk", .chunk l.ref)]⟩)
    release l

/-- Removes all locks from an object. Of the orders in which their chunks may be released one by
one, this is the order of the lock names. -/
def freeAllLocks (d : Dbref) : Task Unit := do
  each release (← atomic (Db.step (·.takeLocks d)))

/-- Puts a record in place; tells whether that failed, and which record was there. -/
def install (d : Dbref) (l : LockRecord) : Db Error (Except Error (Option LockRecord)) := do
  match (← Db.store).installLock d l with
  | .error e => return .error e
  | .ok (old, s) =>
    Db.putStore s
    return .ok old

/-- Puts a record in place whose chunk was just made, and releases the chunk of the one before.
-/
def replaceLock (d : Dbref) (l : LockRecord) (announce : Db Error Unit) : Task Unit := do
  match ← atomic (install d l) with
  | .error e =>
    release l
    done (.error e)
  | .ok old =>
    atomic announce
    match old with
    | none => return
    | some old => release old

def setLock (d : Dbref) (name : Bytes) (code : LockCode) (creator : Dbref) (flags : LockFlags) :
    Task Unit := do
  let name := lockName name
  if (← atomic Db.store).isValid d then
    match code with
    | none => freeLock d name
    | some _ =>
      let ref ← atomic (Db.step fun s => (s.keepCode code).mapError (.storing name d))
      replaceLock d ⟨name, creator, flags, ref⟩ (Db.announceLock d name ref code)
  else done (.error (.noObject d))

def copyLock (source d : Dbref) (l : LockRecord) : Task Unit := do
  if l.ref.isZero then return
  else
    let ref ← atomic (Db.step fun s => (s.copyChunk l.ref).mapError (.copying l.name source))
    replaceLock d { l with ref } (pure ())

def copyLocks (source d : Dbref) : Task Unit := do
  if (← atomic Db.store).isValid d then
    each (copyLock source d) ((← atomic Db.store).locks source)
  else done (.error (.noObject d))

def recycle (d : Dbref) : Task Unit := do
  freeAllLocks d
  atomic <| Db.change fun s =>
    match s.get? d with
    | none => .error (.nothingToMove d)
    | some o => .ok (s.retire o)

theorem alone_freeLock (d : Dbref) (name : Bytes) :
    (freeLock d name).alone = Db.freeLock d name := by
  rw [freeLock, alone_bind, alone_atomic, Db.freeLock]
  apply bind_congr
  intro old
  cases old with
  | none => rfl
  | some l =>
    rw [alone_bind, alone_atomic]
    rfl

theorem alone_freeAllLocks (d : Dbref) : (freeAllLocks d).alone = Db.freeAllLocks d := by
  rw [freeAllLocks, alone_bind, alone_atomic, Db.freeAllLocks]
  apply bind_congr
  intro ls
  rw [alone_each]
  rfl

theorem alone_replaceLock (d : Dbref) (l : LockRecord) (announce : Db Error Unit) :
    (replaceLock d l announce).alone = Db.replaceLock d l announce := by
  rw [replaceLock, alone_bind, alone_atomic, install, Db.replaceLock, bind_assoc]
  apply bind_congr
  intro s
  rcases s.installLock d l with e | ⟨old, s'⟩
  · rw [pure_bind, alone_bind]
    exact congrArg (· >>= _) (alone_atomic (Db.release l))
  · simp only [bind_assoc, pure_bind, alone_bind, alone_atomic]
    apply bind_congr
    intro _
    apply bind_congr
    intro _
    cases old with
    | none => rfl
    | some old => exact alone_atomic (Db.release old)

theorem alone_setLock (d : Dbref) (name : Bytes) (code : LockCode) (creator : Dbref)
    (flags : LockFlags) :
    (setLock d name code creator flags).alone = Db.setLock d name code creator flags := by
  unfold setLock Db.setLock
  rw [alone_bind, alone_atomic]
  apply bind_congr
  intro s
  cases s.isValid d with
  | false => rfl
  | true =>
    cases code with
    | none => exact alone_freeLock d (lockName name)
    | some code =>
      apply (alone_bind _ _).trans
      rw [alone_atomic]
      apply bind_congr
      intro ref
      exact alone_replaceLock d _ _

theorem alone_copyLock (source d : Dbref) (l : LockRecord) :
    (copyLock source d l).alone = Db.copyLock source d l := by
  unfold copyLock Db.copyLock
  cases l.ref.isZero with
  | true => rfl
  | false =>
    apply (alone_bind _ _).trans
    rw [alone_atomic]
    apply bind_congr
    intro ref
    exact alone_replaceLock d _ _

theorem alone_copyLocks (source d : Dbref) :
    (copyLocks source d).alone = Db.copyLocks source d := by
  -- Nobody comes between the two looks at the database, so the second one shows what the first
  -- one showed.
  have hlook (g : Store → Store → Db Error Unit) :
      (do g (← Db.store) (← Db.store)) = (do
        let s ← Db.store
        g s s) := rfl
  unfold copyLocks Db.copyLocks
  rw [alone_bind, alone_atomic]
  apply Eq.trans ?_ (hlook fun s s' =>
    if s.isValid d then (each (copyLock source d) (s'.locks source)).alone
    else throw (.noObject d)) |>.trans
  · apply bind_congr
    intro s
    cases s.isValid d with
    | false => rfl
    | true =>
      rw [alone_each]
      apply congrArg (fun f => forIn (s.locks source) PUnit.unit f >>= _)
      funext l _
      rw [alone_copyLock]
  · apply bind_congr
    intro s
    cases s.isValid d with
    | false => rfl
    | true => exact (alone_bind _ _).trans (congrArg (· >>= _) (alone_atomic Db.store))

theorem alone_recycle (d : Dbref) : (recycle d).alone = Db.recycle d := by
  rw [recycle, alone_bind, alone_atomic, alone_freeAllLocks]
  rfl

end Task

inductive LockChange where
  | setLock (d : Dbref) (name : Bytes) (code : LockCode) (creator : Dbref) (flags : LockFlags)
  | freeLock (d : Dbref) (name : Bytes)
  | freeAllLocks (d : Dbref)
  | copyLocks (source d : Dbref)
  | recycle (d : Dbref)
deriving DecidableEq

namespace LockChange

def work : LockChange → Db Error Unit
  | setLock d name code creator flags => Db.setLock d name code creator flags
  | freeLock d name => Db.freeLock d name
  | freeAllLocks d => Db.freeAllLocks d
  | copyLocks source d => Db.copyLocks source d
  | recycle d => Db.recycle d

def task : LockChange → Task Unit
  | setLock d name code creator flags => Task.setLock d name code creator flags
  | freeLock d name => Task.freeLock d name
  | freeAllLocks d => Task.freeAllLocks d
  | copyLocks source d => Task.copyLocks source d
  | recycle d => Task.recycle d

theorem alone_task (call : LockChange) : call.task.alone = call.work := by
  cases call with
  | setLock d name code creator flags => exact Task.alone_setLock d name code creator flags
  | freeLock d name => exact Task.alone_freeLock d name
  | freeAllLocks d => exact Task.alone_freeAllLocks d
  | copyLocks source d => exact Task.alone_copyLocks source d
  | recycle d => exact Task.alone_recycle d

/-- Whether a call puts locks on an object. -/
def PutsOn (d : Dbref) : LockChange → Prop
  | setLock x _ code _ _ => x = d ∧ code.isSome
  | copyLocks _ x => x = d
  | _ => False

end LockChange
end Database
end Locksmith
