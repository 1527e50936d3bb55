import Locksmith.Proofs.Database.History
import Locksmith.Proofs.Database.Loading

namespace Locksmith
namespace Database

namespace Store

variable {s : Store} {d who : Dbref} {name : Bytes}

def isLocked (s : Store) (d : Dbref) (name : Bytes) : Bool :=
  (s.findLock d name).record.any (·.flags.has .locked)

theorem record_findLock (s : Store) (d : Dbref) (name : Bytes) :
    (s.findLock d name).record = s.record? d (lockName name).toLower := by
  rw [findLock]
  rcases hget : s.get? d with _ | o
  · rw [record?, kept?, hget]
    rfl
  · rw [record?_of_get? hget]
    dsimp only [Object.lock?]
    rcases o.locks.get? (lockName name).toLower with _ | l
    · rfl
    · rfl

theorem canSetLock_iff : s.canSetLock who d (lockName name) = true ↔
    s.controls who d = true ∧ (s.isLocked d name = true → s.isWizard who = true) := by
  have hrecord :
      (s.get? d).bind (·.lock? (lockName name)) = s.record? d (lockName name).toLower := by
    rcases hget : s.get? d with _ | o
    · rw [record?, kept?, hget]
      rfl
    · exact (record?_of_get? hget _).symm
  rw [canSetLock, Bool.and_eq_true, isLocked, record_findLock, hrecord]
  apply and_congr_right
  intro _
  rcases s.record? d (lockName name).toLower with _ | l
  · simp
  · rcases hlocked : l.flags.has .locked with _ | _
    · simp [hlocked]
    · simp [hlocked]

end Store

structure LockCall where
  player : Dbref
  object : Dbref
  name : Bytes
  source : Bytes
  flags : LockFlags

namespace LockCall

open Store

variable {σ : Session} {call : LockCall} {calls : List LockCall} {d : Dbref}
  {name : Bytes} {k : Nat}

def perform (σ : Session) (call : LockCall) : Session :=
  ((Db.setLockSource call.player call.object call.name call.source call.flags).run.run σ).2

def performAll (σ : Session) (calls : List LockCall) : Session := calls.foldl perform σ

/-- The lock that a call is about, without regard to case. -/
def About (call : LockCall) (d : Dbref) (name : Bytes) : Prop :=
  d = call.object ∧ (lockName name).toLower = (lockName call.name).toLower

/-- The player controls the object, and is a wizard if only wizards may change the lock. -/
def Permitted (call : LockCall) (s : Store) (d : Dbref) (name : Bytes) : Prop :=
  s.controls call.player d = true ∧ (s.isLocked d name = true → s.isWizard call.player = true)

theorem perform_cases (σ : Session) (call : LockCall) :
    (call.perform σ).store = σ.store ∨
      call.Permitted σ.store call.object call.name ∧
        Relocked σ.store call.object (lockName call.name) call.player call.flags
          (call.perform σ).store := by
  rcases Db.setLockSource_relocked call.player call.object call.name call.source call.flags
    σ rfl with
    hsame | ⟨hcan, hrelocked⟩
  · exact .inl hsame
  · exact .inr ⟨canSetLock_iff.1 hcan, hrelocked⟩

theorem perform_sameUnlocked (σ : Session) (call : LockCall) :
    SameUnlocked σ.store (call.perform σ).store := by
  rcases perform_cases σ call with hsame | ⟨-, hrelocked⟩
  · rw [hsame]
    exact .refl _
  · exact hrelocked.sameUnlocked

theorem perform_separate (h : σ.store.Separate (k + 1)) (call : LockCall) :
    (call.perform σ).store.Separate k := by
  rcases perform_cases σ call with hsame | ⟨-, hrelocked⟩
  · rw [hsame]
    exact h.mono (Nat.le_succ k)
  · exact hrelocked.separate h

/-- A lock changes only if the call is about it and permitted. -/
theorem perform_changes (h : σ.store.Separate k)
    (hchange : (call.perform σ).store.findLock d name ≠ σ.store.findLock d name) :
    call.About d name ∧ call.Permitted σ.store d name := by
  rcases perform_cases σ call with hsame | ⟨hpermitted, hrelocked⟩
  · exact absurd (by rw [hsame]) hchange
  · have habout : call.About d name := by
      by_contra hother
      exact hchange (hrelocked.findLock_eq h hother)
    refine ⟨habout, ?_⟩
    obtain ⟨rfl, hname⟩ := habout
    rwa [Permitted, isLocked, record_findLock, hname, ← record_findLock, ← isLocked]

theorem performAll_append (σ : Session) (before after : List LockCall) :
    performAll σ (before ++ after) = performAll (performAll σ before) after := List.foldl_append

theorem performAll_sameUnlocked (σ : Session) (calls : List LockCall) :
    SameUnlocked σ.store (performAll σ calls).store := by
  induction calls generalizing σ with
  | nil => exact .refl _
  | cons call rest ih => exact (perform_sameUnlocked σ call).trans (ih (call.perform σ))

theorem performAll_separate (h : σ.store.Separate (k + calls.length)) :
    (performAll σ calls).store.Separate k := by
  induction calls generalizing σ with
  | nil => exact h
  | cons call rest ih => exact ih (perform_separate h call)

/-- A lock stays as it is if no call of a run may change it as it is. -/
theorem performAll_findLock (h : σ.store.Separate calls.length)
    (hnot : ∀ call ∈ calls, ∀ s, SameUnlocked σ.store s →
      s.findLock d name = σ.store.findLock d name →
      ¬call.Permitted s d name) :
    (performAll σ calls).store.findLock d name = σ.store.findLock d name := by
  induction calls generalizing σ with
  | nil => rfl
  | cons call rest ih =>
    have hunlocked := perform_sameUnlocked σ call
    have hstep : (call.perform σ).store.findLock d name = σ.store.findLock d name := by
      by_contra hchange
      exact hnot call List.mem_cons_self σ.store (.refl _) rfl (perform_changes h hchange).2
    have hrest : (performAll (call.perform σ) rest).store.findLock d name =
        (call.perform σ).store.findLock d name := by
      apply ih (perform_separate h call)
      intro other hother s hs hsame
      exact hnot other (List.mem_cons_of_mem _ hother) s (hunlocked.trans hs)
        (hsame.trans hstep)
    exact hrest.trans hstep

end LockCall

theorem owned_loadInvariant {loose : List ChunkRef} : Db.LoadInvariant fun k s =>
  s.Owned loose k where
  mono _ _ _ h := h.mono (Nat.le_add_right _ _)
  add _ _ _ _ h _ hlocks hadd :=
    ((h.guarded fun _ _ => True).toKept.add hadd hlocks fun _ _ => trivial).owned
  move _ _ _ _ _ h hmove := ((h.guarded fun _ _ => True).toKept.move hmove).owned
  setLock k d name code creator flags := by
    refine .of_forall fun s h => ?_
    have hset : Db.Ensures (Store.Guarded (fun _ _ => True) s loose (k + 1))
        (Db.setLock d name code creator flags)
        fun _ => Store.Guarded (fun _ _ => True) s loose k :=
      Db.setLock_guarded trivial code creator flags
    refine hset.imp ?_ fun _ _ h => h.owned
    rintro s' rfl
    exact h.guarded _
  addChannel _ _ _ h := h.congr rfl h.numbered fun _ _ => rfl

namespace Operation

/-- A database into which the text of a world was loaded, whether that failed or not. -/
def loaded (settings : Settings) (c : Compression) (source : Bytes) : Session :=
  ((Db.loadText source).run.run (start settings c)).2

theorem performAll_separate (settings : Settings) (c : Compression) (source : Bytes)
    (ops : List Operation) (k : Nat)
    (hroom : lockCount source + demandAll (loaded settings c source) ops + k < 2 ^ 64 - 1) :
    (performAll (loaded settings c source) ops).store.Separate k := by
  have hstart :
      (start settings c).store.Owned []
      (demandAll (loaded settings c source) ops + k + lockCount source) :=
    Store.empty_owned settings c (by omega)
  have hloaded :
      (loaded settings c source).store.Owned []
      (demandAll (loaded settings c source) ops + k) :=
    Db.loadText_ensures owned_loadInvariant source _ hstart
  exact (performAll_owned ops hloaded).1.separate

end Operation

namespace LockCall

open Store

/-- Lock changes respect permissions over whole runs. In every database that is loaded and
worked on, no two lock records share a chunk. From there on, whatever calls are made: a call
changes a lock only if it is about that lock, its player controls the object and, where only
wizards may change the lock, is a wizard; the calls leave permissions as they are; a lock that
only wizards may change is the same for the rest of a run without wizards; and so are the locks
of an object that no player of the run controls. -/
theorem performAll_permitted :
    (∀ settings c source ops k,
      lockCount source + Operation.demandAll (Operation.loaded settings c source) ops + k <
        2 ^ 64 - 1 →
        (Operation.performAll (Operation.loaded settings c source) ops).store.Separate k) ∧
    ∀ (σ : Session) (calls : List LockCall), σ.store.Separate calls.length →
      (∀ before call after d name, calls = before ++ call :: after →
        (call.perform (performAll σ before)).store.findLock d name ≠
          (performAll σ before).store.findLock d name →
          call.About d name ∧ call.Permitted (performAll σ before).store d name) ∧
      (∀ who what, (performAll σ calls).store.controls who what = σ.store.controls who what ∧
        (performAll σ calls).store.isWizard who = σ.store.isWizard who) ∧
      (∀ before after d name, calls = before ++ after →
        (performAll σ before).store.isLocked d name = true →
        (∀ call ∈ after, σ.store.isWizard call.player = false) →
          (performAll σ calls).store.findLock d name =
            (performAll σ before).store.findLock d name) ∧
      ∀ d, (∀ call ∈ calls, σ.store.controls call.player d = false) →
        ∀ name, (performAll σ calls).store.findLock d name = σ.store.findLock d name := by
  refine ⟨Operation.performAll_separate, ?_⟩
  intro σ calls h
  have hframe := performAll_sameUnlocked σ
  refine ⟨?_, ?_, ?_, ?_⟩
  · rintro before call after d name rfl hchange
    rw [List.length_append, Nat.add_comm] at h
    exact perform_changes (performAll_separate h) hchange
  · intro who what
    exact ⟨(hframe calls).alike.controls who what, (hframe calls).alike.isWizard who⟩
  · rintro before after d name rfl hlocked hcallers
    rw [List.length_append, Nat.add_comm] at h
    rw [performAll_append]
    apply performAll_findLock (performAll_separate h)
    rintro call hcall s hs hsame ⟨-, hwizard⟩
    rw [isLocked, hsame, ← isLocked, hs.alike.isWizard, (hframe before).alike.isWizard,
      hcallers call hcall] at hwizard
    exact Bool.false_ne_true (hwizard hlocked)
  · intro d hcallers name
    apply performAll_findLock h
    rintro call hcall s hs - ⟨hcontrols, -⟩
    rw [hs.alike.controls, hcallers call hcall] at hcontrols
    cases hcontrols

/-- A thing of a player, with a lock that only wizards may change, and another player. -/
def guarding : List Operation :=
  [.add { Object.new 1 1 with type := .player } rfl,
    .add { Object.new 2 2 with type := .player } rfl, .add (.new 3 1) rfl,
    .setLock 3 "Use" (some "a") 1 .locked, .setLock 3 "" (some "b") 1 ⟨0⟩]

/-- The owner tries to free the lock under another spelling of its name and sets the other one,
and a stranger tries to set a lock. -/
def meddling : List LockCall :=
  [⟨1, 3, "USE", "", ⟨0⟩⟩, ⟨1, 3, "basic", "#1", ⟨0⟩⟩, ⟨2, 3, "", "#2", ⟨0⟩⟩]

theorem performAll_permitted_meddling :
    (Operation.performAll (Operation.start .standard .none) guarding).store.isLocked 3 "Use" =
      true ∧
      (performAll (Operation.performAll (Operation.start .standard .none) guarding)
        meddling).store.findLock 3 "Use" =
        (Operation.performAll (Operation.start .standard .none) guarding).store.findLock 3
        "Use" := by
  have hlocked :
      (Operation.performAll (Operation.start .standard .none) guarding).store.isLocked 3 "Use" =
        true := by
    decide
  have hroom :
      Operation.demandAll (Operation.start .standard .none) guarding + meddling.length <
        2 ^ 64 - 1 := by
    decide
  have hwizards : ∀ call ∈ meddling,
      (Operation.performAll (Operation.start .standard .none) guarding).store.isWizard
      call.player = false := by
    decide
  have hstart : (Operation.start .standard .none).store.Owned [] _ :=
    Store.empty_owned .standard .none hroom
  have hseparate := (Operation.performAll_owned guarding hstart).1.separate
  have hkept (σ : Session) (hσ : σ.store.Separate meddling.length)
      (hl : σ.store.isLocked 3 "Use" = true)
      (hw : ∀ call ∈ meddling, σ.store.isWizard call.player = false) :
      (performAll σ meddling).store.findLock 3 "Use" = σ.store.findLock 3 "Use" := by
    obtain ⟨-, -, hrest, -⟩ := performAll_permitted.2 σ meddling hσ
    exact hrest [] meddling 3 "Use" rfl hl hw
  exact ⟨hlocked, hkept _ hseparate hlocked hwizards⟩

end LockCall
end Database
end Locksmith
