import Locksmith.Proofs.Database.Handover
import Locksmith.Proofs.Database.Tasks

namespace Locksmith
namespace Database

variable {d : Dbref} {l : LockRecord} {others : List ChunkRef} {k : Nat}

namespace Task

open Store

variable {α β : Type} {puts retires : Dbref → Prop} {stake : Stake}
  {q : Except Error α → Stake → Prop}

def Ends (ok : α → Stake → Prop) (fail : Stake → Prop) : Except Error α → Stake → Prop
  | .ok a, stake => ok a stake
  | .error _, stake => fail stake

/-- Every step of a task is a handover, if others leave it its stake in between, and in the end
its outcome and its stake satisfy `q`. -/
def Ensures (puts retires : Dbref → Prop) (q : Except Error α → Stake → Prop) :
    Task α → Stake → Prop
  | done out, stake => q out stake
  | step f next, stake => ∀ (σ : Session) (others : List ChunkRef) (room : Nat),
      σ.store.Backs puts stake others (room + 1) →
        ∃ stake', Handover puts retires others room σ.store stake' (f σ).store ∧
          (next σ).Ensures puts retires q stake'

namespace Ensures

theorem imp {t : Task α} {q' : Except Error α → Stake → Prop}
    (h : t.Ensures puts retires q stake) (hq : ∀ out stake, q out stake → q' out stake) :
    t.Ensures puts retires q' stake := by
  induction t generalizing stake with
  | done out => exact hq out stake h
  | step f next ih =>
    intro σ others room hσ
    obtain ⟨stake', hstep, hnext⟩ := h σ others room hσ
    exact ⟨stake', hstep, ih σ hnext⟩

theorem bind {t : Task α} {g : α → Task β} {q' : Except Error β → Stake → Prop}
    (h : t.Ensures puts retires q stake)
    (hok : ∀ a stake, q (.ok a) stake → (g a).Ensures puts retires q' stake)
    (herror : ∀ e stake, q (.error e) stake → q' (.error e) stake) :
    (t >>= g).Ensures puts retires q' stake := by
  induction t generalizing stake with
  | done out =>
    cases out with
    | error e => exact herror e stake h
    | ok a => exact hok a stake h
  | step f next ih =>
    intro σ others room hσ
    obtain ⟨stake', hstep, hnext⟩ := h σ others room hσ
    exact ⟨stake', hstep, ih σ hnext⟩

theorem atomic {x : Db Error α}
    (h : ∀ s others room, s.Backs puts stake others (room + 1) →
      Db.Ensures (· = s) x fun out s' =>
      ∃ stake', Handover puts retires others room s stake' s' ∧ q out stake') :
    (atomic x).Ensures puts retires q stake := by
  intro σ others room hσ
  exact h σ.store others room hσ σ rfl

theorem each {γ : Type} {f : γ → Task Unit} {fail : Stake → Prop} (inv : List γ → Stake → Prop)
    (h : ∀ a rest stake, inv (a :: rest) stake →
      (f a).Ensures puts retires (Ends (fun _ => inv rest) fail) stake) (l : List γ)
      (hl : inv l stake) :
    (each f l).Ensures puts retires (Ends (fun _ => inv []) fail) stake := by
  induction l generalizing stake with
  | nil => exact hl
  | cons a rest ih =>
    apply (h a rest stake hl).bind
    · exact fun _ stake hstake => ih hstake
    · exact fun _ _ hstake => hstake

/-- A step that leaves the database as it is. -/
theorem look {x : Db Error α}
    (hx : ∀ s, Db.Ensures (· = s) x fun out s' => s' = s ∧ q out stake) :
    (Task.atomic x).Ensures puts retires q stake := by
  apply atomic
  intro s others room hs
  refine (hx s).imp (fun _ h => h) ?_
  rintro out s' ⟨rfl, hq⟩
  exact ⟨stake, hs.keep, hq⟩

theorem look_bind {x : Db Error α} {g : α → Task β} {q : Except Error β → Stake → Prop}
    (hx : ∀ s, Db.Ensures (· = s) x fun out s' => s' = s ∧ out.isOk = true)
    (h : ∀ a, (g a).Ensures puts retires q stake) :
    (Task.atomic x >>= g).Ensures puts retires q stake := by
  apply bind (q := Ends (fun _ stake' => stake' = stake) fun _ => False)
  · apply look
    intro s
    refine (hx s).imp (fun _ h => h) ?_
    rintro (_ | a) s' ⟨hs', hout⟩
    · cases hout
    · exact ⟨hs', rfl⟩
  · rintro a _ rfl
    exact h a
  · exact fun _ _ hfalse => hfalse.elim

theorem store_bind {g : Store → Task α} (h : ∀ s, (g s).Ensures puts retires q stake) :
    (Task.atomic Db.store >>= g).Ensures puts retires q stake :=
  look_bind (fun _ _ hσ => ⟨hσ, rfl⟩) h

theorem release {held : List ChunkRef} {bare : List Dbref}
    {q : Except Error Unit → Stake → Prop} (hq : q (.ok ()) ⟨held, bare⟩) :
    (release l).Ensures puts retires q ⟨l.ref :: held, bare⟩ := by
  apply atomic
  intro s others room hs
  apply Db.Ensures.store_bind
  rintro _ rfl
  apply Db.Ensures.putStore
  intro _ _
  exact ⟨_, hs.release, hq⟩

/-- A step that changes nothing if it fails. -/
theorem step {f : Store → Except Error (α × Store)} {ok : α → Stake → Prop}
    (h : ∀ s others room a s', s.Backs puts stake others (room + 1) → f s = .ok (a, s') →
      ∃ stake', Handover puts retires others room s stake' s' ∧ ok a stake') :
    (Task.atomic (Db.step f)).Ensures puts retires
      (Ends ok fun stake' => stake' = stake) stake := by
  apply atomic
  intro s others room hs
  apply Db.Ensures.step
  · rintro s a s' rfl hstep
    exact h s others room a s' hs hstep
  · rintro _ e rfl -
    exact ⟨stake, hs.keep, rfl⟩

/-- A new chunk is made, which is the task's own at first. -/
theorem make {f : Store → Except Chunk.Error (ChunkRef × Store)}
    (hf : ∀ s ref s', f s = .ok (ref, s') →
      ∃ p, ref = s.chunks.next ∧ s' = { s with chunks := (s.chunks.append p).2 })
      (g : Chunk.Error → Error) :
    (Task.atomic (Db.step fun s => (f s).mapError g)).Ensures puts retires
      (Ends (fun ref stake' => stake' = ⟨ref :: stake.chunks, stake.bare⟩) fun stake' =>
        stake' = stake) stake := by
  apply step
  intro s others room ref s' hs hstep
  rcases hout : f s with e | ⟨ref', s''⟩
  · rw [hout] at hstep
    cases hstep
  · rw [hout] at hstep
    cases hstep
    obtain ⟨p, rfl, rfl⟩ := hf s ref s' hout
    exact ⟨_, hs.append p, rfl⟩

end Ensures

/-- The task has no chunks left. -/
def Cleared : Except Error Unit → Stake → Prop :=
  Ends (fun _ stake => stake.chunks = []) fun stake => stake.chunks = []

variable {bare : List Dbref} {name : Bytes}

theorem freeLock_cleared : (freeLock d name).Ensures puts retires Cleared ⟨[], bare⟩ := by
  have htake : (atomic (Db.step (·.takeLock d name))).Ensures puts retires
      (Ends (fun old stake => stake = ⟨old.toList.map (·.ref), bare⟩) fun stake => stake =
        ⟨[], bare⟩) ⟨[], bare⟩ := by
    apply Ensures.step
    intro s others room old s' hs hstep
    unfold takeLock at hstep
    split at hstep
    · cases hstep
    · rename_i o ho
      cases hstep
      exact ⟨_, hs.take ho name, by rw [List.append_nil]⟩
  apply htake.bind
  · rintro old _ rfl
    cases old with
    | none => rfl
    | some l =>
      apply Ensures.look_bind
      · exact fun _ _ hσ => ⟨hσ, rfl⟩
      · exact fun _ => Ensures.release rfl
  · rintro e _ rfl
    rfl

theorem freeAllLocks_bare :
    (freeAllLocks d).Ensures puts retires
      (Ends (fun _ stake => stake = ⟨[], d :: bare⟩) fun stake => stake = ⟨[], bare⟩)
      ⟨[], bare⟩ := by
  have htake : (atomic (Db.step (·.takeLocks d))).Ensures puts retires
      (Ends (fun ls stake => stake = ⟨ls.map (·.ref), d :: bare⟩) fun stake => stake =
        ⟨[], bare⟩) ⟨[], bare⟩ := by
    apply Ensures.step
    intro s others room ls s' hs hstep
    unfold takeLocks at hstep
    split at hstep
    · cases hstep
    · rename_i o ho
      cases hstep
      exact ⟨_, hs.takeAll ho, by rw [List.append_nil]⟩
  apply htake.bind
  · rintro ls _ rfl
    apply Ensures.each (fun ls stake => stake = ⟨ls.map (·.ref), d :: bare⟩) _ ls rfl
    rintro l rest _ rfl
    exact Ensures.release rfl
  · exact fun _ _ hstake => hstake

/-- The chunks that are to be released after a record was put in place, or was not. -/
def owed (l : LockRecord) : Except Error (Option LockRecord) → List ChunkRef
  | .ok old => old.toList.map (·.ref)
  | .error _ => [l.ref]

theorem replaceLock_cleared (hputs : puts d) {announce : Db Error Unit}
    (hquiet : Db.Quiet announce) :
    (replaceLock d l announce).Ensures puts retires Cleared ⟨[l.ref], bare⟩ := by
  have hinstall : (atomic (install d l)).Ensures puts retires
      (Ends (fun out stake => stake = ⟨owed l out, bare⟩) fun _ => False) ⟨[l.ref], bare⟩ := by
    apply Ensures.atomic
    intro s others room hs
    apply Db.Ensures.store_bind
    rintro s rfl
    unfold installLock
    rcases ho : s.get? d with _ | o
    · apply Db.Ensures.pure
      rintro _ rfl
      exact ⟨_, hs.keep, rfl⟩
    · apply Db.Ensures.putStore_bind
      apply Db.Ensures.pure
      rintro _ rfl
      exact ⟨_, hs.install ho hputs, by rw [Ends, owed, List.append_nil]⟩
  apply hinstall.bind
  · rintro out _ rfl
    cases out with
    | error e =>
      apply Ensures.bind (q := Ends (fun _ stake => stake.chunks = []) fun _ => False)
      · exact Ensures.release rfl
      · exact fun _ _ hstake => hstake
      · exact fun _ _ hfalse => hfalse.elim
    | ok old =>
      apply Ensures.look_bind
      · intro s
        refine (hquiet (· = s)).imp (fun _ h => h) ?_
        rintro out s' ⟨rfl, hs'⟩
        exact ⟨hs', rfl⟩
      · intro _
        cases old with
        | none => rfl
        | some old => exact Ensures.release rfl
  · exact fun _ _ hfalse => hfalse.elim

theorem setLock_cleared {code : LockCode} (hputs : code.isSome = true → puts d)
    (creator : Dbref) (flags : LockFlags) :
    (setLock d name code creator flags).Ensures puts retires Cleared ⟨[], bare⟩ := by
  apply Ensures.store_bind
  intro s
  split
  · cases code with
    | none => exact freeLock_cleared
    | some code =>
      apply (Ensures.make (fun _ _ _ => appended_of_keepCode) _).bind
      · rintro ref _ rfl
        apply replaceLock_cleared (l := ⟨lockName name, creator, flags, ref⟩) (hputs rfl)
        exact Db.announceLock_quiet d (lockName name) ref (some code)
      · rintro e _ rfl
        rfl
  · rfl

theorem copyLock_cleared (hputs : puts d) (source : Dbref) :
    (copyLock source d l).Ensures puts retires Cleared ⟨[], bare⟩ := by
  unfold copyLock
  split
  · rfl
  · apply (Ensures.make (fun _ _ _ => appended_of_copyChunk) _).bind
    · rintro ref _ rfl
      exact replaceLock_cleared (l := { l with ref }) hputs fun _ => .pure fun _ h => ⟨rfl, h⟩
    · rintro e _ rfl
      rfl

theorem copyLocks_cleared (hputs : puts d) (source : Dbref) :
    (copyLocks source d).Ensures puts retires Cleared ⟨[], bare⟩ := by
  apply Ensures.store_bind
  intro s
  split
  · apply Ensures.store_bind
    intro s'
    apply Ensures.each (fun _ stake => stake.chunks = []) _ (s'.locks source) rfl
    rintro l _ ⟨_, bare⟩ rfl
    exact copyLock_cleared hputs source
  · rfl

theorem recycle_cleared (hretires : retires d) :
    (recycle d).Ensures puts retires Cleared ⟨[], bare⟩ := by
  apply freeAllLocks_bare.bind
  · rintro _ _ rfl
    apply Ensures.atomic
    intro s others room hs
    apply Db.Ensures.change
    · rintro _ s' rfl hchange
      split at hchange
      · cases hchange
      · rename_i o ho
        cases hchange
        exact ⟨_, hs.retire ho List.mem_cons_self hretires, rfl⟩
    · rintro _ e rfl -
      exact ⟨_, hs.keep, rfl⟩
  · rintro e _ rfl
    rfl

def rest (σ : Session) : Task α → Task α
  | done out => done out
  | step _ next => next σ

def after (σ : Session) : Task α → Session
  | done _ => σ
  | step f _ => f σ

def isDone : Task α → Bool
  | done _ => true
  | step _ _ => false

theorem Ensures.handover {t : Task α} (h : t.Ensures puts retires q stake) {σ : Session}
    (hσ : σ.store.Backs puts stake others (k + 1)) :
    ∃ stake', Handover puts retires others k σ.store stake' (t.after σ).store ∧
      (t.rest σ).Ensures puts retires q stake' := by
  cases t with
  | done out => exact ⟨stake, hσ.keep, h⟩
  | step f next => exact h σ others k hσ

end Task

theorem LockChange.task_cleared {puts retires : Dbref → Prop} (call : LockChange)
    (hputs : ∀ d, call.PutsOn d → puts d) (hretires : ∀ d, call = .recycle d → retires d) :
    call.task.Ensures puts retires Task.Cleared ⟨[], []⟩ := by
  cases call with
  | setLock d name code creator flags =>
    exact Task.setLock_cleared (fun hsome => hputs d ⟨rfl, hsome⟩) creator flags
  | freeLock d name => exact Task.freeLock_cleared
  | freeAllLocks d =>
    apply Task.freeAllLocks_bare.imp
    rintro (_ | _) _ rfl
    · rfl
    · rfl
  | copyLocks source d => exact Task.copyLocks_cleared (hputs d rfl) source
  | recycle d => exact Task.recycle_cleared (hretires d rfl)

/-- Some tasks at work on one database, and the lock records that got lost with their objects
meanwhile. -/
structure Crew where
  session : Session
  tasks : List (Task Unit)
  lost : List (Dbref × LockRecord)

namespace Crew

def start (σ : Session) (calls : List LockChange) : Crew := ⟨σ, calls.map (·.task), []⟩

def advance (c : Crew) (i : Nat) : Crew :=
  match c.tasks[i]? with
  | none => c
  | some t =>
    { session := t.after c.session
      tasks := c.tasks.set i (t.rest c.session)
      lost := c.session.store.stranded (t.after c.session).store ++ c.lost }

def run (c : Crew) (schedule : List Nat) : Crew := schedule.foldl advance c

variable {puts retires : Dbref → Prop}

/-- Each task has a stake, and the chunks without a record are those of the tasks and of lost
locks. -/
structure Sound (c : Crew) (puts retires : Dbref → Prop) (stakes : List Stake)
    (room : Nat) : Prop where
  tasks : List.Forall₂ (·.Ensures puts retires Task.Cleared ·) c.tasks stakes
  owned : c.session.store.Owned (stakes.flatMap (·.chunks) ++ c.lost.map (·.2.ref)) room
  bare : ∀ stake ∈ stakes, ∀ d ∈ stake.bare, ¬puts d → c.session.store.Bare d
  lost : ∀ x ∈ c.lost, puts x.1 ∧ retires x.1

theorem forall₂_set {α β : Type} {R : α → β → Prop} {as : List α} {bs : List β}
    (h : List.Forall₂ R as bs) {i : Nat} {a : α} (ha : as[i]? = some a) :
    ∃ b, bs[i]? = some b ∧ R a b ∧ ∀ a' b', R a' b' →
      List.Forall₂ R (as.set i a') (bs.set i b') := by
  induction h generalizing i with
  | nil => cases ha
  | cons hfirst hrest ih =>
    cases i with
    | zero =>
      cases ha
      exact ⟨_, rfl, hfirst, fun _ _ h => .cons h hrest⟩
    | succ i =>
      obtain ⟨b, hb, hab, hset⟩ := ih ha
      exact ⟨b, hb, hab, fun a' b' h => .cons hfirst (hset a' b' h)⟩

variable {c : Crew} {stakes : List Stake}

theorem Sound.advance (h : c.Sound puts retires stakes (k + 1)) (i : Nat) :
    ∃ stakes', (c.advance i).Sound puts retires stakes' k := by
  unfold Crew.advance
  rcases ht : c.tasks[i]? with _ | t
  · exact ⟨stakes, { h with owned := h.owned.mono (Nat.le_succ k) }⟩
  · obtain ⟨stake, hstake, hensures, hset⟩ := forall₂_set h.tasks ht
    obtain ⟨hi, rfl⟩ := List.getElem?_eq_some_iff.1 hstake
    -- The chunks of the other tasks and the lost ones stay as they are.
    have hothers : c.session.store.Backs puts stakes[i]
        ((stakes.eraseIdx i).flatMap (·.chunks) ++ c.lost.map (·.2.ref)) (k + 1) := by
      refine ⟨h.owned.perm ?_, h.bare _ (List.getElem_mem hi)⟩
      rw [← List.append_assoc, ← List.flatMap_cons]
      exact ((List.getElem_cons_eraseIdx_perm hi).symm.flatMap_right _).append_right _
    obtain ⟨stake', hstep, hnext⟩ := hensures.handover hothers
    refine ⟨stakes.set i stake', hset _ _ hnext, ?_, ?_, ?_⟩
    · have hstakes : (stakes.set i stake').flatMap (·.chunks) |>.Perm
          (stake'.chunks ++ (stakes.eraseIdx i).flatMap (·.chunks)) :=
        (List.set_perm_cons_eraseIdx hi stake').flatMap_right _
      apply hstep.backs.owned.perm
      rw [List.map_append]
      apply List.Perm.trans _ (hstakes.append_right _).symm
      rw [List.append_assoc]
      exact (List.perm_append_comm_assoc _ _ _).append_left _
    · intro stake hmem d hd hputs
      rcases List.mem_or_eq_of_mem_set hmem with hmem | rfl
      · exact hstep.bare d hputs (h.bare stake hmem d hd hputs)
      · exact hstep.backs.bare d hd hputs
    · intro x hx
      rcases List.mem_append.1 hx with hx | hx
      · exact hstep.lost x hx
      · exact h.lost x hx

theorem Sound.run (schedule : List Nat)
    (h : c.Sound puts retires stakes (schedule.length + k)) :
    ∃ stakes', (c.run schedule).Sound puts retires stakes' k := by
  induction schedule generalizing c stakes with
  | nil =>
    rw [List.length_nil, Nat.zero_add] at h
    exact ⟨stakes, h⟩
  | cons i rest ih =>
    rw [List.length_cons, Nat.add_right_comm] at h
    obtain ⟨stakes', hstep⟩ := h.advance i
    exact ih hstep

theorem start_sound {σ : Session} (calls : List LockChange) (h : σ.store.Owned [] k) :
    (start σ calls).Sound (fun d => ∃ call ∈ calls, call.PutsOn d) (fun d => .recycle d ∈ calls)
      (calls.map fun _ => ⟨[], []⟩) k := by
  constructor
  · apply List.forall₂_map_left_iff.2
    apply List.forall₂_map_right_iff.2
    apply List.forall₂_same.2
    intro call hcall
    apply call.task_cleared
    · exact fun d hputs => ⟨call, hcall, hputs⟩
    · rintro d rfl
      exact hcall
  · have hnil : (calls.map fun _ => (⟨[], []⟩ : Stake)).flatMap (·.chunks) = [] := by
      apply List.flatMap_eq_nil_iff.2
      intro stake hstake
      obtain ⟨_, -, rfl⟩ := List.mem_map.1 hstake
      rfl
    rw [hnil]
    exact h
  · intro stake hstake d hd
    obtain ⟨_, -, rfl⟩ := List.mem_map.1 hstake
    cases hd
  · exact List.forall_mem_nil _

theorem cleared_of_done {ts : List (Task Unit)}
    (h : List.Forall₂ (·.Ensures puts retires Task.Cleared ·) ts stakes)
    (hdone : ∀ t ∈ ts, t.isDone = true) : ∀ stake ∈ stakes, stake.chunks = [] := by
  induction h with
  | nil => exact List.forall_mem_nil _
  | @cons t stake ts stakes hfirst hrest ih =>
    obtain ⟨ht, hts⟩ := List.forall_mem_cons.1 hdone
    apply List.forall_mem_cons.2 ⟨?_, ih hts⟩
    cases t with
    | done out =>
      cases out with
      | error e => exact hfirst
      | ok a => exact hfirst
    | step f next => cases ht

/-- When calls that worked at the same time are all through, the chunks are those of the lock
records and those of locks that got lost: a call put them on an object that another one
recycled. If there are no two such calls, lock records and chunks belong to each other one to
one. -/
theorem run_holds {σ : Session} {calls : List LockChange} {schedule : List Nat}
    (hrun : (start σ calls).run schedule = c) (howned : σ.store.Owned [] schedule.length)
    (hdone : ∀ t ∈ c.tasks, t.isDone = true) :
    (∀ r, c.session.store.Holds r ↔
      (∃ d key l, c.session.store.record? d key = some l ∧ l.ref = r) ∨
        ∃ x ∈ c.lost, x.2.ref = r) ∧
    (∀ x ∈ c.lost, (∀ d key l, c.session.store.record? d key = some l → l.ref ≠ x.2.ref) ∧
      .recycle x.1 ∈ calls ∧ ∃ call ∈ calls, call.PutsOn x.1) ∧
    ((∀ d, .recycle d ∈ calls → ∀ call ∈ calls, ¬call.PutsOn d) →
      c.session.store.OneToOne) := by
  obtain ⟨stakes, hsound⟩ := (start_sound calls howned).run (k := 0) schedule
  rw [hrun] at hsound
  have howned := hsound.owned
  rw [List.flatMap_eq_nil_iff.2 (cleared_of_done hsound.tasks hdone), List.nil_append] at howned
  refine ⟨?_, ?_, ?_⟩
  · intro r
    constructor
    · intro hr
      apply (howned.owned r hr).symm.imp_right
      exact List.mem_map.1
    · rintro (⟨d, key, l, hl, rfl⟩ | ⟨x, hx, rfl⟩)
      · exact howned.held d key l hl
      · exact howned.looseHeld _ (List.mem_map_of_mem hx)
  · intro x hx
    obtain ⟨hputs, hrecycled⟩ := hsound.lost x hx
    refine ⟨?_, hrecycled, hputs⟩
    intro d key l hl href
    exact howned.free d key l hl (href ▸ List.mem_map_of_mem hx)
  · intro hapart
    have hnil : c.lost = [] := by
      apply List.eq_nil_iff_forall_not_mem.2
      intro x hx
      obtain ⟨⟨call, hcall, hputs⟩, hrecycled⟩ := hsound.lost x hx
      exact hapart x.1 hrecycled call hcall hputs
    rw [hnil] at howned
    exact howned.oneToOne

def shared : Session :=
  Operation.performAll (Operation.start .standard .none) Operation.settling

theorem shared_owned : shared.store.Owned [] 20 := by
  apply (Operation.performAll_owned _ _).1
  exact Store.empty_owned _ _ (by decide)

/-- A lock is copied onto an object and another one of that name is set there, while the source
is recycled. -/
theorem run_holds_shared :
    let calls : List LockChange :=
      [.copyLocks 1 0, .setLock 0 "BASIC" (some "c") 0 ⟨0⟩, .recycle 1]
    let c := (start shared calls).run [0, 1, 0, 1, 0, 2, 1, 0, 1, 0, 2, 1, 2, 2, 1, 0]
    c.session.store.isValid 1 = false ∧ c.session.store.chunks.size = 2 ∧
    c.session.store.OneToOne := by
  refine ⟨by decide +kernel, by decide +kernel, ?_⟩
  apply (run_holds rfl (shared_owned.mono (by decide)) (by decide +kernel)).2.2
  intro d hd call hcall hputs
  simp only [List.mem_cons, List.not_mem_nil, or_false, reduceCtorEq, false_or,
    LockChange.recycle.injEq] at hd hcall
  rw [hd] at hputs
  rcases hcall with rfl | rfl | rfl
  · exact absurd hputs (show (0 : Dbref) ≠ 1 by decide)
  · exact absurd hputs.1 (by decide)
  · exact hputs

/-- A lock is put on an object after its locks are freed and before it is marked as recycled:
the chunk of that lock stays, and no record has it. -/
theorem run_leaks :
    let calls : List LockChange := [.recycle 0, .setLock 0 "Use" (some "c") 0 ⟨0⟩]
    let c := (start shared calls).run [0, 0, 1, 1, 1, 1, 0]
    shared.store.Owned [] 6 ∧ (∀ t ∈ c.tasks, t.isDone = true) ∧ c.session.store.Holds ⟨3⟩ ∧
      ¬∀ r, c.session.store.Holds r ↔
      ∃ d key l, c.session.store.record? d key = some l ∧ l.ref = r := by
  intro calls c
  have hholds : c.session.store.Holds ⟨3⟩ := by
    rw [Store.Holds]
    decide +kernel
  have hrefs : ⟨3⟩ ∉ c.session.store.refs := by decide +kernel
  refine ⟨shared_owned.mono (by decide), by decide +kernel, hholds, ?_⟩
  intro hexact
  exact hrefs (Store.mem_refs.2 ((hexact ⟨3⟩).1 hholds))

end Crew
end Database
end Locksmith
