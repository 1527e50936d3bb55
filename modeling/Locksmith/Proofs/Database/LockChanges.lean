import Locksmith.Proofs.Database.Ownership

namespace Locksmith
namespace Database
namespace Store

variable {s s' s₀ : Store} {d : Dbref} {name : Bytes} {l : LockRecord} {o : Object}
  {r : ChunkRef} {loose loose' : List ChunkRef} {k k' : Nat} {about : Dbref → Bytes → Prop}

/-- On the way from `s₀` the chunks stay owned, no lock but those that the change is about looks
different, and numbers that were retired stay so. -/
structure Kept (about : Dbref → Bytes → Prop) (s₀ : Store) (loose : List ChunkRef) (room : Nat)
    (s : Store) : Prop where
  owned : s.Owned loose room
  others : ∀ d name, ¬about d (lockName name).toLower → s.findLock d name = s₀.findLock d name
  retired : ∀ d, s₀.slots.get? d = some .retired → s.slots.get? d = some .retired

/-- No object comes or goes either. -/
structure Guarded (about : Dbref → Bytes → Prop) (s₀ : Store) (loose : List ChunkRef)
    (room : Nat) (s : Store) : Prop extends Kept about s₀ loose room s where
  created : ∀ d, (s.get? d).map (·.created) = (s₀.get? d).map (·.created)

theorem lockName_idem (name : Bytes) : lockName (lockName name) = lockName name := by
  simp only [lockName]
  split
  · rfl
  · rfl

theorem Owned.guarded (h : s.Owned loose k) (about : Dbref → Bytes → Prop) :
    Guarded about s loose k s :=
  ⟨⟨h, fun _ _ _ => rfl, fun _ h => h⟩, fun _ => rfl⟩

theorem Kept.step (h : Kept about s₀ loose k s) (howned : s'.Owned loose' k')
    (hkept : ∀ d key, ¬about d key → s'.kept? d key = s.kept? d key)
    (hchunk : ∀ d key l, s.record? d key = some l →
      s'.chunks.chunks.get? l.ref = s.chunks.chunks.get? l.ref)
    (hretired : ∀ d, s.slots.get? d = some .retired → s'.slots.get? d = some .retired) :
    Kept about s₀ loose' k' s' where
  owned := howned
  others d name hnot :=
  (findLock_congr (hkept d _ hnot) (hchunk d _)).trans (h.others d name hnot)
  retired d hd := hretired d (h.retired d hd)

theorem appended_of_keepCode {code : LockCode} (h : s.keepCode code = .ok (r, s')) :
    ∃ p, r = s.chunks.next ∧ s' = { s with chunks := (s.chunks.append p).2 } := by
  unfold keepCode Chunk.Store.create at h
  rcases hpack : Packed.pack s.chunks.compression code with e | p
  · rw [hpack] at h
    cases h
  · rw [hpack] at h
    cases h
    exact ⟨_, rfl, rfl⟩

theorem appended_of_copyChunk {r' : ChunkRef} (h : s.copyChunk r' = .ok (r, s')) :
    ∃ p, r = s.chunks.next ∧ s' = { s with chunks := (s.chunks.append p).2 } := by
  unfold copyChunk Chunk.Store.duplicate at h
  split at h
  · cases h
  · cases h
    exact ⟨_, rfl, rfl⟩

def without (s : Store) (r : ChunkRef) : Store :=
  { s with chunks.chunks := s.chunks.chunks.erase r }

theorem releaseChunk_eq (s : Store) {r : ChunkRef} (hr : r.isZero = false) :
    s.releaseChunk r = s.without r := by
  rw [releaseChunk, hr, without, Chunk.Store.delete]
  rcases hcontains : s.chunks.chunks.contains r with _ | _
  · rw [SortedMap.contains, Option.isSome_eq_false_iff, Option.isNone_iff_eq_none] at hcontains
    rw [SortedMap.erase_of_get? hcontains]
    rfl
  · rfl

theorem releaseChunk_comm (s : Store) (r r' : ChunkRef) :
    (s.releaseChunk r).releaseChunk r' = (s.releaseChunk r').releaseChunk r := by
  have hzero {r : ChunkRef} (h : r.isZero = true) (s : Store) : s.releaseChunk r = s := if_pos h
  cases hr : r.isZero with
  | true => rw [hzero hr, hzero hr]
  | false =>
    cases hr' : r'.isZero with
    | true => rw [hzero hr', hzero hr']
    | false =>
      rw [releaseChunk_eq _ hr, releaseChunk_eq _ hr', releaseChunk_eq _ hr,
        releaseChunk_eq _ hr']
      simp only [without, SortedMap.erase_comm _ r]

theorem get?_releaseChunk (s : Store) (r : ChunkRef) (d : Dbref) :
    (s.releaseChunk r).get? d = s.get? d := by
  unfold releaseChunk
  split
  · rfl
  · split
    · rfl
    · rfl

namespace Guarded

theorem mono (h : Guarded about s₀ loose k s) (hk : k' ≤ k) : Guarded about s₀ loose k' s :=
  { h with owned := h.owned.mono hk }

theorem append (h : Guarded about s₀ loose (k + 1) s) (p : Packed) :
    Guarded about s₀ (s.chunks.next :: loose) k { s with chunks := (s.chunks.append p).2 } where
  toKept := by
    refine h.step (h.owned.append p) (fun _ _ _ => rfl) ?_ fun _ hd => hd
    intro d key l hl
    refine SortedMap.get?_insert_of_ne _ _ fun href => ?_
    exact (h.owned.given _ (h.owned.held d key l hl)).2.ne (congrArg (·.num.toNat) href)
  created := h.created

theorem release (h : Guarded about s₀ (r :: loose) k s) :
    Guarded about s₀ loose k (s.releaseChunk r) := by
  have heq := h.owned.releaseChunk_eq (h.owned.looseHeld r List.mem_cons_self)
  have howned := h.owned.release
  rw [heq] at howned ⊢
  refine ⟨h.step howned (fun _ _ _ => rfl) ?_ fun _ hd => hd, h.created⟩
  intro d key l hl
  refine SortedMap.get?_erase_of_ne _ fun href => ?_
  exact h.owned.free d key l hl (href ▸ List.mem_cons_self)

/-- An object may be given other locks, of those that the change is about. -/
theorem modify (h : Guarded about s₀ loose k s) (ho : s.get? d = some o) {f : Object → Object}
    (hcreated : (f o).created = o.created)
    (hlocks : ∀ key, ¬about d key → (f o).locks.get? key = o.locks.get? key)
    (howned : (s.modify d f).Owned loose' k') : Guarded about s₀ loose' k' (s.modify d f) where
  toKept := by
    refine h.step howned ?_ ?_ fun d' hd' => retired_modify hd' d f
    · intro d' key hnot
      rw [kept?_modify ho]
      split
      · rename_i hd
        rw [hd] at hnot ⊢
        rw [kept?_of_get? ho, hlocks key hnot]
      · rfl
    · intro d' key l _
      rw [chunks_modify]
  created d' := by
    rw [← h.created d', get?_modify, ho]
    split
    · rename_i hd
      rw [hd, ho, Option.map_some, Option.map_some, Option.map_some, hcreated]
    · rfl

theorem take (h : Guarded about s₀ loose k s) (ho : s.get? d = some o)
    (habout : about d name.toLower) :
    Guarded about s₀ ((o.lock? name).toList.map (·.ref) ++ loose) k
      (s.modify d (·.dropLock name)) := by
  refine h.modify ho rfl ?_ (h.owned.take ho name)
  intro key hnot
  exact SortedMap.get?_erase_of_ne _ fun hkey => hnot (hkey ▸ habout)

theorem takeAll (h : Guarded about s₀ loose k s) (ho : s.get? d = some o)
    (habout : ∀ key, about d key) :
    Guarded about s₀ (o.locks.values.map (·.ref) ++ loose) k
      (s.modify d ({ · with locks := .empty })) :=
  h.modify ho rfl (fun key hnot => absurd (habout key) hnot) (h.owned.takeAll ho)

theorem install (h : Guarded about s₀ (l.ref :: loose) k s) (ho : s.get? d = some o)
    (habout : about d l.name.toLower) :
    Guarded about s₀ ((o.lock? l.name).toList.map (·.ref) ++ loose) k
      (s.modify d (·.putLock l)) := by
  refine h.modify ho rfl ?_ (h.owned.install ho)
  intro key hnot
  exact SortedMap.get?_insert_of_ne _ _ fun hkey => hnot (hkey ▸ habout)

end Guarded
end Store

namespace Db

open Store

variable {s₀ : Store} {d : Dbref} {name : Bytes} {l : LockRecord}
  {loose : List ChunkRef} {k : Nat} {about : Dbref → Bytes → Prop}

theorem release_guarded :
    Ensures (Guarded about s₀ (l.ref :: loose) k) (release l) fun _ =>
      Guarded about s₀ loose k :=
  .store_bind fun _ h => .putStore fun _ _ => h.release

theorem freeLock_guarded (habout : about d name.toLower) :
    Ensures (Guarded about s₀ loose k) (freeLock d name) fun _ => Guarded about s₀ loose k := by
  refine .bind (r := fun out => Guarded about s₀
    (match out with
      | .ok old => old.toList.map (·.ref) ++ loose
      | .error _ => loose) k) (.step ?_ ?_) ?_ ?_
  · intro s old s' h hstep
    unfold takeLock at hstep
    split at hstep
    · cases hstep
    · rename_i o ho
      cases hstep
      exact h.take ho habout
  · exact fun _ _ h _ => h
  · rintro (_ | l)
    · exact .pure fun _ h => h
    · exact .look_bind fun _ => release_guarded
  · exact fun _ _ h => h

/-- When all locks of an object are freed it is there without locks; the one failure is that it
is not there. -/
theorem freeAllLocks_guarded (habout : ∀ key, about d key) :
    Ensures (Guarded about s₀ loose k) (freeAllLocks d) fun out s =>
      Guarded about s₀ loose k s ∧
      match out with
      | .ok _ => ∃ o, s.get? d = some o ∧ o.locks = .empty
      | .error _ => s.get? d = none := by
  refine .bind (r := fun out s =>
    match out with
    | .ok ls =>
      Guarded about s₀ (ls.map (·.ref) ++ loose) k s ∧ ∃ o, s.get? d = some o ∧ o.locks = .empty
    | .error _ => Guarded about s₀ loose k s ∧ s.get? d = none) (.step ?_ ?_) ?_ ?_
  · intro s ls s' h hstep
    unfold takeLocks at hstep
    split at hstep
    · cases hstep
    · rename_i o ho
      cases hstep
      refine ⟨h.takeAll ho habout, { o with locks := .empty }, ?_, rfl⟩
      rw [get?_modify, if_pos rfl, ho, Option.map_some]
  · intro s e h hstep
    unfold takeLocks at hstep
    split at hstep
    · rename_i hnone
      exact ⟨h, hnone⟩
    · cases hstep
  · intro ls
    -- The chunks of the records that are still to be released are loose.
    refine (Ensures.forIn
      (fun ls s => Guarded about s₀ (ls.map (·.ref) ++ loose) k s ∧ ∃ o, s.get? d = some o ∧
        o.locks = .empty)
      (fun _ _ => False) ls ?_).imp (fun _ h => h) ?_
    · intro l rest
      refine .store_bind fun s h => .putStore fun _ _ => ⟨h.1.release, ?_⟩
      rw [get?_releaseChunk]
      exact h.2
    · rintro (_ | _) s h
      · exact h.elim
      · exact h
  · exact fun _ _ h => h

theorem forIn_release_perm {ls ls' : List LockRecord} (h : ls.Perm ls') :
    (do for l in ls do release l) = (do for l in ls' do release l) := by
  induction h with
  | nil => rfl
  | cons l h ih =>
    simp only [List.forIn_cons, bind_assoc, pure_bind]
    exact bind_congr fun _ => ih
  | swap l l' ls =>
    have hswap (rest : Db Error Unit) :
        (do release l'; release l; rest) = (do release l; release l'; rest) := by
      funext σ
      exact congrArg (fun s => rest.run.run { σ with store := s })
        (releaseChunk_comm σ.store l'.ref l.ref)
    simp only [List.forIn_cons, bind_assoc, pure_bind]
    exact hswap _
  | trans h h' ih ih' => exact ih.trans ih'

/-- The chunks of all locks can be released in any order. -/
theorem freeAllLocks_eq_of_perm {order : List LockRecord → List LockRecord}
    (h : ∀ ls, (order ls).Perm ls) (d : Dbref) :
    (do for l in order (← step (·.takeLocks d)) do release l) = freeAllLocks d :=
  bind_congr fun ls => forIn_release_perm (h ls)

/-- Work that only tells something. -/
def Quiet (x : Db Error Unit) : Prop :=
  ∀ p : Store → Prop, Ensures p x fun out s => out = .ok () ∧ p s

theorem announceLock_quiet (d : Dbref) (name : Bytes) (ref : ChunkRef) (code : LockCode) :
    Quiet (announceLock d name ref code) :=
  fun _ => .look_bind fun _ => .look fun _ _ h => ⟨rfl, h⟩

theorem replaceLock_guarded (habout : about d l.name.toLower) {announce : Db Error Unit}
    (hquiet : Quiet announce) :
    Ensures (Guarded about s₀ (l.ref :: loose) k) (replaceLock d l announce) fun _ =>
      Guarded about s₀ loose k := by
  refine .store_bind fun s h => ?_
  unfold installLock
  rcases ho : s.get? d with _ | o
  · refine .bind (r := fun _ => Guarded about s₀ loose k) ?_ ?_ fun _ _ h => h
    · exact release_guarded.imp (fun _ heq => heq ▸ h) fun _ _ h => h
    · exact fun _ => .throw fun _ h => h
  · have hinstalled := h.install ho habout
    refine .putStore_bind (.bind (hquiet _) ?_ ?_)
    · intro _
      rcases hold : o.lock? l.name with _ | old
      · rw [hold] at hinstalled
        exact .pure fun _ hs => hs.2 ▸ hinstalled
      · rw [hold] at hinstalled
        exact release_guarded.imp (fun _ hs => hs.2 ▸ hinstalled) fun _ _ h => h
    · rintro e s' ⟨hout, -⟩
      cases hout

/-- What is kept as a new chunk is loose at first. -/
theorem step_guarded {f : Store → Except Chunk.Error (ChunkRef × Store)}
    (hf : ∀ s ref s', f s = .ok (ref, s') →
      ∃ p, ref = s.chunks.next ∧ s' = { s with chunks := (s.chunks.append p).2 })
      (g : Chunk.Error → Error) :
    Ensures (Guarded about s₀ loose (k + 1)) (step fun s => (f s).mapError g) fun out =>
      match out with
      | .ok ref => Guarded about s₀ (ref :: loose) k
      | .error _ => Guarded about s₀ loose k := by
  refine .step ?_ ?_
  · intro s ref s' h hstep
    rcases hout : f s with e | ⟨ref', s''⟩
    · rw [hout] at hstep
      cases hstep
    · rw [hout] at hstep
      cases hstep
      obtain ⟨p, rfl, rfl⟩ := hf s ref s' hout
      exact h.append p
  · exact fun _ _ h _ => h.mono (Nat.le_succ k)

theorem setLock_guarded (habout : about d (lockName name).toLower) (code : LockCode)
    (creator : Dbref) (flags : LockFlags) :
    Ensures (Guarded about s₀ loose (k + 1)) (setLock d name code creator flags) fun _ =>
      Guarded about s₀ loose k := by
  refine .store_bind fun s h => .ite (fun _ => ?_) fun _ => ?_
  · exact .throw fun _ heq => heq ▸ h.mono (Nat.le_succ k)
  · rcases code with _ | code
    · exact (freeLock_guarded habout).imp (fun _ heq => heq ▸ h.mono (Nat.le_succ k))
        fun _ _ h => h
    · refine .bind ((step_guarded (fun _ _ _ => appended_of_keepCode) _).imp
        (fun _ heq => heq ▸ h) fun _ _ h => h) ?_ fun _ _ h => h
      intro ref
      exact replaceLock_guarded (l := ⟨lockName name, creator, flags, ref⟩) habout
        (announceLock_quiet d _ ref _)

theorem setLockSource_guarded (habout : about d (lockName name).toLower) (player : Dbref)
    (source : Bytes) (flags : LockFlags) :
    Ensures (Guarded about s₀ loose (k + 1)) (setLockSource player d name source flags) fun _ =>
      Guarded about s₀ loose k := by
  refine .store_bind fun s h => .ite (fun _ => ?_) fun _ => ?_
  · exact .throw fun _ heq => heq ▸ h.mono (Nat.le_succ k)
  · rcases s.compiler.compile source player (lockName name) with e | code
    · exact .throw fun _ heq => heq ▸ h.mono (Nat.le_succ k)
    · refine .bind (r := fun _ => Guarded about s₀ loose k) ?_ (fun _ => .look fun _ _ h => h)
        fun _ _ h => h
      have hname : about d (lockName (lockName name)).toLower := by rwa [lockName_idem]
      exact (setLock_guarded hname code player flags).imp (fun _ heq => heq ▸ h) fun _ _ h => h

theorem copyLock_guarded (habout : about d l.name.toLower) (source : Dbref) :
    Ensures (Guarded about s₀ loose (k + 1)) (copyLock source d l) fun _ =>
      Guarded about s₀ loose k := by
  refine .ite (fun _ => ?_) fun _ => ?_
  · exact .pure fun _ h => h.mono (Nat.le_succ k)
  · refine .bind (step_guarded (fun _ _ _ => appended_of_copyChunk) _) ?_ fun _ _ h => h
    intro ref
    exact replaceLock_guarded (l := { l with ref }) habout fun _ => .pure fun _ h => ⟨rfl, h⟩

theorem copyLocks_guarded {source : Dbref} {s : Store}
    (habout : ∀ l ∈ s.locks source, about d l.name.toLower)
    (h : Guarded about s₀ loose (k + (s.locks source).length) s) :
    Ensures (· = s) (copyLocks source d) fun _ => Guarded about s₀ loose k := by
  refine .store_bind fun s' heq => ?_
  cases heq
  refine .ite (fun _ => ?_) fun _ => ?_
  · exact .throw fun _ heq => heq ▸ h.mono (Nat.le_add_right _ _)
  · -- Each lock that is still to be copied may ask for one more chunk.
    refine (Ensures.forIn
      (fun ls s => (∀ l ∈ ls, about d l.name.toLower) ∧
        Guarded about s₀ loose (k + ls.length) s)
      (fun _ => Guarded about s₀ loose k) (s.locks source) ?_).imp ?_ ?_
    · intro l rest
      refine .of_forall fun s' hs' => ?_
      have hl : about d l.name.toLower := hs'.1 l List.mem_cons_self
      refine (copyLock_guarded hl source).imp (fun _ heq => heq ▸ hs'.2) ?_
      rintro (_ | _) s'' h
      · exact h.mono (Nat.le_add_right _ _)
      · exact ⟨fun l hl => hs'.1 l (List.mem_cons_of_mem _ hl), h⟩
    · rintro s' rfl
      exact ⟨habout, h⟩
    · rintro (_ | _) s' h
      · exact h
      · exact h.2

theorem restoreEntry_guarded {e : SnapshotEntry}
    (habout : (s₀.get? e.object).any (·.created = e.created) = true →
      about e.object (lockName e.name).toLower) :
    Ensures (Guarded about s₀ loose (k + 1)) (restoreEntry e) fun _ =>
      Guarded about s₀ loose k := by
  refine .store_bind fun s h => .ite (fun hsame => ?_) fun _ => ?_
  · rcases e.code.unpack with c | code
    · exact .throw fun _ heq => heq ▸ h.mono (Nat.le_succ k)
    · have hthere : (s₀.get? e.object).any (·.created = e.created) = true := by
        have := congrArg (Option.any (· = e.created)) (h.created e.object)
        rw [Option.any_map, Option.any_map] at this
        exact this.symm.trans hsame
      refine .bind (r := fun _ => Guarded about s₀ loose k) ?_ (fun _ => .pure fun _ h => h)
        fun _ _ h => h
      exact (setLock_guarded (habout hthere) code e.creator e.flags).imp (fun _ heq => heq ▸ h)
        fun _ _ h => h
  · exact .look_bind fun _ => .pure fun _ heq => heq ▸ h.mono (Nat.le_succ k)

theorem restoreEntries_guarded {es : List SnapshotEntry} (count : Nat) {σ : Session}
    (habout : ∀ e ∈ es, (s₀.get? e.object).any (·.created = e.created) = true →
      about e.object (lockName e.name).toLower)
    (h : Guarded about s₀ loose (k + es.length) σ.store) :
    Guarded about s₀ loose k ((restoreEntries count es).run σ).2.store := by
  induction es generalizing count σ with
  | nil => exact h
  | cons e rest ih =>
    have hfirst := restoreEntry_guarded (habout e List.mem_cons_self) σ h
    have hrest := fun e he => habout e (List.mem_cons_of_mem _ he)
    rw [restoreEntries, StateT.run_bind]
    rcases hout : (restoreEntry e).run.run σ with ⟨err | restored, σ'⟩
    · rw [hout] at hfirst
      exact hfirst.mono (Nat.le_add_right _ _)
    · rw [hout] at hfirst
      cases restored with
      | true => exact ih (count + 1) hrest hfirst
      | false => exact ih count hrest hfirst

theorem restoreSnapshot_guarded {key : Option Bytes} {raw : Bytes} {σ : Session}
    (habout : ∀ es, readEntries key raw = .ok es →
      ∀ e ∈ es, (s₀.get? e.object).any (·.created = e.created) = true →
      about e.object (lockName e.name).toLower)
    (h : Guarded about s₀ loose (k + match readEntries key raw with
      | .ok es => es.length
      | .error _ => 0) σ.store) :
    Guarded about s₀ loose k ((restoreSnapshot key raw).run σ).2.store := by
  unfold restoreSnapshot
  rcases hread : readEntries key raw with e | es
  · rw [hread] at h
    exact h
  · rw [hread] at h
    have hrestored := restoreEntries_guarded 0 (habout es hread) h
    simp only [StateT.run_bind]
    rcases hout : (restoreEntries 0 es).run σ with ⟨⟨count, _ | failure⟩, σ'⟩
    · rw [hout] at hrestored
      exact hrestored
    · rw [hout] at hrestored
      exact hrestored

end Db
end Database
end Locksmith
