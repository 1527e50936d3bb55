import Locksmith.Proofs.Database.LockPlacing

namespace Locksmith
namespace Database
namespace Store

variable {s s' : Store} {d : Dbref} {o : Object} {l : LockRecord} {r : ChunkRef}

/-- Every lock record has a name, and every chunk can be read. -/
structure Intact (s : Store) : Prop where
  named : ∀ d key l, s.record? d key = some l → l.name ≠ []
  readable : ∀ r p, s.chunks.chunks.get? r = some p → ∃ data, p.Holds data

namespace Intact

theorem of_records (h : s.Intact) (hchunks : s'.chunks = s.chunks)
    (hrec : ∀ d key l, s'.record? d key = some l → l.name ≠ [] ∨ s.record? d key = some l) :
    s'.Intact where
  named d key l hl := by
    rcases hrec d key l hl with hname | hl
    · exact hname
    · exact h.named d key l hl
  readable := by
    rw [hchunks]
    exact h.readable

theorem modify (h : s.Intact) (d : Dbref) {f : Object → Object}
    (hf : ∀ o key l, (f o).locks.get? key = some l → l.name ≠ [] ∨ o.locks.get? key = some l) :
    (s.modify d f).Intact := by
  apply h.of_records (chunks_modify s d f)
  intro d' key l hl
  obtain ⟨o', ho', hl⟩ := get?_of_record? hl
  rw [get?_modify] at ho'
  split at ho'
  · rename_i hd
    obtain ⟨o, ho, rfl⟩ := Option.map_eq_some_iff.1 ho'
    rw [hd, record?_of_get? ho]
    exact hf o key l hl
  · right
    rw [record?_of_get? ho', hl]

theorem edit (h : s.Intact) (d : Dbref) (f : Object → Object)
    (hf : ∀ o, (f o).locks = o.locks) : (s.modify d f).Intact := by
  apply h.modify d
  intro o key l hl
  rw [hf] at hl
  exact .inr hl

theorem putLock (h : s.Intact) (d : Dbref) (hl : l.name ≠ []) :
    (s.modify d (·.putLock l)).Intact := by
  apply h.modify d
  intro o key l' hl'
  by_cases hkey : key = l.name.toLower
  · rw [Object.putLock, hkey, SortedMap.get?_insert_self] at hl'
    cases hl'
    exact .inl hl
  · rw [Object.putLock, SortedMap.get?_insert_of_ne _ _ hkey] at hl'
    exact .inr hl'

theorem dropLock (h : s.Intact) (d : Dbref) (name : Bytes) :
    (s.modify d (·.dropLock name)).Intact := by
  apply h.modify d
  intro o key l hl
  rw [Object.dropLock, SortedMap.get?_erase] at hl
  split at hl
  · cases hl
  · exact .inr hl

theorem clear (h : s.Intact) (d : Dbref) :
    (s.modify d ({ · with locks := .empty })).Intact := by
  apply h.modify d
  intro o key l hl
  cases hl

theorem append (h : s.Intact) {p : Packed} {data : Option Bytes} (hp : p.Holds data) :
    { s with chunks := (s.chunks.append p).2 }.Intact where
  named := h.named
  readable r q hq := by
    by_cases hr : r = s.chunks.next
    · rw [hr, Chunk.Store.append, SortedMap.get?_insert_self] at hq
      cases hq
      exact ⟨data, hp⟩
    · rw [Chunk.Store.append, SortedMap.get?_insert_of_ne _ _ hr] at hq
      exact h.readable r q hq

theorem release (h : s.Intact) (r : ChunkRef) : (s.releaseChunk r).Intact := by
  unfold releaseChunk
  split
  · exact h
  · unfold Chunk.Store.delete
    split
    · rename_i hdelete
      split at hdelete
      · cases hdelete
        constructor
        · exact h.named
        · intro r' p hp
          rw [SortedMap.get?_erase] at hp
          split at hp
          · cases hp
          · exact h.readable r' p hp
      · cases hdelete
    · exact h

/-- A number comes to stand for something that has no locks. -/
theorem fill (h : s.Intact) (d : Dbref) {slot : Slot}
    (hlocks : ∀ o, slot = .live o → o.locks = .empty) :
    { s with slots := s.slots.insert d slot }.Intact := by
  refine h.of_records rfl fun d' key l hl => ?_
  obtain ⟨o, ho, hkey⟩ := get?_of_record? hl
  by_cases hd : d' = d
  · rw [get?, hd, SortedMap.get?_insert_self] at ho
    rcases slot with o' | _
    · cases ho
      rw [hlocks o rfl] at hkey
      cases hkey
    · cases ho
  · rw [get?, SortedMap.get?_insert_of_ne _ _ hd] at ho
    right
    rw [record?_of_get? ho, hkey]

theorem add (h : s.Intact) (hadd : s.add o = .ok s') (hlocks : o.locks = .empty) :
    s'.Intact := by
  obtain ⟨-, -, rfl⟩ := add_eq_ok.1 hadd
  apply h.fill
  intro o' ho'
  cases ho'
  exact hlocks

theorem move (h : s.Intact) {dest : Dbref} (hmove : s.move d dest = .ok s') : s'.Intact := by
  obtain ⟨o, -, -, -, rfl⟩ := move_eq_ok hmove
  have hout := h.edit o.location (·.dropItem d) fun _ => rfl
  have hmoved := hout.edit d ({ · with location := dest }) fun _ => rfl
  exact hmoved.edit dest (·.addItem d) fun _ => rfl

theorem retire (h : s.Intact) (o : Object) : (s.retire o).Intact := by
  have hout (contents : List Dbref) {s : Store} (h : s.Intact) :
      (contents.foldl (fun s c => s.modify c ({ · with location := .nothing })) s).Intact := by
    induction contents generalizing s with
    | nil => exact h
    | cons c rest ih => exact ih (h.edit c ({ · with location := .nothing }) fun _ => rfl)
  apply (hout o.contents (h.edit o.location (·.dropItem o.id) fun _ => rfl)).fill
  intro o' ho'
  cases ho'

end Intact
end Store

namespace Db

open Store

variable {ε α β : Type} {inv : Store → Prop}

/-- Work keeps what holds of the database, whether it fails or not. -/
def Keeps (inv : Store → Prop) (x : Db ε α) : Prop := Ensures inv x fun _ => inv

namespace Keeps

theorem pure (a : α) : Keeps inv (Pure.pure a : Db ε α) := Ensures.pure fun _ h => h

theorem throw (e : ε) : Keeps inv (MonadExcept.throw e : Db ε α) := Ensures.throw fun _ h => h

theorem look (f : Store → Journaled α) : Keeps inv (Db.look f : Db ε α) :=
  Ensures.look fun _ _ h => h

theorem bind {x : Db ε α} {f : α → Db ε β} (hx : Keeps inv x) (hf : ∀ a, Keeps inv (f a)) :
    Keeps inv (x >>= f) :=
  Ensures.bind hx hf fun _ _ h => h

theorem store_bind {f : Store → Db ε β} (h : ∀ s, inv s → Keeps inv (f s)) :
    Keeps inv (Db.store >>= f) := by
  apply Ensures.store_bind
  intro s hs
  refine (h s hs).imp ?_ fun _ _ h => h
  rintro s' rfl
  exact hs

theorem putStore {s : Store} (h : inv s) : Keeps inv (Db.putStore s : Db ε Unit) :=
  Ensures.putStore fun _ _ => h

theorem ite {c : Prop} [Decidable c] {x y : Db ε α} (hx : Keeps inv x) (hy : Keeps inv y) :
    Keeps inv (if c then x else y) := Ensures.ite (fun _ => hx) fun _ => hy

theorem step {f : Store → Except ε (α × Store)}
    (h : ∀ s a s', inv s → f s = .ok (a, s') → inv s') :
    Keeps inv (Db.step f) := Ensures.step h fun _ _ hs _ => hs

theorem change {f : Store → Except ε Store} (h : ∀ s s', inv s → f s = .ok s' → inv s') :
    Keeps inv (Db.change f) :=
  Ensures.change h fun _ _ hs _ => hs

theorem forIn {γ : Type} {f : γ → Db ε Unit} {l : List γ} (h : ∀ a ∈ l, Keeps inv (f a)) :
    Keeps inv (do for a in l do f a) := by
  induction l with
  | nil => exact .pure _
  | cons a rest ih =>
    rw [List.forIn_cons]
    simp only [bind_assoc, pure_bind]
    exact .bind (h a List.mem_cons_self) fun _ => ih fun b hb => h b (List.mem_cons_of_mem _ hb)

end Keeps

variable {d : Dbref} {name : Bytes} {l : LockRecord}

theorem release_intact (l : LockRecord) : Keeps Intact (release l) :=
  .store_bind fun _ h => .putStore (h.release l.ref)

theorem freeLock_intact (d : Dbref) (name : Bytes) : Keeps Intact (freeLock d name) := by
  apply Keeps.bind
  · apply Keeps.step
    intro s old s' h hstep
    unfold takeLock at hstep
    split at hstep
    · cases hstep
    · cases hstep
      exact h.dropLock d name
  · rintro (_ | l)
    · exact .pure _
    · exact .bind (.look _) fun _ => release_intact l

theorem freeAllLocks_intact (d : Dbref) : Keeps Intact (freeAllLocks d) := by
  apply Keeps.bind
  · apply Keeps.step
    intro s old s' h hstep
    unfold takeLocks at hstep
    split at hstep
    · cases hstep
    · cases hstep
      exact h.clear d
  · exact fun ls => .forIn fun l _ => release_intact l

theorem replaceLock_intact (hl : l.name ≠ []) {announce : Db Error Unit}
    (hquiet : Quiet announce) (d : Dbref) :
    Keeps Intact (replaceLock d l announce) := by
  apply Keeps.store_bind
  intro s h
  unfold installLock
  rcases s.get? d with _ | o
  · exact .bind (release_intact l) fun _ => .throw _
  · apply Keeps.bind (.putStore (h.putLock d hl))
    intro _
    apply Keeps.bind
    · exact (hquiet Intact).imp (fun _ h => h) fun _ _ h => h.2
    · intro _
      rcases o.lock? l.name with _ | old
      · exact .pure _
      · exact release_intact old

theorem lockName_ne_nil (name : Bytes) : lockName name ≠ [] := by
  rw [lockName]
  split
  · decide
  · rename_i hname
    rwa [List.isEmpty_iff] at hname

theorem setLock_intact (d : Dbref) (name : Bytes) (code : LockCode) (creator : Dbref)
    (flags : LockFlags) :
    Keeps Intact (setLock d name code creator flags) := by
  refine .store_bind fun s _ => .ite (.throw _) ?_
  rcases code with _ | code
  · exact freeLock_intact d _
  · apply Keeps.bind
    · apply Keeps.step
      intro s ref s' h hstep
      rcases hcreate : s.chunks.create (some code) with e | x
      · rw [keepCode, hcreate] at hstep
        cases hstep
      · rw [keepCode, hcreate] at hstep
        obtain ⟨p, hp, rfl⟩ := Chunk.Store.append_of_create hcreate
        cases hstep
        exact h.append hp
    · intro ref
      apply replaceLock_intact _ (announceLock_quiet d _ ref _)
      exact lockName_ne_nil name

theorem setLockSource_intact (player d : Dbref) (name source : Bytes) (flags : LockFlags) :
    Keeps Intact (setLockSource player d name source flags) := by
  refine .store_bind fun s _ => .ite (.throw _) ?_
  rcases s.compiler.compile source player (lockName name) with e | code
  · exact .throw _
  · exact .bind (setLock_intact d _ code player flags) fun _ => .look _

theorem copyLock_intact (hl : l.name ≠ []) (source d : Dbref) :
    Keeps Intact (copyLock source d l) := by
  refine .ite (.pure _) ?_
  apply Keeps.bind
  · apply Keeps.step
    intro s ref s' h hstep
    rcases hcopy : s.chunks.duplicate l.ref with e | x
    · rw [copyChunk, hcopy] at hstep
      cases hstep
    · rw [copyChunk, hcopy] at hstep
      obtain ⟨p, p', hp, hcopied, rfl⟩ := Chunk.Store.append_of_duplicate hcopy
      obtain ⟨data, hdata⟩ := h.readable _ p hp
      cases hstep
      exact h.append (hcopied data hdata)
  · intro ref
    exact replaceLock_intact (l := { l with ref }) hl (fun _ => .pure fun _ h => ⟨rfl, h⟩) d

theorem mem_locks {s : Store} : l ∈ s.locks d ↔ ∃ key, s.record? d key = some l := by
  rw [locks]
  rcases hget : s.get? d with _ | o
  · simp [record?, kept?, hget]
  · simp only [Option.map_some, Option.getD_some, Object.lockRecords, List.mem_mergeSort,
      SortedMap.mem_values, record?_of_get? hget]

theorem copyLocks_intact (source d : Dbref) : Keeps Intact (copyLocks source d) := by
  refine .store_bind fun s h => .ite (.throw _) (.forIn fun l hl => ?_)
  obtain ⟨key, hl⟩ := mem_locks.1 hl
  exact copyLock_intact (h.named source key l hl) source d

theorem recycle_intact (d : Dbref) : Keeps Intact (recycle d) := by
  apply Keeps.bind (freeAllLocks_intact d)
  intro _
  apply Keeps.change
  intro s s' h hchange
  split at hchange
  · cases hchange
  · cases hchange
    exact h.retire _

theorem restoreEntry_intact (e : SnapshotEntry) : Keeps Intact (restoreEntry e) := by
  refine .store_bind fun s _ => .ite ?_ (.bind (.look _) fun _ => .pure _)
  rcases e.code.unpack with c | code
  · exact .throw _
  · exact .bind (setLock_intact e.object e.name code e.creator e.flags) fun _ => .pure _

theorem restoreEntries_intact {es : List SnapshotEntry} (count : Nat) {σ : Session}
    (h : σ.store.Intact) :
    ((restoreEntries count es).run σ).2.store.Intact := by
  induction es generalizing count σ with
  | nil => exact h
  | cons e rest ih =>
    have hfirst := restoreEntry_intact e σ h
    rw [restoreEntries, StateT.run_bind]
    rcases hout : (restoreEntry e).run.run σ with ⟨err | restored, σ'⟩
    · rw [hout] at hfirst
      exact hfirst
    · rw [hout] at hfirst
      cases restored with
      | true => exact ih (count + 1) hfirst
      | false => exact ih count hfirst

theorem restoreSnapshot_intact (key : Option Bytes) (raw : Bytes) {σ : Session}
    (h : σ.store.Intact) :
    ((restoreSnapshot key raw).run σ).2.store.Intact := by
  unfold restoreSnapshot
  rcases readEntries key raw with e | es
  · exact h
  · have hrestored : ((restoreEntries 0 es).run σ).2.store.Intact := restoreEntries_intact 0 h
    simp only [StateT.run_bind]
    rcases hout : (restoreEntries 0 es).run σ with ⟨⟨count, _ | failure⟩, σ'⟩
    · rw [hout] at hrestored
      exact hrestored
    · rw [hout] at hrestored
      exact hrestored

theorem intact_loadInvariant : LoadInvariant fun _ => Intact where
  mono _ _ _ h := h
  add _ _ _ _ h _ hlocks hadd := h.add hadd hlocks
  move _ _ _ _ _ h hmove := h.move hmove
  setLock _ d name code creator flags := setLock_intact d name code creator flags
  addChannel _ _ _ h := h.of_records rfl fun _ _ _ hl => .inr hl

end Db

theorem Operation.perform_intact (op : Operation) {σ : Session} (h : σ.store.Intact) :
    (op.perform σ).store.Intact := by
  cases op with
  | add o unlocked =>
    have hadd : Db.Keeps Store.Intact (Db.change (·.add o)) := .change fun _ _ h hadd =>
      h.add hadd unlocked
    exact hadd σ h
  | move d dest =>
    have hmove : Db.Keeps Store.Intact (Db.change (·.move d dest)) := .change fun _ _ h hmove =>
      h.move hmove
    exact hmove σ h
  | recycle d => exact Db.recycle_intact d σ h
  | setLock d name code creator flags => exact Db.setLock_intact d name code creator flags σ h
  | setLockSource player d name source flags =>
    exact Db.setLockSource_intact player d name source flags σ h
  | freeLock d name => exact Db.freeLock_intact d name σ h
  | freeAllLocks d => exact Db.freeAllLocks_intact d σ h
  | copyLocks source d => exact Db.copyLocks_intact source d σ h
  | restoreSnapshot key raw => exact Db.restoreSnapshot_intact key raw h

def Operation.addNew (d owner : Dbref) : Operation := .add (.new d owner) rfl

/-- What can come about: a database is made empty, worlds are loaded into it, operations are
performed on it and objects are edited in all but their numbers and locks, as long as references
last. -/
inductive Reached : Session → Prop where
  | new (settings : Settings) (medium : Chunk.Medium) (c : Compression) :
      Reached ⟨.empty settings (.empty medium c), []⟩
  | load {σ : Session} (source : Bytes) (before : Reached σ)
      (room : σ.store.chunks.next.num.toNat + lockCount source < 2 ^ 64) :
      Reached ((Db.loadText source).run.run σ).2
  | perform {σ : Session} (op : Operation) (before : Reached σ)
      (room : σ.store.chunks.next.num.toNat + op.demand σ.store < 2 ^ 64) :
      Reached (op.perform σ)
  | edit {σ : Session} (d : Dbref) (f : Object → Object) (before : Reached σ)
      (number : ∀ o, (f o).id = o.id)
      (locks : ∀ o, (f o).locks = o.locks) : Reached { σ with store := σ.store.modify d f }
  | addChannel {σ : Session} (c : Channel) (before : Reached σ) :
      Reached { σ with store := σ.store.addChannel c }

namespace Store

theorem Owned.with_room {s : Store} {k : Nat} (h : s.Owned [] 0)
    (hroom : s.chunks.next.num.toNat + k < 2 ^ 64) :
    s.Owned [] k := { h with room := ⟨h.room.1, hroom⟩ }

end Store

namespace Reached

variable {σ : Session} {d : Dbref} {key : Bytes} {l : LockRecord}

theorem owned (h : Reached σ) : σ.store.Owned [] 0 := by
  induction h with
  | new settings medium c => exact Store.empty_owned settings c (by decide)
  | load source before room ih =>
    have hstart := ih.with_room room
    rw [← Nat.zero_add (lockCount source)] at hstart
    exact Db.loadText_ensures owned_loadInvariant source _ hstart
  | perform op before room ih =>
    have hstart := ih.with_room room
    rw [← Nat.zero_add (op.demand _)] at hstart
    exact (op.perform_kept hstart).owned
  | edit d f before number locks ih =>
    exact ((ih.guarded fun _ _ => True).toKept.modify d f number locks).owned
  | addChannel c before ih => exact owned_loadInvariant.addChannel 0 _ c ih

theorem intact (h : Reached σ) : σ.store.Intact := by
  induction h with
  | new settings medium c =>
    constructor
    · intro d key l hl
      cases hl
    · intro r p hp
      cases hp
  | load source before room ih =>
    exact Db.loadText_ensures Db.intact_loadInvariant source _ ih (k := 0)
  | perform op before room ih => exact op.perform_intact ih
  | edit d f before number locks ih => exact ih.edit d f locks
  | addChannel c before ih => exact Db.intact_loadInvariant.addChannel 0 _ c ih

theorem lockName_name (h : Reached σ) (hl : σ.store.record? d key = some l) :
    lockName l.name = l.name := by
  rw [lockName, if_neg]
  rw [List.isEmpty_iff]
  exact h.intact.named d key l hl

/-- The code of every lock can be read and fits into a chunk. -/
theorem codeOf_eq (h : Reached σ) (hl : σ.store.record? d key = some l) :
    ∃ code : LockCode, (∀ name, σ.store.codeOf d name l = .ok code) ∧
      (code.getD []).length ≤ maxChunkSize := by
  have hheld := h.owned.held d key l hl
  obtain ⟨p, hp⟩ := Option.isSome_iff_exists.1 hheld
  obtain ⟨code, hcode⟩ := h.intact.readable l.ref p hp
  refine ⟨code, fun name => ?_, hcode.1.length_le⟩
  simp only [Store.codeOf, h.owned.isZero_eq_false hheld, Bool.false_eq_true, if_false,
    Chunk.Store.fetch, hp, hcode.unpack]
  rfl

/-- Every lock is found under its name, and its code can be read and fits into a chunk. -/
theorem findLock_name (h : Reached σ) (hl : σ.store.record? d key = some l) :
    ∃ code, σ.store.findLock d l.name = ⟨some l, .ok code⟩ ∧
      (code.getD []).length ≤ maxChunkSize := by
  have hkey := h.owned.keyed d key l hl
  obtain ⟨code, hcode, hlength⟩ := h.codeOf_eq hl
  obtain ⟨o, ho, hlock⟩ := Store.get?_of_record? hl
  refine ⟨code, ?_, hlength⟩
  rw [Store.findLock, ho, h.lockName_name hl]
  simp only [Object.lock?, ← hkey, hlock, hcode]

theorem performAll (h : Reached σ) {ops : List Operation}
    (hroom : σ.store.chunks.next.num.toNat + Operation.demandAll σ ops < 2 ^ 64) :
    Reached (Operation.performAll σ ops) := by
  induction ops generalizing σ with
  | nil => exact h
  | cons op rest ih =>
    rw [Operation.demandAll, Nat.add_comm (op.demand _)] at hroom
    have hfirst : Reached (op.perform σ) := .perform op h (by omega)
    exact ih hfirst (op.perform_kept (h.owned.with_room hroom)).owned.room.2

/-- A lock that is set is there afterwards. -/
theorem hasLock_setLock (h : Reached σ) (hvalid : σ.store.isValid d = true)
    (hc : σ.store.chunks.compression.Supported) {code : Bytes}
    (hcode : code.length ≤ maxChunkSize) (name : Bytes)
    (creator : Dbref) (flags : LockFlags) :
    ((Operation.setLock d name (some code) creator flags).perform σ).store.HasLock d
      (lockName name) creator flags (some code) := by
  rw [Store.isValid, Bool.and_eq_true, Bool.not_eq_true'] at hvalid
  obtain ⟨o, ho⟩ := Option.isSome_iff_exists.1 hvalid.2
  obtain ⟨-, p, hp, hset⟩ := Db.setLock_withLock hvalid.1 ho hc hcode creator flags σ rfl
  rw [Operation.perform, hset]
  exact Store.hasLock_withLock h.owned ho hp

end Reached
end Database
end Locksmith
